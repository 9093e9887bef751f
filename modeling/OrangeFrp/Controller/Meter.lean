import OrangeFrp.Controller.Accounting
import OrangeFrp.Core.Sum

/-!
# What is counted for a user

A meter is all traffic of a user, or that of one proxy in one direction. It can be
read off an event, off the sums of the accounting task, and off the configuration. The
task files its sums under proxy and protocol, the configuration its records under the
proxy alone, so a reading of the sums adds over the protocols.

* `addEvent_meter`: an event moves the readings of the sums by its own.
* `accounted_meter`: the candidate of a flush reads as configuration and sums together.

Counters saturate at the largest `u64`, each on its own; up to it, the readings are
exact (`Counts`).
-/
namespace OrangeFrp.Controller

open OrangeFrp.Core OrangeFrp.Storage

inductive Meter where
  | used
  | through (proxyName : Str) (direction : Direction)
  deriving DecidableEq

def recordBytes (record : ProxyTrafficRecord) : Direction → Nat
  | .inbound => record.trafficInBytes
  | .outbound => record.trafficOutBytes

def proxyBytes (proxy : PendingProxyTraffic) : Direction → Nat
  | .inbound => proxy.trafficIn
  | .outbound => proxy.trafficOut

def trafficMeter (traffic : Assoc Str ProxyTrafficRecord) (name : Str) (direction : Direction) : Nat :=
  ((traffic.lookup name).map (recordBytes · direction)).getD 0

def userMeter (u : ServerUser) : Meter → Nat
  | .used => u.trafficUsedBytes
  | .through name direction => trafficMeter u.trafficByProxy name direction

/-- The reading of the user with the id. -/
def configMeter (c : ServerConfig) (userId : Str) (m : Meter) : Nat :=
  ((c.users.find? fun u => u.id = userId).map (userMeter · m)).getD 0

/-- The bytes under a name, whatever the protocol. -/
def entriesMeter (entries : List ((_ : Str × Str) × PendingProxyTraffic)) (name : Str)
    (direction : Direction) : Nat :=
  (entries.map fun e => if e.1.1 = name then proxyBytes e.2 direction else 0).sum

def PendingTraffic.meter (p : PendingTraffic) : Meter → Nat
  | .used => p.total
  | .through name direction => entriesMeter p.perProxy.entries name direction

def pendingMeter (pending : Pending) (userId : Str) (m : Meter) : Nat :=
  ((pending.lookup userId).map (·.meter m)).getD 0

def TrafficEvent.meter (event : TrafficEvent) : Meter → Nat
  | .used => event.bytes
  | .through name direction =>
    if event.proxyName = name ∧ event.direction = direction then event.bytes else 0

/-- What events tell of a user. -/
def meterOf (events : List TrafficEvent) (userId : Str) (m : Meter) : Nat :=
  (events.map fun event => if event.userId = userId then event.meter m else 0).sum

theorem meterOf_append (events more : List TrafficEvent) (userId : Str) (m : Meter) :
    meterOf (events ++ more) userId m = meterOf events userId m + meterOf more userId m := by
  simp [meterOf]

/-- The order of the events does not matter. -/
theorem meterOf_perm {events more : List TrafficEvent} (h : events.Perm more) (userId : Str)
    (m : Meter) : meterOf events userId m = meterOf more userId m :=
  (h.map _).sum_eq

@[simp] theorem pendingMeter_empty (userId : Str) (m : Meter) : pendingMeter ∅ userId m = 0 := rfl

theorem SameUpdate.meter {p q : PendingTraffic} (h : SameUpdate p q) (m : Meter) : p.meter m = q.meter m := by
  cases m with
  | used => exact h.1
  | through name direction => exact (h.2.map _).sum_eq

/-- The sums read the same in whatever order the map is gone through. -/
theorem pendingMeter_sameSums {order pending : Pending} (h : SameSums order pending) (userId : Str) (m : Meter) :
    pendingMeter order userId m = pendingMeter pending userId m := by
  have hl := h.lookup userId
  unfold pendingMeter
  generalize order.lookup userId = update at hl ⊢
  generalize pending.lookup userId = update' at hl ⊢
  cases hl with
  | some hsame => exact hsame.meter m
  | none => rfl

/-! ## Counting up to the largest `u64` -/

/-- A reading that is exact up to the largest `u64` and stays above it from there on. -/
def Counts (reading bytes : Nat) : Prop := min bytes U64_MAX ≤ reading ∧ reading ≤ bytes

theorem Counts.refl (n : Nat) : Counts n n := ⟨min_le_left _ _, le_refl n⟩

theorem Counts.trans {a b c : Nat} (h : Counts a b) (h' : Counts b c) : Counts a c := by
  unfold Counts at *
  omega

theorem Counts.add {a b : Nat} (h : Counts a b) (n : Nat) : Counts (n + a) (n + b) := by
  unfold Counts at *
  omega

theorem Counts.exact {a b : Nat} (h : Counts a b) (hb : b ≤ U64_MAX) : a = b := by
  unfold Counts at h
  omega

/-- A reading below the largest `u64` is exact. -/
theorem Counts.exact_of_lt {a b : Nat} (h : Counts a b) (ha : a < U64_MAX) : a = b := by
  unfold Counts at h
  omega

/-- A bound below the largest `u64` holds of the reading and of what it counts alike. -/
theorem Counts.le_sql_iff {a b : Nat} (h : Counts a b) : (a : Int) ≤ I64_MAX ↔ (b : Int) ≤ I64_MAX := by
  unfold Counts at h
  unfold U64_MAX at h
  unfold I64_MAX
  omega

theorem satAdd_counts (a b : Nat) : Counts (satAdd a b) (a + b) := ⟨le_refl _, min_le_left _ _⟩

/-! ## An event -/

theorem proxyBytes_add (p : PendingProxyTraffic) (d direction : Direction) (bytes : Nat) :
    Counts (proxyBytes (p.add d bytes) direction)
      (proxyBytes p direction + if d = direction then bytes else 0) := by
  cases d <;> cases direction <;> first | exact satAdd_counts _ _ | exact .refl _

theorem add_meter (user : PendingTraffic) (event : TrafficEvent) (m : Meter) :
    Counts ((user.add event).meter m) (user.meter m + event.meter m) := by
  cases m with
  | used => exact satAdd_counts _ _
  | through name direction =>
    have hzero : (if event.proxyName = name then
        proxyBytes ⟨event.protocol, event.publicPort, 0, 0⟩ direction else 0) = 0 := by
      cases direction <;> simp [proxyBytes]
    have hsum := sum_alter user.perProxy (event.proxyName, event.protocol)
      ⟨event.protocol, event.publicPort, 0, 0⟩ (fun p => p.add event.direction event.bytes)
      (fun key p => if key.1 = name then proxyBytes p direction else 0) hzero
    have hle := le_sum user.perProxy (event.proxyName, event.protocol)
      ⟨event.protocol, event.publicPort, 0, 0⟩
      (fun key p => if key.1 = name then proxyBytes p direction else 0) hzero
    simp only [PendingTraffic.meter, TrafficEvent.meter, entriesMeter, PendingTraffic.add]
    by_cases hname : event.proxyName = name
    · simp only [hname, if_true, true_and] at hsum hle ⊢
      have hadd := proxyBytes_add ((user.perProxy.lookup (event.proxyName, event.protocol)).getD
        ⟨event.protocol, event.publicPort, 0, 0⟩) event.direction direction event.bytes
      unfold Counts at hadd ⊢
      omega
    · simp only [hname, if_false, false_and, Nat.add_zero] at hsum ⊢
      rw [hsum]
      exact .refl _

/-- **An event** moves the reading of the sums by its own. -/
theorem addEvent_meter (pending : Pending) (event : TrafficEvent) (userId : Str) (m : Meter) :
    Counts (pendingMeter (addEvent pending event) userId m)
      (pendingMeter pending userId m + meterOf [event] userId m) := by
  simp only [meterOf, List.map_cons, List.map_nil, List.sum_cons, List.sum_nil, Nat.add_zero]
  unfold addEvent pendingMeter
  rw [Assoc.lookup_alter]
  by_cases hu : userId = event.userId
  · subst hu
    simp only [if_true]
    cases pending.lookup event.userId with
    | none =>
      have hzero : (⟨0, ∅⟩ : PendingTraffic).meter m = 0 := by cases m <;> rfl
      have hadd := add_meter ⟨0, ∅⟩ event m
      rw [hzero] at hadd
      exact hadd
    | some user => exact add_meter user event m
  · rw [if_neg hu, if_neg (Ne.symm hu)]
    exact .refl _

theorem drainEvents_meter (events : List TrafficEvent) (pending : Pending) (userId : Str) (m : Meter) :
    Counts (pendingMeter (drainEvents events pending) userId m)
      (pendingMeter pending userId m + meterOf events userId m) := by
  induction events generalizing pending with
  | nil => exact .refl _
  | cons event events ih =>
    have hrest := ih (addEvent pending event)
    have hadd := addEvent_meter pending event userId m
    have hsplit := meterOf_append [event] events userId m
    rw [List.singleton_append] at hsplit
    rw [drainEvents, List.foldl_cons, hsplit]
    unfold Counts at hrest hadd ⊢
    unfold drainEvents at hrest
    omega

/-! ## The candidate of a flush -/

theorem applyProxy_meter (traffic : Assoc Str ProxyTrafficRecord)
    (e : (_ : Str × Str) × PendingProxyTraffic) (name : Str) (direction : Direction) :
    Counts (trafficMeter (applyProxy traffic e) name direction)
      (trafficMeter traffic name direction + if e.1.1 = name then proxyBytes e.2 direction else 0) := by
  unfold trafficMeter applyProxy
  rw [Assoc.lookup_alter]
  by_cases hn : name = e.1.1
  · subst hn
    simp only [if_true]
    cases traffic.lookup e.1.1 <;> cases direction <;> exact satAdd_counts _ _
  · rw [if_neg hn, if_neg (Ne.symm hn)]
    exact .refl _

theorem foldl_applyProxy_meter (entries : List ((_ : Str × Str) × PendingProxyTraffic))
    (traffic : Assoc Str ProxyTrafficRecord) (name : Str) (direction : Direction) :
    Counts (trafficMeter (entries.foldl applyProxy traffic) name direction)
      (trafficMeter traffic name direction + entriesMeter entries name direction) := by
  induction entries generalizing traffic with
  | nil => exact .refl _
  | cons e entries ih =>
    have hrest := ih (applyProxy traffic e)
    have he := applyProxy_meter traffic e name direction
    simp only [entriesMeter, List.map_cons, List.sum_cons, List.foldl_cons] at hrest ⊢
    unfold Counts at *
    omega

theorem accountUser_meter (pending : Pending) (u : ServerUser) (m : Meter) :
    Counts (userMeter (accountUser pending u) m) (userMeter u m + pendingMeter pending u.id m) := by
  unfold accountUser pendingMeter
  cases pending.lookup u.id with
  | none => exact .refl _
  | some update =>
    cases m with
    | used => exact satAdd_counts _ _
    | through name direction => exact foldl_applyProxy_meter _ _ name direction

/-- **The candidate** of a flush reads as the configuration and the sums together. -/
theorem accounted_meter (c : ServerConfig) (pending : Pending) {userId : Str}
    (hu : userId ∈ c.users.map (·.id)) (m : Meter) :
    Counts (configMeter (accounted c pending) userId m)
      (configMeter c userId m + pendingMeter pending userId m) := by
  unfold configMeter accounted
  rw [List.find?_map, show ((fun u : ServerUser => decide (u.id = userId)) ∘ accountUser pending) =
    fun u => decide (u.id = userId) from funext fun u => by rw [Function.comp_apply, accountUser_fields]]
  cases hf : c.users.find? fun u => u.id = userId with
  | none =>
    obtain ⟨u, hmem, rfl⟩ := List.mem_map.1 hu
    exact absurd (decide_eq_true rfl) (List.find?_eq_none.1 hf u hmem)
  | some u =>
    have hid : u.id = userId := by simpa using List.find?_some hf
    subst hid
    exact accountUser_meter pending u m

/-! ## Configurations that read alike -/

def SameMeters (u v : ServerUser) : Prop := v.id = u.id ∧ ∀ m, userMeter v m = userMeter u m

theorem configMeter_congr {c c' : ServerConfig} (h : List.Forall₂ SameMeters c.users c'.users)
    (userId : Str) (m : Meter) : configMeter c' userId m = configMeter c userId m := by
  unfold configMeter
  generalize c.users = us, c'.users = vs at h
  induction h with
  | nil => rfl
  | @cons u v us vs huv _ ih =>
    rw [List.find?_cons, List.find?_cons, huv.1]
    split
    · exact huv.2 m
    · exact ih

theorem ids_of_sameMeters {us vs : List ServerUser} (h : List.Forall₂ SameMeters us vs) :
    vs.map (·.id) = us.map (·.id) := by
  induction h with
  | nil => rfl
  | cons h _ ih => rw [List.map_cons, List.map_cons, ih, h.1]

theorem configMeter_of_mem {c : ServerConfig} (hn : (c.users.map (·.id)).Nodup) {u : ServerUser}
    (hu : u ∈ c.users) (m : Meter) : configMeter c u.id m = userMeter u m := by
  unfold configMeter
  cases hf : c.users.find? fun v => v.id = u.id with
  | none => exact absurd (decide_eq_true rfl) (List.find?_eq_none.1 hf u hu)
  | some v =>
    have hid : v.id = u.id := by simpa using List.find?_some hf
    rw [List.inj_on_of_nodup_map hn (List.mem_of_find?_eq_some hf) hu hid]
    rfl

/-! ## Readings of counters that fit SQLite -/

theorem lt_u64_of_sql {n : Nat} (h : (n : Int) ≤ I64_MAX) : n < U64_MAX := by
  unfold I64_MAX at h
  unfold U64_MAX
  omega

theorem zero_lt_u64 : 0 < U64_MAX := by decide

theorem userMeter_lt {u : ServerUser} (h : CountersFit u) (m : Meter) : userMeter u m < U64_MAX := by
  cases m with
  | used => exact lt_u64_of_sql h.used
  | through name direction =>
    show ((u.trafficByProxy.lookup name).map (recordBytes · direction)).getD 0 < U64_MAX
    cases hl : u.trafficByProxy.lookup name with
    | none => exact zero_lt_u64
    | some record =>
      cases direction with
      | inbound => exact lt_u64_of_sql (h.records name record hl).1
      | outbound => exact lt_u64_of_sql (h.records name record hl).2

/-- The counters of a user are its limit and its meters. -/
theorem countersFit_iff {u : ServerUser} : CountersFit u ↔
    (u.trafficLimitBytes : Int) ≤ I64_MAX ∧ ∀ m, (userMeter u m : Int) ≤ I64_MAX := by
  refine ⟨?_, ?_⟩
  · intro h
    refine ⟨h.limit, fun m => ?_⟩
    cases m with
    | used => exact h.used
    | through name direction =>
      cases hl : u.trafficByProxy.lookup name with
      | none =>
        have hzero : userMeter u (.through name direction) = 0 := by simp [userMeter, trafficMeter, hl]
        rw [hzero]
        decide
      | some record =>
        have hbytes : userMeter u (.through name direction) = recordBytes record direction := by
          simp [userMeter, trafficMeter, hl]
        rw [hbytes]
        cases direction with
        | inbound => exact (h.records name record hl).1
        | outbound => exact (h.records name record hl).2
  · intro h
    obtain ⟨hlimit, hmeters⟩ := h
    refine ⟨hlimit, hmeters .used, fun name record hl => ?_⟩
    have hin := hmeters (.through name .inbound)
    have hout := hmeters (.through name .outbound)
    simp only [userMeter, trafficMeter, hl] at hin hout
    exact ⟨hin, hout⟩

theorem configMeter_lt {c : ServerConfig} (h : ∀ u ∈ c.users, CountersFit u) (userId : Str) (m : Meter) :
    configMeter c userId m < U64_MAX := by
  unfold configMeter
  cases hf : c.users.find? fun u => u.id = userId with
  | none => exact zero_lt_u64
  | some u => exact userMeter_lt (h u (List.mem_of_find?_eq_some hf)) m

end OrangeFrp.Controller
