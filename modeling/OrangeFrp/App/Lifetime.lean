import OrangeFrp.App.Front
import OrangeFrp.App.Shutdown

/-!
# A quota over restarts (`frp-game-server/src/app.rs`, `command_serve`)

A gate knows what a user has left from the configuration that `serve` has read, so what one life
of the service does not write down the next one gives away again. Where each life has written
down what it was told of, that is no more than what sessions had written and not told of.

The steps of a life are not restricted: what is asked is how an ended life has left the counter
of the user.

* `Service.step_capped`: no step of the service gives a user another limit.
* `read_used`: a life starts with the counter that the last one has left.
* `orderly_closed`: a life of orderly steps is closed when it returns.
* `quota_over_lives`: what all lives together deliver.
-/
namespace OrangeFrp.App

open OrangeFrp.Core OrangeFrp.Storage OrangeFrp.Controller

/-! ## The limits in a life -/

def limits (c : ServerConfig) : List (Str × Nat) := c.users.map fun u => (u.id, u.trafficLimitBytes)

theorem limits_sameAccount {c k : ServerConfig} (h : List.Forall₂ SameAccount c.users k.users) :
    limits k = limits c := by
  unfold limits
  generalize c.users = us at h
  generalize k.users = vs at h
  induction h with
  | nil => rfl
  | cons huv _ ih =>
    rw [List.map_cons, List.map_cons, ih, huv]

theorem limits_sameNames {c k : ServerConfig} (h : List.Forall₂ SameButNames c.users k.users) :
    limits k = limits c := limits_sameAccount (h.imp fun _ _ => sameAccount_of_sameName)

/-- The configuration with the limits of another keeps its users. -/
theorem keeps_of_limits {c k : ServerConfig} (hn : (c.users.map (·.id)).Nodup) (h : limits k = limits c)
    {u : ServerUser} (hu : u ∈ c.users) :
    (NetworkAct.reconcile (.call k)).Keeps u.id (some u.trafficLimitBytes) := by
  have hmem : (u.id, u.trafficLimitBytes) ∈ limits k := by
    rw [h]
    exact List.mem_map_of_mem hu
  obtain ⟨v, hv, hvu⟩ := List.mem_map.1 hmem
  refine ⟨List.mem_map.2 ⟨v, hv, congrArg Prod.fst hvu⟩, fun l hl w hw hid => ?_⟩
  cases hl
  have hwc : (w.id, w.trafficLimitBytes) ∈ limits c := by
    rw [← h]
    exact List.mem_map_of_mem hw
  obtain ⟨x, hx, hxw⟩ := List.mem_map.1 hwc
  obtain ⟨hxid, hxlimit⟩ := Prod.mk.inj hxw
  rw [← hxlimit, List.inj_on_of_nodup_map hn hx hu (hxid.trans hid)]

theorem Network.keeps_of_reconcile {act : ReconcileAct} (h : ∀ k, act ≠ .call k) (userId : Str)
    (limit : Option Nat) : (NetworkAct.reconcile act).Keeps userId limit := by
  cases act with
  | call k => exact absurd rfl (h k)
  | _ => trivial

/-- The limits of the configuration that `serve` has read are in force. -/
structure Service.Capped {τ : Type} (c : ServerConfig) (s : Service τ) : Prop where
  memory : limits s.config = limits c
  offers : ∀ k, s.handling = .storing k ∨ s.handling = .restoring k → limits k = limits c
  network : ∀ u ∈ c.users, 0 < u.trafficLimitBytes → ∃ r, s.network.Held u.id r u.trafficUsedBytes ∧
    s.network.Within u.id r u.trafficLimitBytes u.trafficUsedBytes

section
variable {τ : Type} [Double τ] {P : Primitives} {c : ServerConfig} {s t : Service τ}

theorem Service.Capped.moved (h : s.Capped c) (hs : s.network.Sound c)
    (hfit : ∀ u ∈ c.users, CountersFit u) {act : NetworkAct} {n : Network τ} (hst : s.network.step act = some n)
    (hk : ∀ u ∈ c.users, act.Keeps u.id (some u.trafficLimitBytes)) :
    Service.Capped c { s with network := n } := by
  refine ⟨h.memory, h.offers, fun u hu hpos => ?_⟩
  obtain ⟨r, hheld, hwithin⟩ := h.network u hu hpos
  have hb := hs.balanced u.id
  have hused := lt_u64_of_sql (hfit u hu).used
  have hlimit := lt_u64_of_sql (hfit u hu).limit
  exact ⟨r, Network.step_held hheld hb (hk u hu).user hst,
    Network.step_within hheld hb hwithin hpos (by omega) (hk u hu) hst⟩

omit [Double τ] in
/-- Nothing of the network changes but what is under way to the accounting task; a call of
`reconcile` may be given up. -/
theorem Service.Capped.regrouped (h : s.Capped c) {queue taken : List TrafficEvent} {reconciling : Reconciling}
    (hr : reconciling = s.network.reconciling ∨ reconciling = .idle) (receiving : Bool) :
    Service.Capped c { s with network := { s.network with
      queue := queue, taken := taken, reconciling := reconciling, receiving := receiving } } := by
  refine ⟨h.memory, h.offers, fun u hu hpos => ?_⟩
  obtain ⟨r, hheld, hwithin⟩ := h.network u hu hpos
  refine ⟨r, ⟨hheld.gated, hheld.listeners, hheld.sessions, hheld.used⟩, hwithin.inForce,
    fun k us hgates => ?_, hwithin.within⟩
  rcases hr with rfl | rfl
  · exact hwithin.pending k us hgates
  · cases hgates

omit [Double τ] in
theorem Service.Capped.set (h : s.Capped c) {disk : Disk} {config : ServerConfig} {pending : Pending}
    {handling : Handling} {accounting : Accounting} {stage : Stage} (hm : limits config = limits c)
    (ho : ∀ k, handling = .storing k ∨ handling = .restoring k → limits k = limits c) :
    Service.Capped c { s with
      disk := disk, config := config, pending := pending, handling := handling, accounting := accounting
      stage := stage } :=
  ⟨hm, ho, h.network⟩

omit [Double τ] in
theorem Service.Capped.reconciled (h : s.Capped c) (ok : Bool) : (s.reconciled ok).Capped c := by
  unfold Service.reconciled
  split
  · split
    · exact h.set h.memory nofun
    · exact h.set h.memory h.offers
  · rename_i k hk
    split
    · exact h.set (h.offers k (.inl hk)) nofun
    · exact h.set h.memory nofun
  · rename_i k hk
    exact h.set (h.offers k (.inr hk)) nofun
  · exact h

omit [Double τ] in
/-- A flush counts, and leaves the limits. -/
theorem Service.flush_limits (hv : Valid P s.config) (e : Entropy) : limits (s.flush P e).config = limits s.config := by
  unfold Service.flush Ledger.flush
  rcases flushPending_cases (P := P) s.disk s.config s.pending e with
    ⟨-, hf⟩ | ⟨disk, error, -, hf⟩ | ⟨disk, stored, e', -, hsave, hf⟩ <;>
    simp only [Service.ledger, hf]
  rw [limits_sameNames (accounted_sameNames hv hsave)]
  exact accounted_column (fun u => (u.id, u.trafficLimitBytes)) (fun _ _ _ => rfl) s.config s.pending

omit [Double τ] in
theorem Service.Capped.flush (h : s.Capped c) (hv : Valid P s.config) (e : Entropy) : (s.flush P e).Capped c :=
  ⟨(Service.flush_limits hv e).trans h.memory, h.offers, h.network⟩

/-- **Every step** leaves the limits in force. -/
theorem Service.step_capped {l : ServiceAct} (h : s.Capped c) (hs : s.Sound P c)
    (hfit : ∀ u ∈ c.users, CountersFit u) (hst : s.step P l = some t) : t.Capped c := by
  have hn : (c.users.map (·.id)).Nodup := by
    rw [← hs.conserves.ids]
    exact newIn_empty.1 hs.conserves.valid.distinct.ids
  have hv := hs.conserves.valid
  -- a `reconcile` is called with limits of the start
  have hcalled {k : ServerConfig} {n : Network τ} (hk : limits k = limits c)
      (hcall : s.network.reconcile (.call k) = some n) : Service.Capped c { s with network := n } :=
    h.moved hs.network hfit (show s.network.step (.reconcile (.call k)) = some n from hcall)
      fun u hu => keeps_of_limits hn hk hu
  cases Service.step_steps hst with
  | peers hact hn' =>
    rename_i act n
    refine h.moved hs.network hfit hn' fun u _ => ?_
    cases act <;> trivial
  | receive hw hq => exact (h.regrouped (.inl rfl) _).set h.memory h.offers
  | tick hw => exact (h.regrouped (.inl rfl) _).set h.memory h.offers
  | lastDrain hw => exact (h.regrouped (.inl rfl) _).set h.memory h.offers
  | flush hf hi =>
    have hflushed := h.flush hv ‹Entropy›
    exact hflushed.set hflushed.memory hflushed.offers
  | failedFlush hf => exact h.set h.memory h.offers
  | lastFlush hc hi =>
    have hflushed := h.flush hv ‹Entropy›
    exact (hflushed.regrouped (.inl rfl) false).set hflushed.memory hflushed.offers
  | failedLastFlush hc hi => exact (h.regrouped (.inl rfl) false).set h.memory h.offers
  | refused hu => exact h.set h.memory h.offers
  | stored hi hnorm hsave hcall =>
    have hst' : StoredCandidate P (⟨s.disk, s.config, none⟩ : Server τ) _ _ _ _ _ _ :=
      ⟨normalizeUserTunnels_ok hnorm, _, hsave⟩
    have hk := (limits_sameAccount (hst'.continues hv hi).users).trans h.memory
    refine (hcalled hk hcall).set h.memory fun k hk' => ?_
    rcases hk' with hk' | hk' <;> cases hk'
    exact hk
  | reconciling hact hn' =>
    exact h.moved hs.network hfit (show s.network.step (.reconcile _) = some _ from hn')
      fun u _ => Network.keeps_of_reconcile hact _ _
  | reconciled hact hn' =>
    exact (h.moved hs.network hfit (show s.network.step (.reconcile _) = some _ from hn')
      fun u _ => Network.keeps_of_reconcile hact _ _).reconciled _
  | restored hf hsave hcall =>
    have hk := (limits_sameNames (original_replaces hv hsave).2).trans h.memory
    refine (hcalled hk hcall).set h.memory fun k hk' => ?_
    rcases hk' with hk' | hk' <;> cases hk'
    exact hk
  | stuck hu => exact h.set h.memory nofun
  | drop => exact (h.regrouped (.inr rfl) _).set h.memory nofun
  | write => exact h.set h.memory h.offers
  | signal => exact h.set h.memory h.offers
  | stop hn' =>
    have hmoved := h.moved hs.network hfit hn' fun _ _ => trivial
    exact hmoved.set hmoved.memory hmoved.offers
  | joined => exact h.set h.memory h.offers
  | ret hr => exact h.set h.memory h.offers

theorem service_capped : (service P c : LTS (Service τ) ServiceAct).Inductive fun s =>
    s.Sound P c ∧ s.Capped c ∧ ∀ u ∈ c.users, CountersFit u where
  init s h := by
    have hs := service_inductive.init s h
    obtain ⟨⟨now, hcall⟩, hconfig, hvalid, hfits, -, hhandling, -, -⟩ := h
    have hn := newIn_empty.1 hvalid.distinct.ids
    refine ⟨hs, ⟨by rw [hconfig], fun k hk => ?_, fun u hu hpos => ?_⟩, hfits⟩
    · rw [hhandling] at hk
      rcases hk with hk | hk <;> cases hk
    · have hused := lt_u64_of_sql (hfits u hu).used
      have hlimit := lt_u64_of_sql (hfits u hu).limit
      obtain ⟨r, hheld, hwithin⟩ := @open_held τ _ c hn now u hu hused.le
      have hst : (Network.open c now : Network τ).step (.reconcile (.call c)) = some s.network := hcall
      have hk := keeps_of_limits hn rfl hu
      exact ⟨r, Network.step_held hheld (open_balanced c now u.id) hk.user hst,
        Network.step_within hheld (open_balanced c now u.id) hwithin hpos (by omega) hk hst⟩
  step _ _ _ h hst :=
    ⟨Service.step_sound h.1 hst, Service.step_capped h.2.1 h.1 h.2.2 hst, h.2.2⟩

/-- **One life** delivers no more than was left when it began. -/
theorem service_quota (h : (service P c).Reachable s) {u : ServerUser} (hu : u ∈ c.users)
    (hpos : 0 < u.trafficLimitBytes) :
    s.network.delivered u.id ≤ u.trafficLimitBytes - u.trafficUsedBytes := by
  obtain ⟨hs, hc, -⟩ := service_capped.reachable s h
  obtain ⟨r, -, hwithin⟩ := hc.network u hu hpos
  have hreserved := (hs.network.balanced u.id).reserved
  have hle := hwithin.within
  omega

end

/-! ## From one life to the next -/

section
variable {P : Primitives}

/-- **What is read is what was written**: the counters of a configuration that `read` returns. -/
theorem read_used {disk disk' : Disk} {c : ServerConfig} {e e' : Entropy} {row : SettingsRow}
    (hk : Kept P disk.db) (hset : disk.db.settings = some row) (h : Storage.read P disk e = (disk', .ok (c, e')))
    {u : ServerUser} (hu : u ∈ c.users) : dbMeter disk.db u.id .used = u.trafficUsedBytes := by
  unfold Storage.read at h
  split at h
  · cases h
  rename_i disk₁ e₁ hi
  rw [Prod.mk.injEq] at h
  obtain ⟨rfl, h⟩ := h
  obtain ⟨c₁, hl, h⟩ := bind_eq_ok.1 h
  obtain ⟨normalized, hn, h⟩ := bind_eq_ok.1 h
  cases h
  have hk₁ := initialize_kept hk hi
  obtain ⟨-, k, hchk, -, -⟩ := (normalize_ok_iff P).1 hn
  have hv := hk₁.valid hl (checkUsers_checked hchk)
  obtain ⟨-, -, hnormalized⟩ := (normalize_clean_iff P hv.settings hv.users e₁.uuids).1 hn
  rw [hnormalized] at hu
  obtain ⟨v, hv₁, hsame⟩ := exists_of_forall₂ (renameUsers_forall₂ c₁.users e₁.uuids)
    ((sortUsers_perm _).mem_iff.1 hu)
  have hused := Holds.used (holds_loaded hk₁ hl) hv₁
  rw [dbMeter_samePasswords (initializeStore_initialized hset hi).1] at hused
  rw [hsame.1]
  exact hused

end

/-- A life of the service from what it reads in the directory it finds, up to a state of it; its
user has the limit. -/
structure Life {τ : Type} [Double τ] (P : Primitives) (userId : Str) (limit : Nat) (disk : Disk) (c : ServerConfig)
    (s : Service τ) : Prop where
  kept : Kept P disk.db
  user : ∃ u ∈ c.users, u.id = userId ∧ u.trafficLimitBytes = limit
  run : ∃ disk' e e' s₀ ls, Storage.read P disk e = (disk', .ok (c, e')) ∧ Service.Opened P c s₀ ∧
    s₀.disk.db = disk'.db ∧ (service P c).Run s₀ ls s

/-- `serve` has returned, and for the user its last flush is done: no bytes of hers are left in
the sums, the directory has the counter of the memory, and the accounting task has received all
events that her sessions have sent. -/
structure Service.Closed {τ : Type} (userId : Str) (s : Service τ) : Prop where
  returned : s.stage = .returned
  heard : meterOf s.network.sent userId .used = meterOf s.network.taken userId .used
  flushed : pendingMeter s.pending userId .used = 0
  initialized : ∃ row, s.disk.db.settings = some row
  stored : dbMeter s.disk.db userId .used = configMeter s.config userId .used

/-- The lives before, last first, with the directory that they have left. Between two of them
others may change what they like but the counter of the user. -/
inductive Lives {τ : Type} [Double τ] (P : Primitives) (userId : Str) (limit before : Nat) :
    List (Service τ) → Disk → Prop
  | start {disk : Disk} (initialized : ∃ row, disk.db.settings = some row)
      (used : dbMeter disk.db userId .used = before) : Lives P userId limit before [] disk
  | returned {past : List (Service τ)} {disk : Disk} {c : ServerConfig} {s : Service τ}
      (lives : Lives P userId limit before past disk) (life : Life P userId limit disk c s)
      (ended : s.Closed userId) : Lives P userId limit before (s :: past) s.disk
  | between {past : List (Service τ)} {disk disk' : Disk} (lives : Lives P userId limit before past disk)
      (initialized : ∃ row, disk'.db.settings = some row)
      (used : dbMeter disk'.db userId .used = dbMeter disk.db userId .used) : Lives P userId limit before past disk'

section
variable {τ : Type} [Double τ] {P : Primitives} {userId : Str} {limit before : Nat} {disk : Disk}
  {past : List (Service τ)} {c : ServerConfig} {s : Service τ}

/-- A life of orderly steps is closed when it returns, for every user. -/
theorem orderly_closed {τ : Type} [Double τ] {P : Primitives} {c : ServerConfig} {s : Service τ}
    (h : ((service P c).restrict (Orderly P)).Reachable s) (hr : s.stage = .returned) {userId : Str}
    (hid : userId ∈ c.users.map (·.id)) : s.Closed userId := by
  obtain ⟨hacc, hreturned⟩ := orderly_inductive.reachable s h
  have hf := hreturned hr
  have hcounted := hacc.counted hf
  have hmem : userId ∈ s.config.users.map (·.id) := by
    rw [show s.config.users.map (·.id) = c.users.map (·.id) from hacc.sound.conserves.ids]
    exact hid
  refine ⟨hr, by rw [hacc.drained (by rw [hf]; trivial)], ?_, hcounted.initialized,
    hcounted.meters userId hmem .used⟩
  -- the memory alone reads as what was received
  have hle : configMeter s.config userId .used + pendingMeter s.pending userId .used ≤ _ :=
    (hacc.sound.conserves.balance userId hid .used).2
  have hreceived := hacc.received hf userId hid .used
  have htaken : meterOf s.ledger.received userId .used = meterOf s.network.taken userId .used := rfl
  omega

/-- A life delivers what was left, and writes down all of it that was told of. -/
theorem Life.counts (h : Life P userId limit disk c s) (hset : ∃ row, disk.db.settings = some row)
    (hpos : 0 < limit) : s.network.delivered userId ≤ limit - dbMeter disk.db userId .used ∧
      s.network.unsent userId ≤ s.network.delivered userId ∧
      (s.Closed userId → dbMeter s.disk.db userId .used + s.network.unsent userId =
        dbMeter disk.db userId .used + s.network.delivered userId) := by
  obtain ⟨row, hrow⟩ := hset
  obtain ⟨u, hu, rfl, rfl⟩ := h.user
  obtain ⟨disk', e, e', s₀, ls, hread, h₀, -, hrun⟩ := h.run
  have hbefore := read_used h.kept hrow hread hu
  have hreach : (service P c).Reachable s := ⟨s₀, ls, h₀, hrun⟩
  have hs := service_inductive.reachable s hreach
  have hdelivered := (hs.network.balanced u.id).delivered
  rw [hbefore]
  refine ⟨service_quota hreach hu hpos, by omega, fun hclosed => ?_⟩
  have hn : (c.users.map (·.id)).Nodup := by
    rw [← hs.conserves.ids]
    exact newIn_empty.1 hs.conserves.valid.distinct.ids
  -- what was received is in memory, since no sums are left
  have hbal := hs.conserves.balance u.id (List.mem_map_of_mem hu) .used
  rw [show pendingMeter s.ledger.pending u.id .used = 0 from hclosed.flushed, Nat.add_zero] at hbal
  have hreceived := hbal.exact_of_lt (configMeter_lt hs.fits u.id .used)
  calc dbMeter s.disk.db u.id .used + s.network.unsent u.id
      = configMeter s.config u.id .used + s.network.unsent u.id := by rw [hclosed.stored]
    _ = configMeter c u.id .used + meterOf s.network.taken u.id .used + s.network.unsent u.id := by
      exact congrArg (· + _) hreceived
    _ = userMeter u .used + (meterOf s.network.sent u.id .used + s.network.unsent u.id) := by
      rw [configMeter_of_mem hn hu, hclosed.heard, Nat.add_assoc]
    _ = u.trafficUsedBytes + s.network.delivered u.id := by
      rw [meterOf_used, hdelivered]
      rfl

/-- What the lives have delivered is written down, but for what was not told of. -/
theorem Lives.counts (h : Lives P userId limit before past disk) (hpos : 0 < limit) :
    (∃ row, disk.db.settings = some row) ∧ before ≤ dbMeter disk.db userId .used ∧
      dbMeter disk.db userId .used ≤ max limit before ∧
      dbMeter disk.db userId .used + (past.map fun s => s.network.unsent userId).sum =
        before + (past.map fun s => s.network.delivered userId).sum := by
  induction h with
  | start initialized used =>
    rw [used]
    exact ⟨initialized, Nat.le_refl _, le_max_right _ _, rfl⟩
  | returned lives life ended ih =>
    obtain ⟨hset, hbefore, hlimit, hsum⟩ := ih
    obtain ⟨hquota, htold, hwritten⟩ := life.counts hset hpos
    have hcount := hwritten ended
    refine ⟨ended.initialized, by omega, by omega, ?_⟩
    rw [List.map_cons, List.sum_cons, List.map_cons, List.sum_cons]
    omega
  | between lives initialized used ih =>
    obtain ⟨-, hbefore, hlimit, hsum⟩ := ih
    rw [used]
    exact ⟨initialized, hbefore, hlimit, hsum⟩

/-- **A quota over restarts.** Over all lives of the service, with orderly stops between them, a
user whose limit stays is delivered no more than was left of it at first, and what the ended lives
had written and not told of. -/
theorem quota_over_lives (h : Lives P userId limit before past disk) (hlife : Life P userId limit disk c s)
    (hpos : 0 < limit) : (past.map fun s => s.network.delivered userId).sum +
      s.network.delivered userId ≤ limit - before + (past.map fun s => s.network.unsent userId).sum := by
  obtain ⟨hset, hbefore, hlimit, hsum⟩ := h.counts hpos
  have hquota := (hlife.counts hset hpos).1
  omega

end

/-! ## Two lives -/

/-- A user with 100 bytes. -/
def rationed : ServerConfig :=
  sampleConfig [{ sampleUser 'a' [sampleTunnel ['x'] 5 20000] with trafficLimitBytes := 100 }]

/-- With the 80 bytes of the first life. -/
def afterFirstLife : ServerConfig :=
  { accounted rationed (addEvent ∅ (event .inbound 80)) with revision := rationed.revision + 1 }

/-- A connection sends 80 bytes more. -/
def secondLife : List ServiceAct := bringUp rationed ++ [.peers (.accept 0)] ++
  upload 0 [.read 80, .reserve 0, .write 20]

theorem rationed_valid : Valid .plain rationed := valid_of_fixed (d := Draws.constant) .plain (by decide +kernel)

theorem rationed_kept : Kept .plain (Disk.ofConfig rationed).db :=
  kept_of_holds rationed_valid (mirrored_ofConfig rfl rfl (by decide +kernel) (by decide +kernel) (by decide +kernel)
    (by decide +kernel) (by decide +kernel)).holds

/-- `serve` after `read`. -/
def reopened (disk : Disk) : Service Rat :=
  { served afterFirstLife with disk := (Storage.read .plain disk Entropy.constant).1 }

/-- The first life, with its last flush. -/
def firstLife : List ServiceAct := drainedInTime ++ [.lastFlush Entropy.constant] ++ returns

/-- **80 bytes, a restart, and 20 more.** -/
theorem two_lives_quota : ∃ s t : Service Rat, s.stage = .returned ∧ s.network.delivered ['a'] = 80 ∧
    t.network.delivered ['a'] = 20 ∧
    ([s].map fun s => s.network.delivered ['a']).sum + t.network.delivered ['a'] ≤
      100 - 0 + ([s].map fun s => s.network.unsent ['a']).sum := by
  have hexec : ((LTS.exec (Service.step Primitives.plain) (served rationed) firstLife).bind fun s =>
      (LTS.exec (Service.step Primitives.plain) (reopened s.disk) secondLife).map fun t =>
        (decide (s.stage = .returned ∧ meterOf s.network.sent ['a'] .used = meterOf s.network.taken ['a'] .used ∧
            pendingMeter s.pending ['a'] .used = 0 ∧
            dbMeter s.disk.db ['a'] .used = configMeter s.config ['a'] .used ∧
            s.disk.db = (save .plain (Disk.ofConfig rationed) (accounted rationed (addEvent ∅ (event .inbound 80)))
              Entropy.constant).1.db),
          decide (s.network.delivered ['a'] = 80 ∧ t.network.delivered ['a'] = 20),
          (Storage.read .plain s.disk Entropy.constant).2.toOption.map Prod.fst)) =
      some (true, true, some afterFirstLife) := by decide +kernel
  have hfirst : (Storage.read .plain (Disk.ofConfig rationed) Entropy.constant).1.db = Db.ofConfig rationed ∧
      (Storage.read .plain (Disk.ofConfig rationed) Entropy.constant).2.toOption.map Prod.fst = some rationed := by
    decide +kernel
  obtain ⟨s, hs, hexec⟩ := Option.bind_eq_some_iff.1 hexec
  obtain ⟨t, ht, he⟩ := Option.map_eq_some_iff.1 hexec
  simp only [Prod.mk.injEq, decide_eq_true_eq] at he
  obtain ⟨⟨hstage, hheard, hflushed, hstored, hsaved⟩, ⟨hdelivered, hmore⟩, hread⟩ := he
  obtain ⟨e₁, hread₁⟩ := exists_of_fst hfirst.2
  obtain ⟨e₂, hread₂⟩ := exists_of_fst hread
  have hreads {disk : Disk} {c : ServerConfig} {e : Entropy}
      (h : (Storage.read .plain disk Entropy.constant).2 = .ok (c, e)) : Storage.read .plain disk Entropy.constant =
        ((Storage.read .plain disk Entropy.constant).1, .ok (c, e)) := Prod.ext rfl h
  have hvalid : Valid .plain afterFirstLife := valid_of_fixed (d := Draws.constant) .plain (by decide +kernel)
  have hlife : Life .plain ['a'] 100 (Disk.ofConfig rationed) rationed s :=
    ⟨rationed_kept, ⟨_, List.mem_singleton_self _, rfl, rfl⟩, _, _, _, served rationed, _, hreads hread₁,
      served_opened rationed_valid (by decide +kernel), hfirst.1.symm, LTS.run_of_exec hs⟩
  have hdisk := save_kept rationed_kept (Prod.mk.eta (p := save .plain (Disk.ofConfig rationed)
    (accounted rationed (addEvent ∅ (event .inbound 80))) Entropy.constant)).symm
  have hkept : Kept .plain s.disk.db := by
    rw [hsaved]
    exact hdisk.1
  have hlives : Lives .plain ['a'] 100 0 [s] s.disk :=
    .returned (.start ⟨_, rfl⟩ (by decide +kernel)) hlife
      ⟨hstage, hheard, hflushed, by rw [hsaved]; exact ⟨_, rfl⟩, hstored⟩
  have hopened := served_opened hvalid (by decide +kernel)
  have hnext : Life .plain ['a'] 100 s.disk afterFirstLife t :=
    ⟨hkept, ⟨_, List.mem_singleton_self _, rfl, rfl⟩, _, _, _, reopened s.disk, _, hreads hread₂,
      ⟨hopened.network, rfl, hvalid, hopened.fits, rfl, rfl, rfl, rfl⟩, rfl, LTS.run_of_exec ht⟩
  exact ⟨s, t, hstage, hdelivered, hmore, quota_over_lives hlives hnext (by decide)⟩

end OrangeFrp.App
