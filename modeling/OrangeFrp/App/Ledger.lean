import OrangeFrp.App.Site
import OrangeFrp.Controller.Meter
import OrangeFrp.Storage.WriteOrder

/-!
# The books of a serving process

What the serving process knows of traffic: the configuration in memory with its
counters, and the sums the accounting task has not stored yet. Events, flushes and
tunnels requests come in any order; other processes may write the directory in
between, and a save may fail.

* `Ledger.step_conserves`: every step keeps configuration and sums together at what
  has been received.
* `traffic_conserved`: nothing is lost or counted twice, in any order of events and
  wherever flushes fall.
-/
namespace OrangeFrp.App

open OrangeFrp.Core OrangeFrp.Storage OrangeFrp.Controller

/-! ## The system -/

/-- The serving process, the sums of its accounting task, and (a ghost) every event
the task has received. -/
structure Ledger (τ : Type) where
  server : Server τ
  pending : Pending
  received : List TrafficEvent

/-- `order` is what the flush finds in the map of the sums, which is gone through in any order;
`failedFlush` is a flush whose save fails for a reason outside the model; `write` is whatever
another process does to the directory. -/
inductive LedgerAct where
  | receive (event : TrafficEvent)
  | flush (order : Pending) (e : Entropy)
  | failedFlush
  | request (userIndex : Nat) (action : Action) (env : Env)
  | write (disk : Disk)

section
variable {τ : Type} [Double τ] (P : Primitives)

/-- A flush clears the sums when it has succeeded.
mirrors crates/frp-game-server/src/controller.rs:626-630 -/
def Ledger.flush (s : Ledger τ) (e : Entropy) : Ledger τ :=
  let t := flushPending P s.server.disk s.server.config s.pending e
  { s with
    server := { s.server with disk := t.1, config := t.2.1 }
    pending := if t.2.2.isOk then ∅ else s.pending }

def Ledger.step (s : Ledger τ) : LedgerAct → Option (Ledger τ)
  | .receive event =>
    some { s with pending := addEvent s.pending event, received := s.received ++ [event] }
  | .flush order e =>
    if SameSums order s.pending then some (Ledger.flush P { s with pending := order } e) else none
  | .failedFlush => some s
  | .request i action env => do
    let current ← s.server.config.users[i]?
    some { s with server := (tunnelsRequest P s.server i current action env).1 }
  | .write disk => some { s with server := { s.server with disk := disk } }

/-- The books of a process that has loaded `c`. -/
structure Ledger.Opened (c : ServerConfig) (s : Ledger τ) : Prop where
  config : s.server.config = c
  valid : Valid P c
  pending : s.pending = ∅
  received : s.received = []

def ledger (c : ServerConfig) : LTS (Ledger τ) LedgerAct := .ofFn (Ledger.Opened P c) (Ledger.step P)

end

/-! ## What a save hands back -/

section
variable {P : Primitives} {disk disk' : Disk} {c c' : ServerConfig} {e e' : Entropy}

theorem save_fits (h : save P disk c e = (disk', .ok (c', e'))) : ∀ u ∈ c'.users, CountersFit u := by
  obtain ⟨disk₁, e₁, hs⟩ := save_saved h
  exact (writeSnapshot_inv hs.written).1

/-- On normal fields a save changes nothing but names. -/
theorem save_sameNames (hs : checkSettings P c = .ok ()) (hu : ∀ u ∈ c.users, UserOk P c.apiSalt u)
    (ho : c.users.Pairwise fun u v => u.account ≤ v.account)
    (h : save P disk c e = (disk', .ok (c', e'))) : List.Forall₂ SameButNames c.users c'.users := by
  obtain ⟨disk₁, e₁, hsaved⟩ := save_saved h
  obtain ⟨c₁, hn, rfl⟩ := hsaved.normalized
  obtain ⟨-, -, hc₁⟩ := (normalize_clean_iff P hs hu e₁.uuids).1 hn
  have hcol := map_eq_of_sameButNames (·.account) (fun _ _ => rfl) (renameUsers_forall₂ c.users e₁.uuids)
  rw [sortUsers_self (sorted_of_accounts hcol ho)] at hc₁
  obtain rfl : c₁ = renamed c e₁.uuids := congrArg Prod.fst hc₁
  exact renameUsers_forall₂ c.users e₁.uuids

theorem accounted_sameNames {pending : Pending} (hv : Valid P c)
    (h : save P disk (accounted c pending) e = (disk', .ok (c', e'))) :
    List.Forall₂ SameButNames (accounted c pending).users c'.users :=
  save_sameNames hv.settings (accounted_userOk hv pending) (accounted_sorted hv pending) h

theorem candidate_sameNames {i : Nat} {pre post : List ServerUser} {a : ServerUser} {ts : List Tunnel}
    {now : Int} (hv : Valid P c) (hat : At c i pre a post) (ha : AcceptedFor c i a ts)
    (h : save P disk (candidate c i a ts now) e = (disk', .ok (c', e'))) :
    List.Forall₂ SameButNames (candidate c i a ts now).users c'.users :=
  save_sameNames (candidate_settings now hv) (candidate_userOk now hv hat ha)
    (sorted_of_accounts (candidate_column now hat (·.account) rfl) hv.sorted) h

theorem sameMeters_of_sameName {u v : ServerUser} (h : SameButNames u v) : SameMeters u v := by
  rw [h.1]
  exact ⟨rfl, fun m => by cases m <;> rfl⟩

end

/-! ## A request leaves the counters alone -/

theorem activate_meter (traffic : Assoc Str ProxyTrafficRecord) (t : Tunnel) (name : Str)
    (direction : Direction) :
    trafficMeter (activate traffic t) name direction = trafficMeter traffic name direction := by
  unfold trafficMeter activate
  rw [Assoc.lookup_alter]
  split
  · rename_i h
    subst h
    cases traffic.lookup t.proxyName <;> cases direction <;> rfl
  · rfl

theorem withTunnels_sameMeters (u : ServerUser) (ts : List Tunnel) (now : Int) :
    SameMeters u (withTunnels u ts now) := by
  refine ⟨rfl, fun m => ?_⟩
  cases m with
  | used => rfl
  | through name direction =>
    have hfold : ∀ traffic, trafficMeter (ts.foldl activate traffic) name direction =
        trafficMeter traffic name direction := by
      induction ts with
      | nil => exact fun _ => rfl
      | cons t ts ih =>
        intro traffic
        rw [List.foldl_cons, ih, activate_meter]
    refine (hfold _).trans ?_
    simp only [userMeter, trafficMeter, Assoc.lookup_mapVals]
    cases u.trafficByProxy.lookup name <;> cases direction <;> rfl

theorem sameMeters_refl (us : List ServerUser) : List.Forall₂ SameMeters us us := by
  induction us with
  | nil => exact .nil
  | cons u us ih => exact .cons ⟨rfl, fun _ => rfl⟩ ih

theorem sameMeters_trans {us vs ws : List ServerUser} (h : List.Forall₂ SameMeters us vs)
    (h' : List.Forall₂ SameMeters vs ws) : List.Forall₂ SameMeters us ws := by
  induction h generalizing ws with
  | nil => cases h'; exact .nil
  | cons huv _ ih =>
    cases h' with
    | cons hvw h' => exact .cons ⟨hvw.1.trans huv.1, fun m => (hvw.2 m).trans (huv.2 m)⟩ (ih h')

theorem sameMeters_of_sameNames {us vs : List ServerUser} (h : List.Forall₂ SameButNames us vs) :
    List.Forall₂ SameMeters us vs :=
  h.imp fun _ _ => sameMeters_of_sameName

theorem candidate_sameMeters {c : ServerConfig} {i : Nat} {pre post : List ServerUser} {a : ServerUser}
    (hat : At c i pre a post) (ts : List Tunnel) (now : Int) :
    List.Forall₂ SameMeters c.users (candidate c i a ts now).users := by
  rw [hat.users, hat.candidate_users]
  exact List.rel_append (sameMeters_refl pre) (.cons (withTunnels_sameMeters a ts now) (sameMeters_refl post))

/-- A configuration that takes the place of another with the same counters. -/
structure Replaces (P : Primitives) (c c' : ServerConfig) : Prop where
  valid : Valid P c'
  same : List.Forall₂ SameMeters c.users c'.users
  fits : (∀ u ∈ c.users, CountersFit u) → ∀ u ∈ c'.users, CountersFit u

theorem Replaces.refl {P : Primitives} {c : ServerConfig} (hv : Valid P c) : Replaces P c c :=
  ⟨hv, sameMeters_refl _, id⟩

section
variable {τ : Type} [Double τ] {P : Primitives} {s : Server τ}

omit [Double τ] in
/-- What a request has stored. -/
theorem StoredCandidate.replaces {i : Nat} {a : ServerUser} {env : Env} {ts : List Tunnel} {disk : Disk}
    {stored : ServerConfig} (h : StoredCandidate P s i a env ts disk stored) (hv : Valid P s.config)
    (hi : s.config.users[i]? = some a) : Replaces P s.config stored := by
  obtain ⟨pre, post, hat⟩ := exists_at hi
  obtain ⟨e', hsave⟩ := h.saved
  exact ⟨save_valid hsave, sameMeters_trans (candidate_sameMeters hat ts env.now)
    (sameMeters_of_sameNames (candidate_sameNames hv hat h.accepted hsave)), fun _ => save_fits hsave⟩

/-- What a rollback has stored. -/
theorem original_replaces {c original : ServerConfig} {revision : Int} {disk disk' : Disk}
    {e e' : Entropy} (hv : Valid P c)
    (hsave : save P disk { c with revision := revision } e = (disk', .ok (original, e'))) :
    Replaces P c original ∧ List.Forall₂ SameButNames c.users original.users := by
  have hv' := hv.withRevision revision
  have hnames : List.Forall₂ SameButNames c.users original.users :=
    save_sameNames (c := { c with revision := revision }) hv'.settings hv'.users hv'.sorted hsave
  exact ⟨⟨save_valid hsave, sameMeters_of_sameNames hnames, fun _ => save_fits hsave⟩, hnames⟩

/-- **A request** leaves a valid configuration in memory, with the counters it had. -/
theorem tunnelsRequest_memory (hv : Valid P s.config) {i : Nat} {a : ServerUser}
    (hi : s.config.users[i]? = some a) (action : Action) (env : Env) :
    Replaces P s.config (tunnelsRequest P s i a action env).1.config := by
  have hsame := Replaces.refl hv
  cases action with
  | list => exact hsame
  | unknown => exact hsame
  | save submitted =>
    rcases @saveTunnels_cases τ _ P s i a env submitted with
      h | ⟨ts, disk, error, -, -, h⟩ | ⟨ts, disk, stored, hst, h, -⟩ |
        ⟨ts, disk, stored, k, error, hst, -, -, h⟩ <;>
      simp only [tunnelsRequest, h]
    · exact hsame
    · exact hsame
    · exact hst.replaces hv hi
    · unfold rollback
      dsimp only
      split
      · rename_i disk' original e' hsave
        exact (original_replaces hv hsave).1
      · exact hsame

end

/-! ## Every step conserves traffic -/

section
variable {τ : Type} [Double τ] {P : Primitives} {c : ServerConfig} {s t : Ledger τ}

/-- Configuration and sums together are what was there and what was received. -/
structure Ledger.Conserves (P : Primitives) (c : ServerConfig) (s : Ledger τ) : Prop where
  valid : Valid P s.server.config
  ids : s.server.config.users.map (·.id) = c.users.map (·.id)
  balance : ∀ userId ∈ c.users.map (·.id), ∀ m,
    Counts (configMeter s.server.config userId m + pendingMeter s.pending userId m)
      (configMeter c userId m + meterOf s.received userId m)

omit [Double τ] in
/-- A flush that stores its candidate. -/
theorem Ledger.flush_stored (h : s.Conserves P c) {disk' : Disk} {stored : ServerConfig}
    {e e' : Entropy}
    (hsave : save P s.server.disk (accounted s.server.config s.pending) e = (disk', .ok (stored, e'))) :
    Ledger.Conserves P c
      { s with server := { s.server with disk := disk', config := stored }, pending := ∅ } := by
  have hnames := accounted_sameNames h.valid hsave
  have hmeters := sameMeters_of_sameNames hnames
  refine ⟨save_valid hsave, ?_, fun userId hid m => ?_⟩
  · show stored.users.map (·.id) = _
    rw [ids_of_sameMeters hmeters, accounted_column (·.id) (fun _ _ _ => rfl), h.ids]
  · show Counts (configMeter stored userId m + 0) _
    rw [configMeter_congr hmeters]
    exact (accounted_meter _ _ (by rw [h.ids]; exact hid) m).trans (h.balance userId hid m)

omit [Double τ] in
theorem Ledger.flush_conserves (h : s.Conserves P c) (e : Entropy) : (s.flush P e).Conserves P c := by
  unfold Ledger.flush
  rcases flushPending_cases (P := P) s.server.disk s.server.config s.pending e with
    ⟨hp, hf⟩ | ⟨disk', error, -, hf⟩ | ⟨disk', stored, e', -, hsave, hf⟩ <;> rw [hf]
  · have hempty : s.pending = ∅ := AList.ext hp
    have hbal := h.balance
    rw [hempty] at hbal
    exact ⟨h.valid, h.ids, hbal⟩
  · exact ⟨h.valid, h.ids, h.balance⟩
  · exact Ledger.flush_stored h hsave

omit [Double τ] in
theorem Ledger.receive_conserves (h : s.Conserves P c) (event : TrafficEvent) : Ledger.Conserves P c
    { s with pending := addEvent s.pending event, received := s.received ++ [event] } := by
  refine ⟨h.valid, h.ids, fun userId hid m => ?_⟩
  have hbal := h.balance userId hid m
  have hadd := addEvent_meter s.pending event userId m
  simp only [meterOf_append]
  unfold Counts at *
  omega

omit [Double τ] in
/-- The order of the sums does not matter. -/
theorem Ledger.reordered_conserves (h : s.Conserves P c) {order : Pending} (ho : SameSums order s.pending) :
    Ledger.Conserves P c { s with pending := order } := by
  refine ⟨h.valid, h.ids, fun userId hid m => ?_⟩
  rw [show pendingMeter order userId m = pendingMeter s.pending userId m from pendingMeter_sameSums ho userId m]
  exact h.balance userId hid m

/-- **Every step** conserves traffic. -/
theorem Ledger.step_conserves {l : LedgerAct} (h : s.Conserves P c) (hst : s.step P l = some t) :
    t.Conserves P c := by
  cases l with
  | receive event => cases hst; exact Ledger.receive_conserves h event
  | flush order e =>
    simp only [Ledger.step] at hst
    split at hst
    · rename_i ho
      cases hst
      exact Ledger.flush_conserves (Ledger.reordered_conserves h ho) e
    · cases hst
  | failedFlush => cases hst; exact h
  | request i action env =>
    obtain ⟨a, hi, hst⟩ := Option.bind_eq_some_iff.1 hst
    cases hst
    obtain ⟨hv, hmeters, -⟩ := tunnelsRequest_memory h.valid hi action env
    refine ⟨hv, (ids_of_sameMeters hmeters).trans h.ids, fun userId hid m => ?_⟩
    rw [configMeter_congr hmeters]
    exact h.balance userId hid m
  | write disk => cases hst; exact ⟨h.valid, h.ids, h.balance⟩

theorem ledger_inductive :
    (ledger P c : LTS (Ledger τ) LedgerAct).Inductive (Ledger.Conserves P c) where
  init s h := by
    refine ⟨by rw [h.config]; exact h.valid, by rw [h.config], fun userId hid m => ?_⟩
    rw [h.config, h.pending, h.received]
    exact .refl _
  step _ _ _ h hst := Ledger.step_conserves h hst

/-- **Traffic is conserved**: at every moment configuration and sums together are the
first configuration and what was received; a failed flush changes neither; and two runs
that have received the same events in different orders agree, wherever their flushes fell. -/
theorem traffic_conserved (h : (ledger P c).Reachable s) :
    (∀ userId ∈ c.users.map (·.id), ∀ m,
      configMeter c userId m + meterOf s.received userId m ≤ U64_MAX →
        configMeter s.server.config userId m + pendingMeter s.pending userId m =
          configMeter c userId m + meterOf s.received userId m) ∧
    (∀ e error, (flushPending P s.server.disk s.server.config s.pending e).2.2 = .error error →
      (s.flush P e).server.config = s.server.config ∧ (s.flush P e).pending = s.pending) ∧
    ∀ t : Ledger τ, (ledger P c).Reachable t → t.received.Perm s.received →
      ∀ userId ∈ c.users.map (·.id), ∀ m,
        configMeter c userId m + meterOf s.received userId m ≤ U64_MAX →
          configMeter t.server.config userId m + pendingMeter t.pending userId m =
            configMeter s.server.config userId m + pendingMeter s.pending userId m := by
  have hs := ledger_inductive.reachable s h
  refine ⟨fun userId hid m hfit => (hs.balance userId hid m).exact hfit, fun e error he => ?_,
    fun t ht hperm userId hid m hfit => ?_⟩
  · unfold Ledger.flush
    rcases flushPending_cases (P := P) s.server.disk s.server.config s.pending e with
      ⟨-, hf⟩ | ⟨disk', error, -, hf⟩ | ⟨disk', stored, e', -, -, hf⟩ <;> rw [hf] at he ⊢
    · cases he
    · exact ⟨rfl, rfl⟩
    · cases he
  · rw [(hs.balance userId hid m).exact hfit, ← meterOf_perm hperm userId m]
    exact ((ledger_inductive.reachable t ht).balance userId hid m).exact
      (by rw [meterOf_perm hperm]; exact hfit)

end

/-! ## Three events and two flushes -/

def event (direction : Direction) (bytes : Nat) : TrafficEvent :=
  ⟨['a'], fgPrefix ++ ['x'], tcp, 5, direction, bytes⟩

def someTraffic : List LedgerAct := [.receive (event .inbound 10), .receive (event .outbound 7),
  .flush (drainEvents [event .inbound 10, event .outbound 7] ∅) Entropy.constant, .receive (event .inbound 5),
  .failedFlush]

theorem someTraffic_conserved : ∃ s : Ledger Rat,
    s.received = [event .inbound 10, event .outbound 7, event .inbound 5] ∧
    pendingMeter s.pending ['a'] .used = 5 ∧
    configMeter s.server.config ['a'] .used + pendingMeter s.pending ['a'] .used = 22 := by
  have hexec : (LTS.exec (Ledger.step Primitives.plain)
      (⟨⟨Disk.ofConfig oneTunnel, oneTunnel, none⟩, ∅, []⟩ : Ledger Rat) someTraffic).map
        (fun s => (s.received, pendingMeter s.pending ['a'] .used)) =
      some ([event .inbound 10, event .outbound 7, event .inbound 5], 5) := by decide +kernel
  obtain ⟨s, hs, he⟩ := Option.map_eq_some_iff.1 hexec
  obtain ⟨hreceived, hpending⟩ := Prod.ext_iff.1 he
  have hreach : (ledger Primitives.plain oneTunnel).Reachable s :=
    ⟨_, someTraffic, ⟨rfl, valid_of_fixed (d := Draws.constant) .plain (by decide +kernel), rfl, rfl⟩,
      LTS.run_of_exec hs⟩
  refine ⟨s, hreceived, hpending,
    ((traffic_conserved hreach).1 ['a'] (by decide +kernel) .used ?_).trans ?_⟩ <;>
    rw [show s.received = _ from hreceived] <;> decide +kernel

end OrangeFrp.App
