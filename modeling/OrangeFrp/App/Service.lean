import OrangeFrp.App.Ledger
import OrangeFrp.Controller.Channel

/-!
# A serving process as a whole (`frp-game-server/src/app.rs`, `command_serve`)

The network with its sessions, the accounting task at the other end of their channel,
the request that holds the write lock of the configuration, the directory that other
processes write as well, and the shutdown. A step is what one of them does between two
of its awaits, so the runs are all interleavings.

Behind the write lock a request stores its list, brings the listeners up to date, and
gives the new configuration to the others when it is done; a flush needs the lock. The
future of a request is dropped when its client goes away.

* `Service.step_sound`: every step keeps the bytes of the sessions balanced, the gates
  at what was reserved, and the configuration with the sums at what was received.
* `usage_agrees`: the counters of a user after all its sessions have ended.
-/
namespace OrangeFrp.App

open OrangeFrp.Core OrangeFrp.Storage OrangeFrp.Controller

/-! ## The system -/

/-- What holds the write lock, and until when: `opening` is the first `reconcile` of
`serve`, which no lock guards yet. -/
inductive Handling where
  | opening
  | idle
  | storing (stored : ServerConfig)
  | failed (stored : ServerConfig)
  | restoring (original : ServerConfig)

/-- Where the accounting task is: `flushing` and `closing` wait for the write lock.
mirrors crates/frp-game-server/src/controller.rs:614-632 -/
inductive Accounting where
  | unspawned
  | waiting
  | flushing
  | closing
  | finished
  deriving DecidableEq

/-- Where `serve` is: `cancelled` before the listeners are stopped, `stopping` while they
are awaited, `joined` while the accounting task is.
mirrors crates/frp-game-server/src/app.rs:2184-2203 -/
inductive Stage where
  | failed
  | serving
  | cancelled
  | stopping
  | joined
  | returned
  deriving DecidableEq

/-- `taken` of the network is what the accounting task has received. -/
structure Service (τ : Type) where
  network : Network τ
  disk : Disk
  config : ServerConfig
  pending : Pending
  handling : Handling
  accounting : Accounting
  stage : Stage

/-- `peers` are the steps of listeners and sessions; `failedFlush` and `failedLastFlush`
fail for a reason outside the model; `write` is another process. -/
inductive ServiceAct where
  | peers (act : NetworkAct)
  | receive
  | tick
  | flush (e : Entropy)
  | failedFlush
  | lastDrain
  | lastFlush (e : Entropy)
  | failedLastFlush
  | request (userIndex : Nat) (submitted : Option (List Tunnel)) (env : Env)
  | reconcile (act : ReconcileAct)
  | restore (e : Entropy)
  | drop
  | write (disk : Disk)
  | signal
  | stop
  | joined
  | ret

section
variable {τ : Type} [Double τ] (P : Primitives)

omit [Double τ] in
/-- The books of the process. -/
def Service.ledger (s : Service τ) : Ledger τ := ⟨⟨s.disk, s.config, none⟩, s.pending, s.network.taken⟩

omit [Double τ] in
/-- mirrors crates/frp-game-server/src/controller.rs:636-643 -/
def Service.drain (s : Service τ) : Service τ :=
  { s with
    network := { s.network with queue := [], taken := s.network.taken ++ s.network.queue }
    pending := drainEvents s.network.queue s.pending }

omit [Double τ] in
/-- A flush gets the lock, or returns before it asks for it: `flush_pending` does so when there
are no sums.
mirrors crates/frp-game-server/src/controller.rs:663-671 -/
def Service.canFlush (s : Service τ) : Bool :=
  match s.handling, s.pending.entries with
  | .opening, _ => false
  | .idle, _ => true
  | _, [] => true
  | _, _ => false

omit [Double τ] in
/-- A flush that goes on. -/
def Service.flush (s : Service τ) (e : Entropy) : Service τ :=
  let books := s.ledger.flush P e
  { s with disk := books.server.disk, config := books.server.config, pending := books.pending }

/-- A tunnels request up to its first `reconcile`.
mirrors crates/frp-game-server/src/app.rs:1783-1846 -/
def Service.request (s : Service τ) (userIndex : Nat) (submitted : Option (List Tunnel)) (env : Env) :
    Option (Service τ) := do
  let current ← s.config.users[userIndex]?
  match saveTunnels P (⟨s.disk, s.config, none⟩ : Server τ) userIndex current submitted env with
  | (server, .ok _ _ _) =>
    let network ← s.network.reconcile (.call server.config)
    some { s with disk := server.disk, network := network, handling := .storing server.config }
  | (server, .failed _ _) => some { s with disk := server.disk }

omit [Double τ] in
/-- What follows a `reconcile` that has returned. Without a first one there is no `serve`.
mirrors crates/frp-game-server/src/app.rs:2086-2094,1846-1864 -/
def Service.reconciled (s : Service τ) (ok : Bool) : Service τ :=
  match s.handling with
  | .opening =>
    if ok then { s with handling := .idle, accounting := .waiting } else { s with stage := .failed }
  | .storing stored =>
    if ok then { s with config := stored, handling := .idle } else { s with handling := .failed stored }
  | .restoring original => { s with config := original, handling := .idle }
  | _ => s

/-- A step of the `reconcile` that is running. -/
def Service.reconcile (s : Service τ) (act : ReconcileAct) : Option (Service τ) := do
  let network ← s.network.reconcile act
  let t := { s with network := network }
  match act, network.reconciling with
  | .call _, _ => none
  | .finish, _ => some (t.reconciled true)
  | _, .idle => some (t.reconciled false)
  | _, _ => some t

/-- The rollback of a request, up to its second `reconcile`.
mirrors crates/frp-game-server/src/app.rs:1847-1853 -/
def Service.restore (s : Service τ) (e : Entropy) : Option (Service τ) :=
  match s.handling with
  | .failed stored =>
    match save P s.disk { s.config with revision := stored.revision } e with
    | (disk, .ok (original, _)) => do
      let network ← s.network.reconcile (.call original)
      some { s with disk := disk, network := network, handling := .restoring original }
    | (disk, .error _) => some { s with disk := disk, handling := .idle }
  | _ => none

/-- mirrors crates/frp-game-server/src/app.rs:2084-2203 and
crates/frp-game-server/src/controller.rs:608-634 -/
def Service.step (s : Service τ) (l : ServiceAct) : Option (Service τ) :=
  if s.stage = .failed ∨ s.stage = .returned then none else
  match l with
  | .peers act =>
    if act.ofPeers then (s.network.step act).map fun network => { s with network := network } else none
  | .receive =>
    match s.accounting, s.network.queue with
    | .waiting, event :: rest => some { s with
        network := { s.network with queue := rest, taken := s.network.taken ++ [event] }
        pending := addEvent s.pending event }
    | _, _ => none
  | .tick => if s.accounting = .waiting then some { s.drain with accounting := .flushing } else none
  | .flush e =>
    if s.accounting = .flushing ∧ s.canFlush then some { s.flush P e with accounting := .waiting } else none
  | .failedFlush =>
    match s.accounting, s.handling with
    | .flushing, .idle => some { s with accounting := .waiting }
    | _, _ => none
  | .lastDrain =>
    if s.accounting = .waiting ∧ s.stage ≠ .serving then some { s.drain with accounting := .closing }
    else none
  | .lastFlush e =>
    if s.accounting = .closing ∧ s.canFlush then
      let t := s.flush P e
      some { t with network := { t.network with receiving := false }, accounting := .finished }
    else none
  | .failedLastFlush =>
    match s.accounting, s.handling with
    | .closing, .idle =>
      some { s with network := { s.network with receiving := false }, accounting := .finished }
    | _, _ => none
  | .request userIndex submitted env =>
    match s.handling with
    | .idle => s.request P userIndex submitted env
    | _ => none
  | .reconcile act => s.reconcile act
  | .restore e => s.restore P e
  | .drop =>
    match s.handling with
    | .storing _ | .restoring _ =>
      some { s with network := { s.network with reconciling := .idle }, handling := .idle }
    | _ => none
  | .write disk => some { s with disk := disk }
  | .signal =>
    match s.stage, s.handling with
    | .serving, .opening => none
    | .serving, _ => some { s with stage := .cancelled }
    | _, _ => none
  | .stop =>
    if s.stage = .cancelled then
      (s.network.step .shutdown).map fun network => { s with network := network, stage := .stopping }
    else none
  | .joined =>
    if s.stage = .stopping ∧
        ∀ t ∈ s.network.listeners, s.network.controller.tasks.lookup t.spec.proxyName = some t then
      some { s with stage := .joined }
    else none
  | .ret => if s.stage = .joined ∧ s.accounting = .finished then some { s with stage := .returned } else none

/-- `serve` has read `c` and made its controller. The counters are those of SQLite. -/
structure Service.Opened (c : ServerConfig) (s : Service τ) : Prop where
  network : ∃ now, (Network.open c now : Network τ).reconcile (.call c) = some s.network
  config : s.config = c
  valid : Valid P c
  fits : ∀ u ∈ c.users, CountersFit u
  pending : s.pending = ∅
  handling : s.handling = .opening
  accounting : s.accounting = .unspawned
  stage : s.stage = .serving

def service (c : ServerConfig) : LTS (Service τ) ServiceAct :=
  .ofFn (Service.Opened P c) (Service.step P)

end

/-! ## What a step can do -/

section
variable {τ : Type} [Double τ]

/-- The outcomes of the steps, with what each was allowed by. -/
inductive Service.Steps (P : Primitives) (s : Service τ) : ServiceAct → Service τ → Prop
  | peers {act : NetworkAct} {n : Network τ} : act.ofPeers = true → s.network.step act = some n →
      Steps P s (.peers act) { s with network := n }
  | receive {event : TrafficEvent} {rest : List TrafficEvent} : s.accounting = .waiting →
      s.network.queue = event :: rest → Steps P s .receive { s with
        network := { s.network with queue := rest, taken := s.network.taken ++ [event] }
        pending := addEvent s.pending event }
  | tick : s.accounting = .waiting → Steps P s .tick { s.drain with accounting := .flushing }
  | flush {e : Entropy} : s.accounting = .flushing → s.canFlush = true →
      Steps P s (.flush e) { s.flush P e with accounting := .waiting }
  | failedFlush : s.accounting = .flushing → Steps P s .failedFlush { s with accounting := .waiting }
  | lastDrain : s.accounting = .waiting → Steps P s .lastDrain { s.drain with accounting := .closing }
  | lastFlush {e : Entropy} : s.accounting = .closing → s.canFlush = true →
      Steps P s (.lastFlush e) { s.flush P e with
        network := { s.network with receiving := false }, accounting := .finished }
  | failedLastFlush : s.accounting = .closing → s.handling = .idle → Steps P s .failedLastFlush
      { s with network := { s.network with receiving := false }, accounting := .finished }
  | refused {i : Nat} {submitted : Option (List Tunnel)} {env : Env} {disk : Disk} :
      Unsaved P s.disk disk → Steps P s (.request i submitted env) { s with disk := disk }
  | stored {i : Nat} {submitted ts : List Tunnel} {env : Env} {a : ServerUser} {d : Draws} {disk : Disk}
      {stored : ServerConfig} {e : Entropy} {n : Network τ} : s.config.users[i]? = some a →
      normalizeUserTunnels s.config i a submitted env.draws = .ok (ts, d) →
      save P s.disk (candidate s.config i a ts env.now) env.first = (disk, .ok (stored, e)) →
      s.network.reconcile (.call stored) = some n → Steps P s (.request i (some submitted) env)
        { s with disk := disk, network := n, handling := .storing stored }
  | reconciling {act : ReconcileAct} {n : Network τ} : (∀ c, act ≠ .call c) →
      s.network.reconcile act = some n → Steps P s (.reconcile act) { s with network := n }
  | reconciled {act : ReconcileAct} {n : Network τ} {ok : Bool} : (∀ c, act ≠ .call c) →
      s.network.reconcile act = some n →
      Steps P s (.reconcile act) (Service.reconciled { s with network := n } ok)
  | restored {e e' : Entropy} {failed original : ServerConfig} {disk : Disk} {n : Network τ} :
      s.handling = .failed failed →
      save P s.disk { s.config with revision := failed.revision } e = (disk, .ok (original, e')) →
      s.network.reconcile (.call original) = some n →
      Steps P s (.restore e) { s with disk := disk, network := n, handling := .restoring original }
  | stuck {e : Entropy} {disk : Disk} : Unsaved P s.disk disk →
      Steps P s (.restore e) { s with disk := disk, handling := .idle }
  | drop : Steps P s .drop
      { s with network := { s.network with reconciling := .idle }, handling := .idle }
  | write {disk : Disk} : Steps P s (.write disk) { s with disk := disk }
  | signal : Steps P s .signal { s with stage := .cancelled }
  | stop {n : Network τ} : s.network.step .shutdown = some n →
      Steps P s .stop { s with network := n, stage := .stopping }
  | joined : Steps P s .joined { s with stage := .joined }
  | ret : s.accounting = .finished → Steps P s .ret { s with stage := .returned }

variable {P : Primitives} {s t : Service τ}

omit [Double τ] in
theorem Service.canFlush_cases (h : s.canFlush = true) :
    s.handling ≠ .opening ∧ (s.handling = .idle ∨ s.pending.entries = []) := by
  unfold Service.canFlush at h
  split at h
  · cases h
  · rename_i hi
    exact ⟨by rw [hi]; exact Handling.noConfusion, .inl hi⟩
  · rename_i hp hopening _
    exact ⟨hopening, .inr hp⟩
  · cases h

omit [Double τ] in
/-- Without sums a flush changes nothing. -/
theorem Service.flush_empty (h : s.pending.entries = []) (e : Entropy) : s.flush P e = s := by
  have hf : flushPending P s.disk s.config s.pending e = (s.disk, s.config, .ok ()) := if_pos h
  have hp : s.pending = ∅ := AList.ext h
  unfold Service.flush Ledger.flush
  simp only [Service.ledger, hf]
  rw [← hp, ite_self]

/-- A request before its first `reconcile`: nothing is stored, or its list is. -/
theorem Service.request_steps {i : Nat} {submitted : Option (List Tunnel)} {env : Env}
    (h : s.request P i submitted env = some t) : Service.Steps P s (.request i submitted env) t := by
  obtain ⟨a, hi, h⟩ := Option.bind_eq_some_iff.1 h
  unfold saveTunnels at h
  split at h
  · rename_i hanswer
    split at hanswer
    · cases hanswer
    split at hanswer
    · cases hanswer
    split at hanswer
    · cases hanswer
    rename_i ts d hn
    split at hanswer
    · cases hanswer
    rename_i disk stored e hsave
    cases hanswer
    obtain ⟨n, hcall, ht⟩ := Option.bind_eq_some_iff.1 h
    cases ht
    exact .stored hi hn hsave hcall
  · rename_i hanswer
    cases h
    split at hanswer
    · cases hanswer; exact .refused (.inl rfl)
    split at hanswer
    · cases hanswer; exact .refused (.inl rfl)
    split at hanswer
    · cases hanswer; exact .refused (.inl rfl)
    split at hanswer
    · rename_i disk error hsave
      cases hanswer
      exact .refused (.inr ⟨_, _, _, hsave⟩)
    · cases hanswer

theorem Service.reconcile_steps {act : ReconcileAct} (h : s.reconcile act = some t) :
    Service.Steps P s (.reconcile act) t := by
  obtain ⟨n, hn, h⟩ := Option.bind_eq_some_iff.1 h
  have hcall : (∀ c, act ≠ .call c) := by
    intro c heq
    obtain rfl := heq
    cases h
  split at h
  · cases h
  · cases h; exact .reconciled hcall hn
  · cases h; exact .reconciled hcall hn
  · cases h; exact .reconciling hcall hn

theorem Service.restore_steps {e : Entropy} (h : s.restore P e = some t) :
    Service.Steps P s (.restore e) t := by
  unfold Service.restore at h
  split at h
  · rename_i failed hfailed
    split at h
    · rename_i disk original e' hsave
      obtain ⟨n, hcall, h⟩ := Option.bind_eq_some_iff.1 h
      cases h
      exact .restored hfailed hsave hcall
    · rename_i disk error hsave
      cases h
      exact .stuck (.inr ⟨_, _, _, hsave⟩)
  · cases h

theorem Service.step_steps {l : ServiceAct} (h : s.step P l = some t) : Service.Steps P s l t := by
  unfold Service.step at h
  split at h
  · cases h
  cases l with
  | peers act =>
    simp only at h
    split at h
    · rename_i hact
      obtain ⟨n, hn, rfl⟩ := Option.map_eq_some_iff.1 h
      exact .peers hact hn
    · cases h
  | receive =>
    simp only at h
    split at h
    · rename_i hw hq
      cases h; exact .receive hw hq
    · cases h
  | tick =>
    simp only at h
    split at h
    · rename_i hw
      cases h; exact .tick hw
    · cases h
  | flush e =>
    simp only at h
    split at h
    · rename_i hf
      cases h; exact .flush hf.1 hf.2
    · cases h
  | failedFlush =>
    simp only at h
    split at h
    · rename_i hf hi
      cases h; exact .failedFlush hf
    · cases h
  | lastDrain =>
    simp only at h
    split at h
    · rename_i hw
      cases h; exact .lastDrain hw.1
    · cases h
  | lastFlush e =>
    simp only at h
    split at h
    · rename_i hc
      cases h; exact .lastFlush hc.1 hc.2
    · cases h
  | failedLastFlush =>
    simp only at h
    split at h
    · rename_i hc hi
      cases h; exact .failedLastFlush hc hi
    · cases h
  | request i submitted env =>
    simp only at h
    split at h
    · exact Service.request_steps h
    · cases h
  | reconcile act => exact Service.reconcile_steps h
  | restore e => exact Service.restore_steps h
  | drop =>
    simp only at h
    split at h
    · cases h; exact .drop
    · cases h; exact .drop
    · cases h
  | write disk => cases h; exact .write
  | signal =>
    simp only at h
    split at h
    · cases h
    · cases h; exact .signal
    · cases h
  | stop =>
    simp only at h
    split at h
    · obtain ⟨n, hn, rfl⟩ := Option.map_eq_some_iff.1 h
      exact .stop hn
    · cases h
  | joined =>
    simp only at h
    split at h
    · cases h; exact .joined
    · cases h
  | ret =>
    simp only at h
    split at h
    · rename_i hr
      cases h; exact .ret hr.2
    · cases h

end

/-! ## What every step keeps -/

/-- The configuration a request is about to give to the others can take the place of
the one in memory. -/
def Handling.Offers (P : Primitives) (c : ServerConfig) : Handling → Prop
  | .storing k | .restoring k => Replaces P c k
  | _ => True

/-- The books are right, and the network is sound. -/
structure Service.Sound {τ : Type} (P : Primitives) (c : ServerConfig) (s : Service τ) : Prop where
  conserves : s.ledger.Conserves P c
  fits : ∀ u ∈ s.config.users, CountersFit u
  offers : s.handling.Offers P s.config
  receiving : s.accounting ≠ .finished ∨ s.handling = .opening → s.network.receiving = true
  network : s.network.Sound c

section
variable {τ : Type} [Double τ] {P : Primitives} {c : ServerConfig} {s t : Service τ}

omit [Double τ] in
theorem Ledger.drain_conserves {l : Ledger τ} (h : l.Conserves P c) (events : List TrafficEvent) :
    Ledger.Conserves P c
      { l with pending := drainEvents events l.pending, received := l.received ++ events } := by
  induction events generalizing l with
  | nil =>
    rw [List.append_nil]
    exact h
  | cons event events ih =>
    have := ih (Ledger.receive_conserves h event)
    rw [List.append_assoc, List.singleton_append] at this
    exact this

omit [Double τ] in
/-- Another configuration with the same counters. -/
theorem Service.Sound.replaced (h : s.Sound P c) {config : ServerConfig}
    (hr : Replaces P s.config config) :
    Ledger.Conserves P c ({ s with config := config } : Service τ).ledger ∧
      ∀ u ∈ config.users, CountersFit u := by
  refine ⟨⟨hr.valid, (ids_of_sameMeters hr.same).trans h.conserves.ids, fun userId hid m => ?_⟩,
    hr.fits h.fits⟩
  show Counts (configMeter config userId m + _) _
  rw [configMeter_congr hr.same]
  exact h.conserves.balance userId hid m

omit [Double τ] in
theorem Replaces.keeps {k k' : ServerConfig} (hr : Replaces P k k')
    (hids : k.users.map (·.id) = c.users.map (·.id)) :
    ∀ u ∈ c.users, (NetworkAct.reconcile (.call k')).Keeps u.id none := by
  intro u hu
  refine ⟨?_, fun _ hl => by cases hl⟩
  rw [ids_of_sameMeters hr.same, hids]
  exact List.mem_map_of_mem hu

theorem Network.reconcile_keeps {act : ReconcileAct} (h : ∀ k, act ≠ .call k) (userId : Str) :
    (NetworkAct.reconcile act).Keeps userId none := by
  cases act with
  | call k => exact absurd rfl (h k)
  | _ => trivial

omit [Double τ] in
theorem Service.drain_regrouped (h : s.Sound P c) (hw : s.accounting = .waiting) :
    Regrouped s.network s.drain.network where
  same := ⟨[], _, s.network.reconciling, rfl⟩
  moved := List.append_nil _
  receiving := .inl (h.receiving (.inl (by rw [hw]; exact Accounting.noConfusion)))

omit [Double τ] in
/-- What a flush leaves in memory. -/
theorem Service.Sound.flushed (h : s.Sound P c) (e : Entropy) :
    (s.flush P e).ledger.Conserves P c ∧ ∀ u ∈ (s.flush P e).config.users, CountersFit u := by
  refine ⟨Ledger.flush_conserves h.conserves e, ?_⟩
  unfold Service.flush Ledger.flush
  rcases flushPending_cases (P := P) s.disk s.config s.pending e with
    ⟨-, hf⟩ | ⟨disk, error, -, hf⟩ | ⟨disk, stored, e', -, hsave, hf⟩ <;>
    simp only [Service.ledger, hf]
  · exact h.fits
  · exact h.fits
  · exact save_fits hsave

omit [Double τ] in
/-- Neither the books nor the network change. -/
theorem Service.Sound.set (h : s.Sound P c) {disk : Disk} {handling : Handling} {accounting : Accounting}
    {stage : Stage} (ho : handling.Offers P s.config)
    (hr : accounting ≠ .finished ∨ handling = .opening → s.network.receiving = true) : Service.Sound P c
      { s with disk := disk, handling := handling, accounting := accounting, stage := stage } :=
  ⟨⟨h.conserves.valid, h.conserves.ids, h.conserves.balance⟩, h.fits, ho, hr, h.network⟩

omit [Double τ] in
/-- The accounting task goes on. -/
theorem Service.Sound.open (h : s.Sound P c) {b : Accounting} (hb : b ≠ .finished)
    (ha : s.accounting = b) : s.network.receiving = true :=
  h.receiving (.inl (by rw [ha]; exact hb))

omit [Double τ] in
/-- The handling is another one. -/
theorem Service.Sound.later (h : s.Sound P c) {handling : Handling} (hne : handling ≠ .opening) :
    s.accounting ≠ .finished ∨ handling = .opening → s.network.receiving = true :=
  fun hr => h.receiving (.inl (hr.resolve_right hne))

theorem Service.Sound.moved (h : s.Sound P c) {act : NetworkAct} {n : Network τ}
    (hst : s.network.step act = some n) (ha : act.sends = true)
    (hk : ∀ u ∈ c.users, act.Keeps u.id none) : Service.Sound P c { s with network := n } := by
  obtain ⟨hreceiving, htaken, -⟩ := Network.step_channel ha hst
  refine ⟨?_, h.fits, h.offers, fun hne => hreceiving.trans (h.receiving hne), h.network.step ha hk hst⟩
  have hcons := h.conserves
  rw [Service.ledger, ← htaken] at hcons
  exact hcons

theorem Service.Sound.movedBy (h : s.Sound P c) {act : ReconcileAct} {n : Network τ}
    (hst : s.network.reconcile act = some n)
    (hk : ∀ u ∈ c.users, (NetworkAct.reconcile act).Keeps u.id none) :
    Service.Sound P c { s with network := n } :=
  h.moved (show s.network.step (.reconcile act) = some n from hst) rfl hk

omit [Double τ] in
theorem Service.Sound.drained (h : s.Sound P c) (hw : s.accounting = .waiting) : s.drain.Sound P c :=
  ⟨Ledger.drain_conserves h.conserves s.network.queue, h.fits, h.offers, h.receiving,
    h.network.regrouped (Service.drain_regrouped h hw)⟩

omit [Double τ] in
theorem Service.Sound.stored (h : s.Sound P c) {config : ServerConfig} (hr : Replaces P s.config config) :
    Service.Sound P c { s with config := config, handling := .idle } := by
  obtain ⟨hcons, hfits⟩ := h.replaced hr
  exact ⟨hcons, hfits, trivial, h.later Handling.noConfusion, h.network⟩

omit [Double τ] in
theorem Service.Sound.flush (h : s.Sound P c) (hf : s.canFlush = true) (e : Entropy) :
    (s.flush P e).Sound P c := by
  obtain ⟨-, hi | hp⟩ := Service.canFlush_cases hf
  case inr =>
    rw [Service.flush_empty hp]
    exact h
  obtain ⟨hcons, hfits⟩ := h.flushed e
  refine ⟨hcons, hfits, ?_, h.receiving, h.network⟩
  show Handling.Offers P _ s.handling
  rw [hi]
  trivial

omit [Double τ] in
theorem Service.Sound.closed (h : s.Sound P c) (ho : s.handling ≠ .opening) : Service.Sound P c
    { s with network := { s.network with receiving := false }, accounting := .finished } := by
  refine ⟨h.conserves, h.fits, h.offers, fun hne => ?_, h.network.closed⟩
  rcases hne with hne | hopening
  · exact absurd rfl hne
  · exact absurd hopening ho

omit [Double τ] in
theorem Service.Sound.reconciled (h : s.Sound P c) (ok : Bool) : (s.reconciled ok).Sound P c := by
  have ho := h.offers
  unfold Service.reconciled
  split
  · rename_i hopening
    have hr := h.receiving (.inr hopening)
    split
    · exact h.set trivial fun _ => hr
    · exact h.set ho fun _ => hr
  · rename_i stored hs
    rw [hs] at ho
    split
    · exact h.stored ho
    · exact h.set trivial (h.later Handling.noConfusion)
  · rename_i original hs
    rw [hs] at ho
    exact h.stored ho
  · exact h

/-- **Every step** keeps the process sound. -/
theorem Service.step_sound {l : ServiceAct} (h : s.Sound P c) (hst : s.step P l = some t) :
    t.Sound P c := by
  cases Service.step_steps hst with
  | peers hact hn =>
    rename_i act n
    refine h.moved hn (NetworkAct.sends_of_peers hact) fun u _ => ?_
    cases act <;> trivial
  | receive hw hq =>
    rename_i event rest
    have hr := h.open Accounting.noConfusion hw
    refine ⟨Ledger.receive_conserves h.conserves event, h.fits, h.offers, fun _ => hr,
      h.network.regrouped ⟨⟨rest, _, s.network.reconciling, rfl⟩, ?_, .inl hr⟩⟩
    show s.network.taken ++ [event] ++ rest = _
    rw [hq, List.append_assoc, List.singleton_append]
  | tick hw => exact (h.drained hw).set h.offers fun _ => h.open Accounting.noConfusion hw
  | lastDrain hw => exact (h.drained hw).set h.offers fun _ => h.open Accounting.noConfusion hw
  | flush hf hi =>
    have hs := h.flush hi ‹Entropy›
    exact hs.set hs.offers fun _ => h.open Accounting.noConfusion hf
  | failedFlush hf => exact h.set h.offers fun _ => h.open Accounting.noConfusion hf
  | lastFlush hc hi => exact (h.flush hi _).closed (Service.canFlush_cases hi).1
  | failedLastFlush hc hi => exact h.closed (by rw [hi]; exact Handling.noConfusion)
  | refused hu => exact h.set h.offers h.receiving
  | stored hi hn hsave hcall =>
    have hst : StoredCandidate P (⟨s.disk, s.config, none⟩ : Server τ) _ _ _ _ _ _ :=
      ⟨normalizeUserTunnels_ok hn, _, hsave⟩
    have hr := hst.replaces h.conserves.valid hi
    have hmoved := h.movedBy hcall (hr.keeps h.conserves.ids)
    exact hmoved.set hr (hmoved.later Handling.noConfusion)
  | reconciling hact hn =>
    exact h.movedBy hn fun u _ => Network.reconcile_keeps hact u.id
  | reconciled hact hn =>
    exact (h.movedBy hn fun u _ => Network.reconcile_keeps hact u.id).reconciled _
  | restored hf hsave hcall =>
    obtain ⟨hr, -⟩ := original_replaces h.conserves.valid hsave
    have hmoved := h.movedBy hcall (hr.keeps h.conserves.ids)
    exact hmoved.set hr (hmoved.later Handling.noConfusion)
  | stuck hu => exact h.set trivial (h.later Handling.noConfusion)
  | drop =>
    exact ⟨h.conserves, h.fits, trivial, h.later Handling.noConfusion, h.network.regrouped
      ⟨⟨_, _, .idle, rfl⟩, rfl, .inr rfl⟩⟩
  | write => exact h.set h.offers h.receiving
  | signal => exact h.set h.offers h.receiving
  | stop hn =>
    have hmoved := h.moved hn rfl fun _ _ => trivial
    exact hmoved.set h.offers hmoved.receiving
  | joined => exact h.set h.offers h.receiving
  | ret hr => exact h.set h.offers h.receiving

theorem service_inductive : (service P c : LTS (Service τ) ServiceAct).Inductive (Service.Sound P c) where
  init s h := by
    obtain ⟨⟨now, hcall⟩, rfl, hvalid, hfits, hpending, hhandling, -, -⟩ := h
    have hst : (Network.open s.config now : Network τ).step (.reconcile (.call s.config)) =
        some s.network := hcall
    obtain ⟨hreceiving, htaken, -⟩ := Network.step_channel rfl hst
    refine ⟨⟨hvalid, rfl, fun userId hid m => ?_⟩, hfits, by rw [hhandling]; trivial,
      fun _ => hreceiving, Network.Sound.step ?_ rfl ((Replaces.refl hvalid).keeps rfl) hst⟩
    · show Counts (configMeter s.config userId m + pendingMeter s.pending userId m)
        (configMeter s.config userId m + meterOf s.network.taken userId m)
      rw [hpending, htaken]
      exact .refl _
    · exact open_sound (newIn_empty.1 hvalid.distinct.ids)
        (fun u hu => (lt_u64_of_sql (hfits u hu).used).le) now
  step _ _ _ h hst := Service.step_sound h hst

/-! ## The counters of a user -/

omit [Double τ] in
/-- With no sums left the configuration reads as what was received. -/
theorem Service.Sound.received (h : s.Sound P c) (hp : s.pending = ∅) {userId : Str}
    (hid : userId ∈ c.users.map (·.id)) (m : Meter) :
    configMeter s.config userId m = configMeter c userId m + meterOf s.network.taken userId m := by
  have hbal := h.conserves.balance userId hid m
  rw [show s.ledger.pending = ∅ from hp, pendingMeter_empty, Nat.add_zero] at hbal
  exact hbal.exact_of_lt (configMeter_lt h.fits userId m)

/-- **The counters of a user** when its sessions have ended and all queued events are
flushed. The gate has counted what was reserved; that was delivered, or not written when a
session ended; what was delivered was added, or not told of when a session ended, or told
of after the accounting task had gone. The three agree exactly when nothing was lost. -/
theorem usage_agrees (h : (service P c).Reachable s) {u : ServerUser} (hu : u ∈ c.users)
    (hended : ∀ q ∈ s.network.sessions, q.spec.userId = u.id → q.ended = true)
    (hqueue : s.network.queue = []) (hpending : s.pending = ∅) :
    s.network.used u.id = some (min (u.trafficUsedBytes + s.network.reserved u.id) U64_MAX) ∧
    s.network.reserved u.id = s.network.delivered u.id + s.network.unwrittenLost u.id ∧
    u.trafficUsedBytes + s.network.delivered u.id =
      configMeter s.config u.id .used + s.network.unheard u.id + s.network.unsentLost u.id ∧
    (s.network.receiving = true → s.network.unheard u.id = 0) ∧
    ((s.network.reserved u.id = s.network.delivered u.id ∧
        configMeter s.config u.id .used = u.trafficUsedBytes + s.network.delivered u.id) ↔
      s.network.unheard u.id = 0 ∧
        ∀ q ∈ s.network.sessions, q.spec.userId = u.id → q.flow.unwritten = 0 ∧ q.flow.unsent = 0) := by
  have hs := service_inductive.reachable s h
  obtain ⟨r, hheld⟩ := hs.network.held u hu
  obtain ⟨hreserved, hdelivered⟩ := hs.network.lost hended
  have hn : (c.users.map (·.id)).Nodup := by
    rw [← hs.conserves.ids]
    exact newIn_empty.1 hs.conserves.valid.distinct.ids
  have hadded := hs.received hpending (List.mem_map_of_mem hu) .used
  rw [configMeter_of_mem hn hu, meterOf_used] at hadded
  change configMeter s.config u.id .used = u.trafficUsedBytes + _ at hadded
  refine ⟨hheld.used_eq, hreserved, by omega, fun hr => ?_, ?_⟩
  · rw [hs.network.unheard_queue hr, hqueue]
    rfl
  · rw [← Network.lost_eq_zero hended]
    omega

end

/-! ## Chunks that are passed on, and chunks that are cut short -/

/-- A process that has just read its own directory. -/
def served (c : ServerConfig) : Service Rat where
  network := ((Network.open c 0).reconcile (.call c)).getD (.open c 0)
  disk := Disk.ofConfig c
  config := c
  pending := ∅
  handling := .opening
  accounting := .unspawned
  stage := .serving

theorem served_opened {c : ServerConfig} (hv : Valid .plain c)
    (hw : (writeSnapshot Db.empty c).isOk = true) : Service.Opened .plain c (served c) :=
  ⟨⟨0, rfl⟩, rfl, hv, (writeSnapshot_inv (Db.ofConfig_written hw)).1, rfl, rfl, rfl, rfl⟩

theorem oneTunnel_served : Service.Opened .plain oneTunnel (served oneTunnel) :=
  served_opened (valid_of_fixed (d := Draws.constant) .plain (by decide +kernel)) (by decide +kernel)

/-- The first `reconcile`, when every port is free. -/
def bringUp (c : ServerConfig) : List ServiceAct :=
  List.replicate c.users.length (.reconcile (.gate 0)) ++
    [.reconcile .cancel, .reconcile (.joined (specs c))] ++
    List.replicate (specs c).length (.reconcile (.start true)) ++ [.reconcile .finish]

/-- Steps of an upload. -/
def upload (number : Nat) (acts : List CopyAct) : List ServiceAct :=
  acts.map fun act => .peers (.session number (.copy .inbound act))

/-- A chunk of 80 bytes is delivered and its event flushed. -/
def passedOn : List ServiceAct := bringUp oneTunnel ++ [.peers (.accept 0)] ++
  upload 0 [.read 80, .reserve 0, .write 80, .send] ++
  [.peers (.session 0 .stop), .receive, .tick, .flush Entropy.constant]

theorem passedOn_agrees : ∃ s : Service Rat, s.network.delivered ['a'] = 80 ∧
    s.network.reserved ['a'] = s.network.delivered ['a'] ∧
    configMeter s.config ['a'] .used = 0 + s.network.delivered ['a'] := by
  have hexec : (LTS.exec (Service.step Primitives.plain) (served oneTunnel) passedOn).map (fun s =>
      (s.network.delivered ['a'], s.network.queue, s.pending.entries.length, s.network.receiving,
        s.network.sessions.all fun q => q.ended ∧ q.flow.unwritten = 0 ∧ q.flow.unsent = 0)) =
      some (80, [], 0, true, true) := by decide +kernel
  obtain ⟨s, hs, he⟩ := Option.map_eq_some_iff.1 hexec
  simp only [Prod.mk.injEq] at he
  obtain ⟨hdelivered, hqueue, hpending, hreceiving, hsessions⟩ := he
  have hall : ∀ q ∈ s.network.sessions, q.ended = true ∧ q.flow.unwritten = 0 ∧ q.flow.unsent = 0 :=
    fun q hq => of_decide_eq_true (List.all_eq_true.1 hsessions q hq)
  obtain ⟨-, -, -, hunheard, hiff⟩ := usage_agrees
    (show (service .plain oneTunnel).Reachable s from ⟨_, _, oneTunnel_served, LTS.run_of_exec hs⟩)
    (show sampleUser 'a' [sampleTunnel ['x'] 5 20000] ∈ oneTunnel.users from List.mem_cons_self)
    (fun q hq _ => (hall q hq).1) hqueue (AList.ext (List.eq_nil_of_length_eq_zero hpending))
  exact ⟨s, hdelivered, hiff.2 ⟨hunheard hreceiving, fun q hq _ => (hall q hq).2⟩⟩

/-- A session is stopped between its reservation and the write, another one between the
write and the event. -/
def cutShort : List ServiceAct := bringUp oneTunnel ++ [.peers (.accept 0)] ++
  upload 0 [.read 80, .reserve 0] ++ [.peers (.session 0 .stop), .peers (.accept 0)] ++
  upload 1 [.read 80, .reserve 0, .write 80] ++ [.peers (.session 1 .stop)]

theorem cutShort_differs : ∃ s : Service Rat, (service .plain oneTunnel).Reachable s ∧
    (∀ q ∈ s.network.sessions, q.ended = true) ∧ s.network.queue = [] ∧ s.pending = ∅ ∧
    s.network.reserved ['a'] = 160 ∧ s.network.delivered ['a'] = 80 ∧
    configMeter s.config ['a'] .used = 0 := by
  have hexec : (LTS.exec (Service.step Primitives.plain) (served oneTunnel) cutShort).map (fun s =>
      (s.network.sessions.all (·.ended), s.network.queue, s.pending.entries.length,
        s.network.reserved ['a'], s.network.delivered ['a'], configMeter s.config ['a'] .used)) =
      some (true, [], 0, 160, 80, 0) := by decide +kernel
  obtain ⟨s, hs, he⟩ := Option.map_eq_some_iff.1 hexec
  simp only [Prod.mk.injEq] at he
  obtain ⟨hended, hqueue, hpending, hreserved, hdelivered, hused⟩ := he
  exact ⟨s, ⟨_, _, oneTunnel_served, LTS.run_of_exec hs⟩, List.all_eq_true.1 hended, hqueue,
    AList.ext (List.eq_nil_of_length_eq_zero hpending), hreserved, hdelivered, hused⟩

end OrangeFrp.App
