import OrangeFrp.Controller.Accounting
import OrangeFrp.Controller.Reconcile
import OrangeFrp.Core.LTS
import OrangeFrp.Core.Sum

/-!
# Sessions and the quota (`frp-game-server/src/controller.rs`)

A listener starts a task for each TCP connection and each UDP peer. A chunk goes
through three awaits: a reservation at the gate of the user, the write, and the
event for the accounting task. Between any two of them other sessions run, and
so do the steps of a `reconcile`, which changes limits and listeners under the
running sessions. A step of the system is what one task does between two awaits.

A session ends at any point: at the end of a stream, by an error, by its
cancellation, or because its future is dropped; whatever its chunk was then is
lost. Ended sessions stay in the list, so that this can be counted. Ghost
counters tell what was reserved and what was delivered for each user.

* `Network.step_balanced`: what is reserved is delivered, under way, or lost
  with a session.
* `quota_safe`: a user whose limit stays in force is never delivered more than
  the limit left when the controller was created.
-/
namespace OrangeFrp.Controller

open OrangeFrp.Core OrangeFrp.Storage

/-! ## Sessions -/

def ACCOUNTING_QUEUE_CAPACITY : Nat := 4096

/-- One direction of a connection. `left` is what the buffer still holds, grant included.
mirrors crates/frp-game-server/src/controller.rs:418-457 -/
inductive Copy where
  | reading
  | reserving (left : Nat)
  | writing (left allowed written : Nat)
  | sending (left allowed : Nat)
  | closing
  deriving DecidableEq

/-- A UDP session forwards one datagram at a time.
mirrors crates/frp-game-server/src/controller.rs:532-592 -/
inductive Forward where
  | waiting
  | reserving (direction : Direction) (size : Nat)
  | forwarding (direction : Direction) (size granted : Nat)
  | sending (direction : Direction) (size : Nat)
  deriving DecidableEq

inductive Flow where
  | tcp (upload download : Copy)
  | udp (forward : Forward)
  deriving DecidableEq

structure Session where
  spec : TunnelSpec
  gate : GateRef
  flow : Flow
  ended : Bool
  deriving DecidableEq

/-- What one step does: the next phase, the gate after it, whether the session ends,
the bytes granted and delivered, and the event that is sent. -/
structure Move (τ σ : Type) where
  next : σ
  gate : GateState τ
  ends : Bool
  granted : Nat
  delivered : Nat
  sent : Option (Direction × Nat)

inductive CopyAct where
  | read (bytes : Nat)
  | reserve (now : Readings)
  | write (bytes : Nat)
  | send

inductive ForwardAct where
  | receive (direction : Direction) (size : Nat)
  | reserve (now : Readings)
  | forward
  | send

/-- `stop` is the end of the session, for whatever reason. -/
inductive SessionAct where
  | copy (direction : Direction) (act : CopyAct)
  | datagram (act : ForwardAct)
  | stop

section
variable {τ : Type} [Double τ]

def Move.map {σ ρ : Type} (f : σ → ρ) (m : Move τ σ) : Move τ ρ :=
  { m with next := f m.next }

/-- A step that touches neither the gate nor the sockets. -/
def Move.quiet {σ : Type} (g : GateState τ) (next : σ) : Move τ σ := ⟨next, g, false, 0, 0, none⟩

def Move.grant {σ : Type} (g : GateState τ) (next : σ) (bytes : Nat) : Move τ σ :=
  ⟨next, g, false, bytes, 0, none⟩

def Move.deliver {σ : Type} (g : GateState τ) (next : σ) (bytes : Nat) : Move τ σ :=
  ⟨next, g, false, 0, bytes, none⟩

def Move.send {σ : Type} (g : GateState τ) (next : σ) (direction : Direction) (bytes : Nat) :
    Move τ σ :=
  ⟨next, g, false, 0, 0, some (direction, bytes)⟩

def Move.stop {σ : Type} (g : GateState τ) (next : σ) : Move τ σ := ⟨next, g, true, 0, 0, none⟩

/-- `room` tells whether the queue takes an event.
mirrors crates/frp-game-server/src/controller.rs:431-456 -/
def Copy.step (direction : Direction) (g : GateState τ) (room : Bool) :
    Copy → CopyAct → Option (Move τ Copy)
  | .reading, .read bytes =>
    if bytes ≤ COPY_BUFFER_BYTES then
      some (.quiet g (if bytes = 0 then .closing else .reserving bytes))
    else none
  | .reserving left, .reserve now =>
    match g.reserve left false now with
    | (.granted allowed, g) => some (.grant g (.writing left allowed 0) allowed)
    | (.refused, g) => some (.quiet g .closing)
    | (.wait, g) => some (.quiet g (.reserving left))
  | .writing left allowed written, .write bytes =>
    if written + bytes ≤ allowed then
      some (.deliver g (if written + bytes = allowed then .sending left allowed
        else .writing left allowed (written + bytes)) bytes)
    else none
  | .sending left allowed, .send =>
    if room then
      some (.send g (if left ≤ allowed then .reading else .reserving (left - allowed)) direction allowed)
    else none
  | _, _ => none

/-- mirrors crates/frp-game-server/src/controller.rs:551-591 -/
def Forward.step (g : GateState τ) (room : Bool) : Forward → ForwardAct → Option (Move τ Forward)
  | .waiting, .receive direction size => some (.quiet g (.reserving direction size))
  | .reserving direction size, .reserve now =>
    match g.reserve size true now with
    | (.granted granted, g) =>
      if granted = size then
        some (.grant g (.forwarding direction size granted) granted)
      else some ⟨.reserving direction size, g, true, granted, 0, none⟩
    | (.refused, g) => some (.stop g (.reserving direction size))
    | (.wait, g) => some (.quiet g (.reserving direction size))
  | .forwarding direction size _, .forward =>
    some (.deliver g (.sending direction size) size)
  | .sending direction size, .send =>
    if room then some (.send g .waiting direction size) else none
  | _, _ => none

def Flow.step (g : GateState τ) (room : Bool) : Flow → SessionAct → Option (Move τ Flow)
  | .tcp upload download, .copy .inbound act =>
    (upload.step .inbound g room act).map (·.map fun upload => .tcp upload download)
  | .tcp upload download, .copy .outbound act =>
    (download.step .outbound g room act).map (·.map fun download => .tcp upload download)
  | .udp forward, .datagram act => (forward.step g room act).map (·.map .udp)
  | flow, .stop => some (.stop g flow)
  | _, _ => none

/-- mirrors crates/frp-game-server/src/controller.rs:445-454,564-571,581-588 -/
def Session.event (q : Session) (sent : Direction × Nat) : TrafficEvent where
  userId := q.spec.userId
  proxyName := q.spec.proxyName
  protocol := q.spec.protocol
  publicPort := q.spec.publicPort
  direction := sent.1
  bytes := sent.2

/-! ## What a chunk is at -/

/-- The granted bytes that are not written. -/
def Copy.unwritten : Copy → Nat
  | .writing _ allowed written => allowed - written
  | _ => 0

/-- The written bytes that no event has told of. -/
def Copy.unsent : Copy → Nat
  | .writing _ _ written => written
  | .sending _ allowed => allowed
  | _ => 0

def Forward.unwritten : Forward → Nat
  | .forwarding _ _ granted => granted
  | _ => 0

def Forward.unsent : Forward → Nat
  | .sending _ size => size
  | _ => 0

def Flow.unwritten : Flow → Nat
  | .tcp upload download => upload.unwritten + download.unwritten
  | .udp forward => forward.unwritten

def Flow.unsent : Flow → Nat
  | .tcp upload download => upload.unsent + download.unsent
  | .udp forward => forward.unsent

/-- A datagram is forwarded only if it was reserved whole. -/
def Flow.Whole : Flow → Prop
  | .udp (.forwarding _ size granted) => granted = size
  | _ => True

def Move.bytes {σ : Type} (m : Move τ σ) : Nat := (m.sent.map (·.2)).getD 0

/-- What is granted is written or not; what is written is told of or not. -/
structure Balanced {σ : Type} (unwritten unsent : σ → Nat) (s : σ) (m : Move τ σ) : Prop where
  granted : m.granted + unwritten s = m.delivered + unwritten m.next
  written : m.delivered + unsent s = m.bytes + unsent m.next

/-- A grant fits what the limit leaves and is booked. -/
def Booked {σ : Type} (g : GateState τ) (m : Move τ σ) : Prop :=
  m.gate.limitBytes = g.limitBytes ∧
    ((m.granted = 0 ∧ m.gate.usedBytes = g.usedBytes) ∨
      (m.granted ≤ g.remaining ∧ m.gate.usedBytes = satAdd g.usedBytes m.granted))

/-! ## One step of a session -/

omit [Double τ] in
/-- A step that asks for nothing leaves the gate alone. -/
theorem booked_same {σ : Type} {g : GateState τ} {m : Move τ σ} (hg : m.gate = g)
    (hn : m.granted = 0) : Booked g m :=
  ⟨by rw [hg], .inl ⟨hn, by rw [hg]⟩⟩

/-- What a round at the gate books. -/
theorem reserve_booked {σ : Type} {g g' : GateState τ} {requested n : Nat} {now : Readings} {exact : Bool}
    (h : g.reserve requested exact now = (.granted n, g')) {m : Move τ σ} (hg : m.gate = g')
    (hn : m.granted = n) : Booked g m := by
  obtain ⟨hl, hs⟩ := reserve_spec g requested exact now
  rw [h] at hl hs
  subst hg hn
  exact ⟨hl, hs.2.2⟩

theorem unreserved_booked {σ : Type} {g g' : GateState τ} {requested : Nat} {now : Readings} {exact : Bool}
    {a : Attempt} (h : g.reserve requested exact now = (a, g')) (ha : ∀ n, a ≠ .granted n)
    {m : Move τ σ} (hg : m.gate = g') (hn : m.granted = 0) : Booked g m := by
  obtain ⟨hl, hs⟩ := reserve_spec g requested exact now
  rw [h] at hl hs
  subst hg
  refine ⟨hl, .inl ⟨hn, ?_⟩⟩
  cases a with
  | granted n => exact absurd rfl (ha n)
  | refused => exact hs
  | wait => exact hs

variable {g : GateState τ} {room : Bool}

theorem Copy.step_spec {direction : Direction} {s : Copy} {a : CopyAct} {m : Move τ Copy}
    (h : s.step direction g room a = some m) :
    Balanced Copy.unwritten Copy.unsent s m ∧ Booked g m := by
  unfold Copy.step at h
  split at h
  · split at h
    · cases h
      refine ⟨⟨?_, ?_⟩, booked_same rfl rfl⟩ <;> simp only [Move.quiet, Move.bytes] <;> split <;> rfl
    · cases h
  · rename_i left now
    split at h
    · rename_i allowed g' hr
      cases h
      refine ⟨⟨?_, rfl⟩, reserve_booked hr rfl rfl⟩
      simp only [Move.grant, Copy.unwritten]
      omega
    · rename_i g' hr
      cases h
      exact ⟨⟨rfl, rfl⟩, unreserved_booked hr (fun _ => Attempt.noConfusion) rfl rfl⟩
    · rename_i g' hr
      cases h
      exact ⟨⟨rfl, rfl⟩, unreserved_booked hr (fun _ => Attempt.noConfusion) rfl rfl⟩
  · rename_i left allowed written bytes
    split at h
    · rename_i hle
      cases h
      refine ⟨⟨?_, ?_⟩, booked_same rfl rfl⟩ <;> simp only [Move.deliver, Move.bytes] <;> split <;>
        simp only [Copy.unwritten, Copy.unsent, Option.map_none, Option.getD_none] <;> omega
    · cases h
  · rename_i left allowed
    split at h
    · cases h
      refine ⟨⟨?_, ?_⟩, booked_same rfl rfl⟩ <;> simp only [Move.send, Move.bytes] <;> split <;>
        simp [Copy.unwritten, Copy.unsent]
    · cases h
  · cases h

theorem Forward.step_spec {s : Forward} {a : ForwardAct} {m : Move τ Forward}
    (hw : (Flow.udp s).Whole) (h : s.step g room a = some m) :
    Balanced Forward.unwritten Forward.unsent s m ∧ Booked g m ∧ (Flow.udp m.next).Whole := by
  unfold Forward.step at h
  split at h
  · cases h
    exact ⟨⟨rfl, rfl⟩, booked_same rfl rfl, trivial⟩
  · rename_i direction size now
    split at h
    · rename_i granted g' hr
      have hexact : granted = size := by
        have hs := (reserve_spec g size true now).2
        rw [hr] at hs
        exact hs.2.1 rfl
      rw [if_pos hexact] at h
      cases h
      refine ⟨⟨?_, rfl⟩, reserve_booked hr rfl rfl, hexact⟩
      simp only [Move.grant, Forward.unwritten]
      omega
    · rename_i g' hr
      cases h
      exact ⟨⟨rfl, rfl⟩, unreserved_booked hr (fun _ => Attempt.noConfusion) rfl rfl, trivial⟩
    · rename_i g' hr
      cases h
      exact ⟨⟨rfl, rfl⟩, unreserved_booked hr (fun _ => Attempt.noConfusion) rfl rfl, trivial⟩
  · rename_i direction size granted
    cases h
    have hsize : granted = size := hw
    refine ⟨⟨?_, ?_⟩, booked_same rfl rfl, trivial⟩ <;>
      simp only [Move.deliver, Move.bytes, Forward.unwritten, Forward.unsent, Option.map_none,
        Option.getD_none] <;> omega
  · split at h
    · cases h
      exact ⟨⟨rfl, by simp [Move.send, Move.bytes, Forward.unsent]⟩, booked_same rfl rfl, trivial⟩
    · cases h
  · cases h

/-- **One step of a session** keeps its chunk accounted for, and books what it is granted. -/
theorem Flow.step_spec {s : Flow} {a : SessionAct} {m : Move τ Flow} (hw : s.Whole)
    (h : s.step g room a = some m) :
    Balanced Flow.unwritten Flow.unsent s m ∧ Booked g m ∧ m.next.Whole := by
  unfold Flow.step at h
  split at h
  · rename_i upload download act
    obtain ⟨m₀, hm, rfl⟩ := Option.map_eq_some_iff.1 h
    obtain ⟨⟨h₁, h₂⟩, hb⟩ := Copy.step_spec hm
    refine ⟨⟨?_, ?_⟩, hb, trivial⟩
    · simp only [Move.map, Flow.unwritten]
      omega
    · have hbytes : (m₀.map fun upload => Flow.tcp upload download).bytes = m₀.bytes := rfl
      rw [hbytes]
      simp only [Move.map, Flow.unsent]
      omega
  · rename_i upload download act
    obtain ⟨m₀, hm, rfl⟩ := Option.map_eq_some_iff.1 h
    obtain ⟨⟨h₁, h₂⟩, hb⟩ := Copy.step_spec hm
    refine ⟨⟨?_, ?_⟩, hb, trivial⟩
    · simp only [Move.map, Flow.unwritten]
      omega
    · have hbytes : (m₀.map fun download => Flow.tcp upload download).bytes = m₀.bytes := rfl
      rw [hbytes]
      simp only [Move.map, Flow.unsent]
      omega
  · obtain ⟨m₀, hm, rfl⟩ := Option.map_eq_some_iff.1 h
    obtain ⟨⟨h₁, h₂⟩, hb, hw'⟩ := Forward.step_spec hw hm
    exact ⟨⟨h₁, h₂⟩, hb, hw'⟩
  · cases h
    exact ⟨⟨rfl, rfl⟩, booked_same rfl rfl, hw⟩
  · cases h

end

/-! ## The network -/

/-- How far a call of `reconcile` has come. Between its awaits sessions run. -/
inductive Reconciling where
  | idle
  | gates (c : ServerConfig) (users : List ServerUser)
  | stopping (c : ServerConfig)
  | starting (specs : List TunnelSpec)

inductive ReconcileAct where
  | call (c : ServerConfig)
  | gate (now : Nat)
  | cancel
  | joined (order : List TunnelSpec)
  | start (free : Bool)
  | finish

/-- The controller, its listener tasks and the sessions they have started, and the
channel to the accounting task. -/
structure Network (τ : Type) where
  controller : TrafficController τ
  listeners : List ControllerTask
  reconciling : Reconciling
  sessions : List Session
  /-- the accounting task still holds the receiver -/
  receiving : Bool
  queue : List TrafficEvent
  /-- what the accounting task has received -/
  taken : List TrafficEvent
  /-- every event a session has sent -/
  sent : List TrafficEvent
  reserved : Str → Nat
  delivered : Str → Nat

inductive NetworkAct where
  | accept (listener : Nat)
  | leave (listener : Nat)
  | session (number : Nat) (act : SessionAct)
  | reconcile (act : ReconcileAct)
  | shutdown
  | take
  | close

def bump (f : Str → Nat) (userId : Str) (n : Nat) : Str → Nat :=
  fun v => if v = userId then f v + n else f v

/-- A session as its listener starts it.
mirrors crates/frp-game-server/src/controller.rs:342-380,459-530 -/
def Session.of (task : ControllerTask) : Session where
  spec := task.spec
  gate := task.gate
  flow := if task.spec.protocol = tcp then .tcp .reading .reading else .udp .waiting
  ended := false

section
variable {τ : Type} [Double τ]

def Network.open (c : ServerConfig) (now : Nat) : Network τ where
  controller := .new c now
  listeners := []
  reconciling := .idle
  sessions := []
  receiving := true
  queue := []
  taken := []
  sent := []
  reserved _ := 0
  delivered _ := 0

/-- The steps of `reconcile`, each with what it does under one lock.
mirrors crates/frp-game-server/src/controller.rs:193-247,262-285 -/
def Network.reconcile (s : Network τ) : ReconcileAct → Option (Network τ)
  | .call c =>
    match s.reconciling with
    | .idle => some { s with
        controller := { s.controller with
          gates := Assoc.retain (fun userId _ => userId ∈ c.users.map (·.id)) s.controller.gates }
        reconciling := .gates c c.users }
    | _ => none
  | .gate now =>
    match s.reconciling with
    | .gates c (u :: users) => some { s with
        controller := s.controller.reconcileGate now u
        reconciling := .gates c users }
    | _ => none
  | .cancel =>
    match s.reconciling with
    | .gates c [] => some { s with
        controller := s.controller.stopTasks c
        reconciling := .stopping c }
    | _ => none
  | .joined order =>
    match s.reconciling with
    | .stopping c =>
      if order.Perm ((desired c).entries.map (·.2)) ∧
          ∀ t ∈ s.listeners, s.controller.tasks.lookup t.spec.proxyName = some t then
        some { s with reconciling := .starting order }
      else none
    | _ => none
  | .start free =>
    match s.reconciling with
    | .starting (spec :: rest) =>
      if spec.proxyName ∈ s.controller.tasks then some { s with reconciling := .starting rest }
      else
        match s.controller.gates.lookup spec.userId with
        | none => some { s with reconciling := .idle }
        | some gate =>
          match startTask s.controller (fun _ => free) spec gate with
          | .error _ => some { s with reconciling := .idle }
          | .ok k => some { s with
              controller := k
              listeners := ⟨s.controller.started, spec, gate⟩ :: s.listeners
              reconciling := .starting rest }
    | _ => none
  | .finish =>
    match s.reconciling with
    | .starting [] => some { s with reconciling := .idle }
    | _ => none

/-- One step of a running session. -/
def Network.advance (s : Network τ) (number : Nat) (act : SessionAct) : Option (Network τ) := do
  let q ← s.sessions[number]?
  let g ← s.controller.heap[q.gate]?
  let m ← q.flow.step g (!s.receiving || s.queue.length < ACCOUNTING_QUEUE_CAPACITY) act
  let events := (m.sent.map q.event).toList
  if q.ended then none
  else some { s with
    controller := { s.controller with heap := s.controller.heap.set q.gate m.gate }
    sessions := s.sessions.set number { q with flow := m.next, ended := m.ends }
    queue := if s.receiving then s.queue ++ events else s.queue
    sent := s.sent ++ events
    reserved := bump s.reserved q.spec.userId m.granted
    delivered := bump s.delivered q.spec.userId m.delivered }

def Network.step (s : Network τ) : NetworkAct → Option (Network τ)
  | .accept listener => do
    let task ← s.listeners[listener]?
    some { s with sessions := s.sessions ++ [.of task] }
  | .leave listener => do
    -- the loop of a listener ends once it is cancelled
    let task ← s.listeners[listener]?
    if s.controller.tasks.lookup task.spec.proxyName = some task then none
    else some { s with listeners := s.listeners.eraseIdx listener }
  | .session number act => s.advance number act
  | .reconcile act => s.reconcile act
  | .shutdown => some { s with controller := { s.controller with tasks := ∅ } }
  | .take =>
    if s.receiving then
      match s.queue with
      | [] => none
      | event :: rest => some { s with queue := rest, taken := s.taken ++ [event] }
    else none
  | .close => some { s with receiving := false }

/-- The controller is made for a configuration. -/
def network (c : ServerConfig) : LTS (Network τ) NetworkAct :=
  .ofFn (fun s => ∃ now, s = .open c now) Network.step

end

/-! ## Where the bytes of a user are -/

section
variable {τ : Type}

def Network.unwritten (s : Network τ) (userId : Str) : Nat :=
  (s.sessions.map fun q => if q.spec.userId = userId then q.flow.unwritten else 0).sum

def Network.unsent (s : Network τ) (userId : Str) : Nat :=
  (s.sessions.map fun q => if q.spec.userId = userId then q.flow.unsent else 0).sum

/-- The bytes that events tell of a user. -/
def bytesOf (events : List TrafficEvent) (userId : Str) : Nat :=
  (events.map fun event => if event.userId = userId then event.bytes else 0).sum

/-- What was granted is delivered or unwritten, with a running session or an ended one;
what was delivered was told of or is unsent. -/
structure Network.Balanced (s : Network τ) (userId : Str) : Prop where
  reserved : s.reserved userId = s.delivered userId + s.unwritten userId
  delivered : s.delivered userId = bytesOf s.sent userId + s.unsent userId
  whole : ∀ q ∈ s.sessions, q.flow.Whole
  taken : s.receiving = true → s.sent = s.taken ++ s.queue

/-- The used bytes of the gate of a user. -/
def Network.used (s : Network τ) (userId : Str) : Option Nat :=
  (s.controller.gates.lookup userId).bind fun r => (s.controller.heap[r]?).map (·.usedBytes)

/-- The gate of a user, which no other user has. -/
structure Gated (k : TrafficController τ) (userId : Str) (r : GateRef) : Prop where
  ref : k.gates.lookup userId = some r
  bound : r < k.heap.length
  only : ∀ v, k.gates.lookup v = some r → v = userId

/-- All sessions and listeners of the user share its gate, and the gate counts what
they have reserved. -/
structure Network.Held (s : Network τ) (userId : Str) (r : GateRef) (before : Nat) : Prop where
  gated : Gated s.controller userId r
  listeners : ∀ t ∈ s.listeners, t.gate = r ↔ t.spec.userId = userId
  sessions : ∀ q ∈ s.sessions, q.gate = r ↔ q.spec.userId = userId
  used : ∃ g, s.controller.heap[r]? = some g ∧
    g.usedBytes = min (before + s.reserved userId) U64_MAX

/-- The limit is in force, and keeps the reservations. -/
structure Network.Within (s : Network τ) (userId : Str) (r : GateRef) (limit before : Nat) : Prop where
  inForce : ∀ g, s.controller.heap[r]? = some g → g.limitBytes = limit
  pending : ∀ c users, s.reconciling = .gates c users → ∀ v ∈ users, v.id = userId →
    v.trafficLimitBytes = limit
  within : before + s.reserved userId ≤ max before limit

end

/-! ## Every step keeps the bytes balanced -/

theorem bytesOf_append (events more : List TrafficEvent) (userId : Str) :
    bytesOf (events ++ more) userId = bytesOf events userId + bytesOf more userId := by
  simp [bytesOf]

theorem bytesOf_sent (q : Session) (sent : Option (Direction × Nat)) (userId : Str) :
    bytesOf (sent.map q.event).toList userId =
      if q.spec.userId = userId then (sent.map (·.2)).getD 0 else 0 := by
  cases sent with
  | none => simp [bytesOf]
  | some e => simp [bytesOf, Session.event]

section
variable {τ : Type} [Double τ] {s t : Network τ}

/-- A step of a session that can be taken. -/
structure Network.Advances (s : Network τ) (number : Nat) (act : SessionAct) (q : Session)
    (g : GateState τ) (m : Move τ Flow) : Prop where
  session : s.sessions[number]? = some q
  gate : s.controller.heap[q.gate]? = some g
  step : q.flow.step g (!s.receiving || s.queue.length < ACCOUNTING_QUEUE_CAPACITY) act = some m

theorem Network.advance_eq {number : Nat} {act : SessionAct} (h : s.advance number act = some t) :
    ∃ q g m, s.Advances number act q g m ∧ t = { s with
      controller := { s.controller with heap := s.controller.heap.set q.gate m.gate }
      sessions := s.sessions.set number { q with flow := m.next, ended := m.ends }
      queue := if s.receiving then s.queue ++ (m.sent.map q.event).toList else s.queue
      sent := s.sent ++ (m.sent.map q.event).toList
      reserved := bump s.reserved q.spec.userId m.granted
      delivered := bump s.delivered q.spec.userId m.delivered } := by
  unfold Network.advance at h
  obtain ⟨q, hq, h⟩ := Option.bind_eq_some_iff.1 h
  obtain ⟨g, hg, h⟩ := Option.bind_eq_some_iff.1 h
  obtain ⟨m, hm, h⟩ := Option.bind_eq_some_iff.1 h
  split at h
  · cases h
  · cases h
    exact ⟨q, g, m, ⟨hq, hg, hm⟩, rfl⟩

theorem Network.advance_balanced {number : Nat} {act : SessionAct} {userId : Str}
    (h : s.Balanced userId) (hst : s.advance number act = some t) : t.Balanced userId := by
  obtain ⟨q, g, m, ⟨hq, hg, hm⟩, rfl⟩ := Network.advance_eq hst
  obtain ⟨⟨hgr, hwr⟩, -, hwhole⟩ := Flow.step_spec (h.whole q (List.mem_of_getElem? hq)) hm
  have hunw := sum_map_set hq { q with flow := m.next, ended := m.ends }
    fun q => if q.spec.userId = userId then q.flow.unwritten else 0
  have huns := sum_map_set hq { q with flow := m.next, ended := m.ends }
    fun q => if q.spec.userId = userId then q.flow.unsent else 0
  have hr := h.reserved
  have hd := h.delivered
  have hb : (m.sent.map (·.2)).getD 0 = m.bytes := rfl
  constructor
  · simp only [Network.unwritten, bump] at hunw hr ⊢
    by_cases hu : q.spec.userId = userId
    · simp only [hu, if_true] at hunw ⊢
      omega
    · simp only [hu, if_false, Ne.symm hu] at hunw ⊢
      omega
  · simp only [Network.unsent, bump, bytesOf_append, bytesOf_sent] at huns hd ⊢
    by_cases hu : q.spec.userId = userId
    · simp only [hu, if_true] at huns ⊢
      omega
    · simp only [hu, if_false, Ne.symm hu] at huns ⊢
      omega
  · intro q' hq'
    rcases List.mem_or_eq_of_mem_set hq' with hq' | rfl
    · exact h.whole q' hq'
    · exact hwhole
  · intro hrec
    have ht := h.taken hrec
    simp only [show s.receiving = true from hrec, if_true]
    rw [ht, List.append_assoc]

theorem Network.reconcile_same {act : ReconcileAct} (h : s.reconcile act = some t) :
    ∃ k listeners reconciling, t = { s with
      controller := k, listeners := listeners, reconciling := reconciling } := by
  cases act with
  | start free =>
    simp only [Network.reconcile] at h
    split at h
    · split at h
      · cases h; exact ⟨_, _, _, rfl⟩
      split at h
      · cases h; exact ⟨_, _, _, rfl⟩
      split at h <;> cases h <;> exact ⟨_, _, _, rfl⟩
    · cases h
  | joined order =>
    simp only [Network.reconcile] at h
    split at h
    · split at h
      · cases h; exact ⟨_, _, _, rfl⟩
      · cases h
    · cases h
  | _ =>
    simp only [Network.reconcile] at h
    split at h
    · cases h; exact ⟨_, _, _, rfl⟩
    · cases h

/-- **One step** leaves the bytes of every user balanced. -/
theorem Network.step_balanced {l : NetworkAct} {userId : Str} (h : s.Balanced userId)
    (hst : s.step l = some t) : t.Balanced userId := by
  cases l with
  | accept listener =>
    obtain ⟨task, -, hst⟩ := Option.bind_eq_some_iff.1 hst
    cases hst
    have hflow : (Session.of task).flow.unwritten = 0 ∧ (Session.of task).flow.unsent = 0 ∧
        (Session.of task).flow.Whole := by
      unfold Session.of
      dsimp only
      split <;> exact ⟨rfl, rfl, trivial⟩
    have hr := h.reserved
    have hd := h.delivered
    refine ⟨?_, ?_, fun q hq => ?_, h.taken⟩
    · simp only [Network.unwritten, List.map_append, List.map_cons, List.map_nil, List.sum_append,
        List.sum_cons, List.sum_nil, hflow.1, ite_self] at hr ⊢
      omega
    · simp only [Network.unsent, List.map_append, List.map_cons, List.map_nil, List.sum_append,
        List.sum_cons, List.sum_nil, hflow.2.1, ite_self] at hd ⊢
      omega
    · rcases List.mem_append.1 hq with hq | hq
      · exact h.whole q hq
      · obtain rfl := List.mem_singleton.1 hq
        exact hflow.2.2
  | leave listener =>
    obtain ⟨task, -, hst⟩ := Option.bind_eq_some_iff.1 hst
    split at hst
    · cases hst
    · cases hst; exact ⟨h.reserved, h.delivered, h.whole, h.taken⟩
  | session number act => exact Network.advance_balanced h hst
  | reconcile act =>
    obtain ⟨k, listeners, reconciling, rfl⟩ := Network.reconcile_same hst
    exact ⟨h.reserved, h.delivered, h.whole, h.taken⟩
  | shutdown => cases hst; exact ⟨h.reserved, h.delivered, h.whole, h.taken⟩
  | take =>
    simp only [Network.step] at hst
    split at hst
    · split at hst
      · cases hst
      · rename_i event rest hqueue
        cases hst
        refine ⟨h.reserved, h.delivered, h.whole, fun hrec => ?_⟩
        have ht := h.taken hrec
        rw [hqueue] at ht
        simp only [ht, List.append_assoc, List.singleton_append]
    · cases hst
  | close =>
    cases hst
    exact ⟨h.reserved, h.delivered, h.whole, fun hrec => by cases hrec⟩

/-! ## The gate of a user -/

omit [Double τ] in
theorem Gated.congr {k k' : TrafficController τ} {userId : Str} {r : GateRef} (h : Gated k userId r)
    (hg : k'.gates = k.gates) (hl : k'.heap.length = k.heap.length) : Gated k' userId r :=
  ⟨by rw [hg]; exact h.ref, by rw [hl]; exact h.bound, by rw [hg]; exact h.only⟩

omit [Double τ] in
theorem Gated.retain {k : TrafficController τ} {userId : Str} {r : GateRef} (h : Gated k userId r)
    {p : Str → GateRef → Bool} (hp : p userId r = true) :
    Gated { k with gates := Assoc.retain p k.gates } userId r := by
  refine ⟨?_, h.bound, fun v hv => h.only v ?_⟩
  · rw [Assoc.lookup_retain, h.ref, Option.filter_some, if_pos hp]
  · rw [Assoc.lookup_retain, Option.filter_eq_some_iff] at hv
    exact hv.1

/-- The gate stays, and only the user itself changes its limits. -/
theorem Gated.reconcileGate {k : TrafficController τ} {userId : Str} {r : GateRef}
    (h : Gated k userId r) (now : Nat) (u : ServerUser) :
    Gated (k.reconcileGate now u) userId r ∧ (k.reconcileGate now u).heap[r]? =
      if u.id = userId then (k.heap[r]?).map fun g => g.updateLimits u.trafficLimitBytes u.speedLimitMbps now
      else k.heap[r]? := by
  unfold TrafficController.reconcileGate
  split
  · rename_i r' hr'
    refine ⟨h.congr rfl (by simp), ?_⟩
    have hiff : u.id = userId ↔ r' = r := by
      refine ⟨?_, ?_⟩
      · intro hu
        rw [hu, h.ref] at hr'
        exact (Option.some.inj hr').symm
      · intro heq
        obtain rfl := heq
        exact h.only _ hr'
    rw [List.getElem?_modify]
    by_cases hu : u.id = userId
    · simp [hu, hiff.1 hu]
    · have hr : ¬ r' = r := fun he => hu (hiff.2 he)
      simp [hu, hr]
  · rename_i hnone
    have hu : u.id ≠ userId := by
      intro heq
      obtain rfl := heq
      rw [h.ref] at hnone
      cases hnone
    refine ⟨⟨?_, ?_, fun v hv => ?_⟩, ?_⟩
    · rw [allocate_lookup, if_neg hu.symm, h.ref]
    · show r < (k.heap ++ [_]).length
      exact Nat.lt_of_lt_of_le h.bound (by simp)
    · rw [allocate_lookup] at hv
      split at hv
      · exact absurd (Option.some.inj hv) (Nat.ne_of_gt h.bound)
      · exact h.only v hv
    · rw [if_neg hu, TrafficController.allocate, List.getElem?_append_left h.bound]

/-- A call keeps the user, with its limit. -/
def ReconcileAct.Keeps (userId : Str) (limit : Option Nat) : ReconcileAct → Prop
  | .call c => userId ∈ c.users.map (·.id) ∧
      ∀ l, limit = some l → ∀ v ∈ c.users, v.id = userId → v.trafficLimitBytes = l
  | _ => True

variable {userId : Str} {r : GateRef} {limit before : Nat}

/-- What a step of `reconcile` does to the gate of a user it keeps. -/
structure Kept (s t : Network τ) (r : GateRef) (userId : Str) : Prop where
  gated : Gated t.controller userId r
  listeners : ∀ task ∈ t.listeners, task ∈ s.listeners ∨
    s.controller.gates.lookup task.spec.userId = some task.gate
  heap : t.controller.heap[r]? = s.controller.heap[r]? ∨ ∃ c u users now,
    s.reconciling = .gates c (u :: users) ∧ u.id = userId ∧ t.controller.heap[r]? =
      (s.controller.heap[r]?).map fun g => g.updateLimits u.trafficLimitBytes u.speedLimitMbps now

omit [Double τ] in
theorem startTask_same {k k' : TrafficController τ} {bind : TunnelSpec → Bool} {spec : TunnelSpec}
    {gate : GateRef} (h : startTask k bind spec gate = .ok k') : k'.gates = k.gates ∧ k'.heap = k.heap := by
  unfold startTask at h
  split at h
  · split at h
    · cases h; exact ⟨rfl, rfl⟩
    · cases h
  · cases h

theorem Network.reconcile_kept {act : ReconcileAct} (h : Gated s.controller userId r)
    (hk : act.Keeps userId none) (hst : s.reconcile act = some t) : Kept s t r userId := by
  have hsame : ∀ {s' : Network τ}, s'.controller = s.controller → s'.listeners = s.listeners →
      Kept s s' r userId := fun hc hl =>
    ⟨by rw [hc]; exact h, fun task ht => .inl (by rw [← hl]; exact ht), .inl (by rw [hc])⟩
  cases act with
  | call c =>
    simp only [Network.reconcile] at hst
    split at hst
    · cases hst
      exact ⟨h.retain (by simpa using hk.1), fun task ht => .inl ht, .inl rfl⟩
    · cases hst
  | gate now =>
    simp only [Network.reconcile] at hst
    split at hst
    · rename_i c u users hrec
      cases hst
      obtain ⟨hg, hheap⟩ := h.reconcileGate now u
      refine ⟨hg, fun task ht => .inl ht, ?_⟩
      split at hheap
      · rename_i hu
        exact .inr ⟨c, u, users, now, hrec, hu, hheap⟩
      · exact .inl hheap
    · cases hst
  | cancel =>
    simp only [Network.reconcile] at hst
    split at hst
    · cases hst
      exact ⟨h.congr rfl rfl, fun task ht => .inl ht, .inl rfl⟩
    · cases hst
  | joined order =>
    simp only [Network.reconcile] at hst
    split at hst
    · split at hst
      · cases hst; exact hsame rfl rfl
      · cases hst
    · cases hst
  | start free =>
    simp only [Network.reconcile] at hst
    split at hst
    · rename_i spec rest hrec
      split at hst
      · cases hst; exact hsame rfl rfl
      split at hst
      · cases hst; exact hsame rfl rfl
      rename_i gate hgate
      split at hst
      · cases hst; exact hsame rfl rfl
      · rename_i k hstart
        cases hst
        obtain ⟨hg, hh⟩ := startTask_same hstart
        refine ⟨h.congr hg (by rw [hh]), fun task ht => ?_, .inl (by rw [hh])⟩
        rcases List.mem_cons.1 ht with rfl | ht
        · exact .inr hgate
        · exact .inl ht
    · cases hst
  | finish =>
    simp only [Network.reconcile] at hst
    split at hst
    · cases hst; exact hsame rfl rfl
    · cases hst

theorem Network.reconcile_held {act : ReconcileAct} (h : s.Held userId r before)
    (hk : act.Keeps userId none) (hst : s.reconcile act = some t) : t.Held userId r before := by
  obtain ⟨hg, hl, hheap⟩ := Network.reconcile_kept h.gated hk hst
  obtain ⟨k, listeners, reconciling, rfl⟩ := Network.reconcile_same hst
  refine ⟨hg, fun task ht => ?_, h.sessions, ?_⟩
  · rcases hl task ht with ht | ht
    · exact h.listeners task ht
    · refine ⟨?_, ?_⟩
      · intro heq
        obtain rfl := heq
        exact h.gated.only _ ht
      · intro hu
        rw [hu, h.gated.ref] at ht
        exact (Option.some.inj ht).symm
  · obtain ⟨g, hg, hu⟩ := h.used
    rcases hheap with he | ⟨c, u, users, now, -, -, he⟩
    · exact ⟨g, he.trans hg, hu⟩
    · rw [hg] at he
      exact ⟨_, he, by rw [updateLimits_usedBytes]; exact hu⟩

theorem Network.reconcile_within {act : ReconcileAct} (h : s.Within userId r limit before)
    (hg : Gated s.controller userId r) (hk : act.Keeps userId (some limit))
    (hst : s.reconcile act = some t) : t.Within userId r limit before := by
  have hkept : act.Keeps userId none := by
    cases act <;> first | exact ⟨hk.1, fun _ hl => by cases hl⟩ | trivial
  obtain ⟨-, -, hheap⟩ := Network.reconcile_kept hg hkept hst
  have hsame := Network.reconcile_same hst
  refine ⟨fun g hgt => ?_, fun c users hrec v hv hid => ?_, ?_⟩
  · rcases hheap with he | ⟨c, u, users, now, hrec, hu, he⟩
    · exact h.inForce g (he ▸ hgt)
    · rw [he] at hgt
      obtain ⟨g₀, -, rfl⟩ := Option.map_eq_some_iff.1 hgt
      rw [updateLimits_limitBytes]
      exact h.pending c (u :: users) hrec u List.mem_cons_self hu
  · cases act with
    | call c' =>
      simp only [Network.reconcile] at hst
      split at hst
      · cases hst
        cases hrec
        exact hk.2 limit rfl v hv hid
      · cases hst
    | gate now =>
      simp only [Network.reconcile] at hst
      split at hst
      · rename_i c₀ u users₀ hrec₀
        cases hst
        cases hrec
        exact h.pending c (u :: users) hrec₀ v (List.mem_cons_of_mem u hv) hid
      · cases hst
    | start free =>
      simp only [Network.reconcile] at hst
      split at hst
      · split at hst
        · cases hst; cases hrec
        split at hst
        · cases hst; cases hrec
        split at hst <;> cases hst <;> cases hrec
      · cases hst
    | joined order =>
      simp only [Network.reconcile] at hst
      split at hst
      · split at hst <;> cases hst
        cases hrec
      · cases hst
    | _ =>
      simp only [Network.reconcile] at hst
      split at hst <;> cases hst
      cases hrec
  · obtain ⟨k, listeners, reconciling, rfl⟩ := hsame
    exact h.within

/-- The gate after a step of a session: its own user's, or untouched. -/
theorem Network.advance_heap {number : Nat} {act : SessionAct} {q : Session} {g : GateState τ}
    {m : Move τ Flow} (h : s.Held userId r before) (ha : s.Advances number act q g m) :
    (q.spec.userId = userId ∧ s.controller.heap[r]? = some g ∧
        (s.controller.heap.set q.gate m.gate)[r]? = some m.gate) ∨
      (q.spec.userId ≠ userId ∧
        (s.controller.heap.set q.gate m.gate)[r]? = s.controller.heap[r]?) := by
  have hiff := h.sessions q (List.mem_of_getElem? ha.session)
  by_cases hu : q.spec.userId = userId
  · have hr : q.gate = r := hiff.2 hu
    have hg := ha.gate
    rw [hr] at hg
    exact .inl ⟨hu, hg, by rw [hr, List.getElem?_set_self h.gated.bound]⟩
  · exact .inr ⟨hu, by rw [List.getElem?_set_ne fun hr => hu (hiff.1 hr)]⟩

theorem Network.advance_held {number : Nat} {act : SessionAct} (h : s.Held userId r before)
    (hb : s.Balanced userId) (hst : s.advance number act = some t) : t.Held userId r before := by
  obtain ⟨q, g, m, ha, rfl⟩ := Network.advance_eq hst
  have hmem := List.mem_of_getElem? ha.session
  refine ⟨h.gated.congr rfl (by simp), h.listeners, fun q' hq' => ?_, ?_⟩
  · rcases List.mem_or_eq_of_mem_set hq' with hq' | rfl
    · exact h.sessions q' hq'
    · exact h.sessions q hmem
  · obtain ⟨g₀, hg₀, hused⟩ := h.used
    obtain ⟨-, ⟨-, hbook⟩, -⟩ := Flow.step_spec (hb.whole q hmem) ha.step
    simp only [bump]
    rcases Network.advance_heap h ha with ⟨hu, hg, hheap⟩ | ⟨hu, hheap⟩
    · rw [hg] at hg₀
      cases hg₀
      refine ⟨m.gate, hheap, ?_⟩
      rw [if_pos hu.symm]
      rcases hbook with ⟨hn, hsame⟩ | ⟨-, hsat⟩
      · rw [hsame, hused, hn, Nat.add_zero]
      · rw [hsat, hused, satAdd]
        omega
    · refine ⟨g₀, hheap.trans hg₀, ?_⟩
      rw [if_neg (Ne.symm hu)]
      exact hused

theorem Network.advance_within {number : Nat} {act : SessionAct} (h : s.Held userId r before)
    (hb : s.Balanced userId) (hw : s.Within userId r limit before) (hpos : 0 < limit)
    (hfit : max before limit ≤ U64_MAX) (hst : s.advance number act = some t) :
    t.Within userId r limit before := by
  obtain ⟨q, g, m, ha, rfl⟩ := Network.advance_eq hst
  obtain ⟨-, ⟨hlim, hbook⟩, -⟩ := Flow.step_spec (hb.whole q (List.mem_of_getElem? ha.session)) ha.step
  have hle := hw.within
  rcases Network.advance_heap h ha with ⟨hu, hg, hheap⟩ | ⟨hu, hheap⟩
  · have hlimit := hw.inForce g hg
    refine ⟨fun g' hg' => ?_, hw.pending, ?_⟩
    · rw [hheap] at hg'
      cases hg'
      rw [hlim, hlimit]
    · simp only [bump, hu, if_true]
      rcases hbook with ⟨hn, -⟩ | ⟨hn, -⟩
      · omega
      · -- the counter is what was reserved, as nothing has saturated
        obtain ⟨g₀, hg₀, hused⟩ := h.used
        rw [hg] at hg₀
        cases hg₀
        rw [GateState.remaining, hlimit, if_neg (by omega), hused] at hn
        omega
  · refine ⟨fun g' hg' => hw.inForce g' (hheap ▸ hg'), hw.pending, ?_⟩
    simp only [bump, if_neg (Ne.symm hu)]
    exact hle

/-! ## Every run that keeps the user -/

/-- The steps of a run in which every `reconcile` keeps the user. -/
def NetworkAct.Keeps (userId : Str) (limit : Option Nat) : NetworkAct → Prop
  | .reconcile act => act.Keeps userId limit
  | _ => True

theorem Network.step_held {l : NetworkAct} (h : s.Held userId r before) (hb : s.Balanced userId)
    (hk : l.Keeps userId none) (hst : s.step l = some t) : t.Held userId r before := by
  cases l with
  | accept listener =>
    obtain ⟨task, htask, hst⟩ := Option.bind_eq_some_iff.1 hst
    cases hst
    refine ⟨h.gated, h.listeners, fun q hq => ?_, h.used⟩
    rcases List.mem_append.1 hq with hq | hq
    · exact h.sessions q hq
    · obtain rfl := List.mem_singleton.1 hq
      exact h.listeners task (List.mem_of_getElem? htask)
  | leave listener =>
    obtain ⟨task, -, hst⟩ := Option.bind_eq_some_iff.1 hst
    split at hst
    · cases hst
    · cases hst
      exact ⟨h.gated, fun t ht => h.listeners t (List.mem_of_mem_eraseIdx ht), h.sessions, h.used⟩
  | session number act => exact Network.advance_held h hb hst
  | reconcile act => exact Network.reconcile_held h hk hst
  | shutdown => cases hst; exact ⟨h.gated.congr rfl rfl, h.listeners, h.sessions, h.used⟩
  | take =>
    simp only [Network.step] at hst
    split at hst
    · split at hst
      · cases hst
      · cases hst; exact ⟨h.gated, h.listeners, h.sessions, h.used⟩
    · cases hst
  | close => cases hst; exact ⟨h.gated, h.listeners, h.sessions, h.used⟩

theorem NetworkAct.Keeps.user {l : NetworkAct} {limit : Option Nat} (h : l.Keeps userId limit) :
    l.Keeps userId none := by
  cases l with
  | reconcile act => cases act <;> first | exact ⟨h.1, fun _ hl => by cases hl⟩ | trivial
  | _ => trivial

theorem Network.step_within {l : NetworkAct} (h : s.Held userId r before) (hb : s.Balanced userId)
    (hw : s.Within userId r limit before) (hpos : 0 < limit) (hfit : max before limit ≤ U64_MAX)
    (hk : l.Keeps userId (some limit)) (hst : s.step l = some t) : t.Within userId r limit before := by
  cases l with
  | accept listener =>
    obtain ⟨task, -, hst⟩ := Option.bind_eq_some_iff.1 hst
    cases hst
    exact ⟨hw.inForce, hw.pending, hw.within⟩
  | leave listener =>
    obtain ⟨task, -, hst⟩ := Option.bind_eq_some_iff.1 hst
    split at hst
    · cases hst
    · cases hst; exact ⟨hw.inForce, hw.pending, hw.within⟩
  | session number act => exact Network.advance_within h hb hw hpos hfit hst
  | reconcile act => exact Network.reconcile_within hw h.gated hk hst
  | shutdown => cases hst; exact ⟨hw.inForce, hw.pending, hw.within⟩
  | take =>
    simp only [Network.step] at hst
    split at hst
    · split at hst
      · cases hst
      · cases hst; exact ⟨hw.inForce, hw.pending, hw.within⟩
    · cases hst
  | close => cases hst; exact ⟨hw.inForce, hw.pending, hw.within⟩

/-- Reservations are never taken back. -/
theorem Network.step_reserved {l : NetworkAct} (hst : s.step l = some t) (userId : Str) :
    s.reserved userId ≤ t.reserved userId := by
  cases l with
  | session number act =>
    obtain ⟨q, g, m, -, rfl⟩ := Network.advance_eq hst
    simp only [bump]
    split <;> omega
  | accept listener =>
    obtain ⟨task, -, hst⟩ := Option.bind_eq_some_iff.1 hst
    cases hst
    rfl
  | leave listener =>
    obtain ⟨task, -, hst⟩ := Option.bind_eq_some_iff.1 hst
    split at hst <;> cases hst
    rfl
  | reconcile act =>
    obtain ⟨k, listeners, reconciling, rfl⟩ := Network.reconcile_same hst
    rfl
  | take =>
    simp only [Network.step] at hst
    split at hst
    · split at hst <;> cases hst
      rfl
    · cases hst
  | _ => cases hst; rfl

end

/-! ## The start -/

section
variable {τ : Type} [Double τ]

/-- Among distinct users a gate belongs to one. -/
theorem new_gated {c : ServerConfig} (hn : (c.users.map (·.id)).Nodup) (now : Nat) {u : ServerUser}
    (hu : u ∈ c.users) : ∃ r, Gated (TrafficController.new c now : TrafficController τ) u.id r ∧
      (TrafficController.new c now : TrafficController τ).heap[r]? = some (gateOf u now) := by
  have hfold : ∀ (us : List ServerUser) (k : TrafficController τ),
      (∀ v r, k.gates.lookup v = some r → r < k.heap.length) →
      (∀ v w r, k.gates.lookup v = some r → k.gates.lookup w = some r → v = w) →
      let k' := us.foldl (fun k u => k.allocate u.id (gateOf u now)) k
      (∀ v r, k'.gates.lookup v = some r → r < k'.heap.length) ∧
        ∀ v w r, k'.gates.lookup v = some r → k'.gates.lookup w = some r → v = w := by
    intro us
    induction us with
    | nil => exact fun k hb hi => ⟨hb, hi⟩
    | cons x us ih =>
      intro k hb hi
      have hlen : (k.allocate x.id (gateOf x now)).heap.length = k.heap.length + 1 := by
        simp [TrafficController.allocate]
      refine ih (k.allocate x.id (gateOf x now)) (fun v r hv => ?_) (fun v w r hv hw => ?_)
      · rw [hlen]
        rw [allocate_lookup] at hv
        split at hv
        · cases hv; exact Nat.lt_succ_self _
        · exact Nat.lt_succ_of_lt (hb v r hv)
      · rw [allocate_lookup] at hv hw
        split at hv <;> split at hw
        · rename_i h₁ h₂; rw [h₁, h₂]
        · cases hv; exact absurd (hb w _ hw) (lt_irrefl _)
        · cases hw; exact absurd (hb v _ hv) (lt_irrefl _)
        · exact hi v w r hv hw
  obtain ⟨hbound, honly⟩ := hfold c.users ⟨∅, ∅, [], 0⟩ (fun v r hv => by cases hv)
    (fun v w r hv _ => by cases hv)
  obtain ⟨-, -, -, hgates⟩ := foldl_allocate now hn (⟨∅, ∅, [], 0⟩ : TrafficController τ)
  obtain ⟨r, hr, hheap⟩ := hgates u hu
  exact ⟨r, ⟨hr, hbound u.id r hr, fun v hv => honly v u.id r hv hr⟩, hheap⟩

theorem open_balanced (c : ServerConfig) (now : Nat) (userId : Str) :
    (Network.open c now : Network τ).Balanced userId :=
  ⟨rfl, rfl, fun _ hq => absurd hq List.not_mem_nil, fun _ => rfl⟩

theorem open_held {c : ServerConfig} (hn : (c.users.map (·.id)).Nodup) (now : Nat) {u : ServerUser}
    (hu : u ∈ c.users) (hfit : u.trafficUsedBytes ≤ U64_MAX) :
    ∃ r, (Network.open c now : Network τ).Held u.id r u.trafficUsedBytes ∧
      (Network.open c now : Network τ).Within u.id r u.trafficLimitBytes u.trafficUsedBytes := by
  obtain ⟨r, hg, hheap⟩ := @new_gated τ _ c hn now u hu
  refine ⟨r, ⟨hg, fun _ ht => absurd ht List.not_mem_nil, fun _ hq => absurd hq List.not_mem_nil,
    gateOf u now, hheap, ?_⟩, fun g hg' => ?_, fun _ _ hrec => Reconciling.noConfusion hrec,
    le_max_left _ _⟩
  · show u.trafficUsedBytes = min (u.trafficUsedBytes + 0) U64_MAX
    omega
  · rw [show (Network.open c now : Network τ).controller.heap[r]? = some (gateOf u now) from hheap]
      at hg'
    cases hg'
    rfl

variable {c : ServerConfig} {u : ServerUser} {s : Network τ}

/-- In a run that keeps the user its gate counts what its sessions have reserved. -/
theorem network_held (hn : (c.users.map (·.id)).Nodup) (hu : u ∈ c.users)
    (hfit : u.trafficUsedBytes ≤ U64_MAX) {G : Network τ → NetworkAct → Prop}
    (hG : ∀ s l, G s l → l.Keeps u.id none) (h : ((network c).restrict G).Reachable s) :
    s.Balanced u.id ∧ ∃ r, s.Held u.id r u.trafficUsedBytes := by
  refine LTS.Inductive.reachable (I := fun s => s.Balanced u.id ∧ ∃ r, s.Held u.id r u.trafficUsedBytes)
    ⟨?_, ?_⟩ s h
  · intro _ hx
    obtain ⟨now, rfl⟩ := hx
    obtain ⟨r, hheld, -⟩ := @open_held τ _ c hn now u hu hfit
    exact ⟨open_balanced c now u.id, r, hheld⟩
  · intro s l t hx hs
    obtain ⟨hb, r, hheld⟩ := hx
    obtain ⟨hst, hg⟩ := hs
    exact ⟨Network.step_balanced hb hst, r, Network.step_held hheld hb (hG s l hg) hst⟩

/-- **Quota safety.** While the limit of a user stays in force, no more is delivered than
was left of it when the controller was made; the gate's counter only grows; and a
datagram is forwarded only if it was reserved whole. -/
theorem quota_safe (hn : (c.users.map (·.id)).Nodup) (hu : u ∈ c.users)
    (hused : u.trafficUsedBytes ≤ U64_MAX) (hlimit : u.trafficLimitBytes ≤ U64_MAX)
    (hpos : 0 < u.trafficLimitBytes)
    (h : ((network c).restrict fun (_ : Network τ) l =>
      l.Keeps u.id (some u.trafficLimitBytes)).Reachable s) :
    s.delivered u.id ≤ u.trafficLimitBytes - u.trafficUsedBytes ∧
      (∀ q ∈ s.sessions, q.flow.Whole) ∧
      ∀ l t, l.Keeps u.id (some u.trafficLimitBytes) → s.step l = some t →
        ∃ n n', s.used u.id = some n ∧ t.used u.id = some n' ∧ n ≤ n' := by
  have hinv : s.Balanced u.id ∧ ∃ r, s.Held u.id r u.trafficUsedBytes ∧
      s.Within u.id r u.trafficLimitBytes u.trafficUsedBytes := by
    refine LTS.Inductive.reachable (I := fun s => s.Balanced u.id ∧
      ∃ r, s.Held u.id r u.trafficUsedBytes ∧ s.Within u.id r u.trafficLimitBytes u.trafficUsedBytes)
      ⟨?_, ?_⟩ s h
    · intro _ hx
      obtain ⟨now, rfl⟩ := hx
      exact ⟨open_balanced c now u.id, open_held hn now hu hused⟩
    · intro s l t hx hs
      obtain ⟨hb, r, hheld, hwithin⟩ := hx
      obtain ⟨hst, hg⟩ := hs
      exact ⟨Network.step_balanced hb hst, r, Network.step_held hheld hb hg.user hst,
        Network.step_within hheld hb hwithin hpos (by omega) hg hst⟩
  obtain ⟨hb, r, hheld, hwithin⟩ := hinv
  refine ⟨?_, hb.whole, fun l t hl hst => ?_⟩
  · have h₁ := hb.reserved
    have h₂ := hwithin.within
    omega
  · have hheld' := Network.step_held hheld hb hl.user hst
    have hmono := Network.step_reserved hst u.id
    obtain ⟨g, hg, hn⟩ := hheld.used
    obtain ⟨g', hg', hn'⟩ := hheld'.used
    refine ⟨g.usedBytes, g'.usedBytes, ?_, ?_, by rw [hn, hn']; omega⟩
    · rw [Network.used, hheld.gated.ref, Option.bind_some, hg, Option.map_some]
    · rw [Network.used, hheld'.gated.ref, Option.bind_some, hg', Option.map_some]

end

/-! ## A user who runs into the limit -/

instance (userId : Str) (limit : Option Nat) (l : NetworkAct) : Decidable (l.Keeps userId limit) := by
  cases l with
  | reconcile act =>
    cases act with
    | call c =>
      cases limit with
      | none => exact decidable_of_iff (userId ∈ c.users.map (·.id)) ⟨fun h => ⟨h, by simp⟩, And.left⟩
      | some l =>
        exact decidable_of_iff (userId ∈ c.users.map (·.id) ∧
          ∀ v ∈ c.users, v.id = userId → v.trafficLimitBytes = l) (by
            simp [NetworkAct.Keeps, ReconcileAct.Keeps])
    | _ => exact isTrue trivial
  | _ => exact isTrue trivial

/-- A user with 60 bytes left. -/
def limitedUser : ServerUser :=
  { sampleUser 'a' [sampleTunnel ['x'] 5 20000] with trafficLimitBytes := 100, trafficUsedBytes := 40 }

def limited : ServerConfig := sampleConfig [limitedUser]

/-- The listener is started, and a connection sends 80 bytes. -/
def overLimit : List NetworkAct := [
  .reconcile (.call limited), .reconcile (.gate 0), .reconcile .cancel,
  .reconcile (.joined (specs limited)), .reconcile (.start true), .reconcile .finish, .accept 0,
  .session 0 (.copy .inbound (.read 80)), .session 0 (.copy .inbound (.reserve 0)),
  .session 0 (.copy .inbound (.write 60))]

theorem overLimit_safe : ∃ s : Network Rat, s.delivered ['a'] = 60 ∧
    s.delivered ['a'] ≤ 100 - 40 := by
  have hexec : (LTS.exec (fun (s : Network Rat) l =>
      if l.Keeps ['a'] (some 100) then s.step l else none) (.open limited 0) overLimit).map
        (·.delivered ['a']) = some 60 := by decide +kernel
  obtain ⟨s, hs, hd⟩ := Option.map_eq_some_iff.1 hexec
  have hreach : ((network limited).restrict fun (_ : Network Rat) l =>
      l.Keeps limitedUser.id (some limitedUser.trafficLimitBytes)).Reachable s :=
    ⟨_, _, ⟨0, rfl⟩, LTS.restrict_run_of_exec hs⟩
  exact ⟨s, hd, (quota_safe (by decide +kernel) (by decide +kernel) (by decide +kernel)
    (by decide +kernel) (by decide) hreach).1⟩

end OrangeFrp.Controller
