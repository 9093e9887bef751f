import OrangeFrp.Common.Crypto
import OrangeFrp.Controller.Accounting
import OrangeFrp.Core.LTS

/-!
# The tasks of UDP sessions (`frp-game-server/src/controller.rs`)

The listener of a tunnel keeps the channel of each peer's session in a map that
it shares with the sessions. It takes the lock of the map once for the lookup,
once for a removal, once for the size and once for the insertion; between any
two of these the sessions go on, close their receivers, and take the lock for
their cleanup. The sessions of all listeners share one semaphore.

A session is known by the place of its channel in the list of all channels, so
that `same_channel` is equality of places. A session that has ended stays in the
list, and `handed` keeps what its channel was ever given. Datagrams are numbered
in the order of their receipt.

* `UdpListener.Kept`: the invariant of one listener, its map and its sessions.
* `UdpServer.Kept.step`: every step of a listener or a session keeps that of all.
* `udpServer_inductive`: it holds in every interleaving.
-/
namespace OrangeFrp.Controller

open OrangeFrp.Core

def MAX_UDP_SESSIONS_PER_TUNNEL : Nat := 512
def MAX_UDP_SESSIONS_TOTAL : Nat := 1024
def UDP_SESSION_QUEUE_CAPACITY : Nat := 1

/-! ## Sessions -/

structure Datagram where
  number : Nat
  data : Bytes
  deriving DecidableEq

/-- Where a session is. The channel is made before the task is spawned; the task holds its
permit until the cleanup is done.
mirrors crates/frp-game-server/src/controller.rs:508-528,541-591 -/
inductive UdpPhase where
  | made
  | binding
  | connecting
  | waiting
  | passing (direction : Direction)
  | returned
  | cleaned
  | ended
  deriving DecidableEq

/-- The receiver of the channel is there until `run_udp_session` returns. -/
def UdpPhase.receives : UdpPhase → Bool
  | .made | .binding | .connecting | .waiting | .passing _ => true
  | .returned | .cleaned | .ended => false

/-- The cleanup is still to come. -/
def UdpPhase.unfinished : UdpPhase → Bool
  | .cleaned | .ended => false
  | _ => true

def UdpPhase.permitted (phase : UdpPhase) : Bool := phase ≠ .ended

/-- The task runs. -/
def UdpPhase.live (phase : UdpPhase) : Bool := phase ≠ .made && phase ≠ .ended

structure UdpSession (Peer : Type) where
  listener : Nat
  peer : Peer
  phase : UdpPhase
  queue : List Datagram
  handed : List Datagram

variable {Peer : Type}

/-- The channel and the permit, before the first datagram. -/
def UdpSession.new (listener : Nat) (peer : Peer) : UdpSession Peer := ⟨listener, peer, .made, [], []⟩

inductive TrySend (Peer : Type) where
  | sent (session : UdpSession Peer)
  | full
  | closed

/-- `mpsc::Sender::try_send`. -/
def UdpSession.trySend (x : UdpSession Peer) (datagram : Datagram) : TrySend Peer :=
  if x.phase.receives = false then .closed
  else if UDP_SESSION_QUEUE_CAPACITY ≤ x.queue.length then .full
  else .sent { x with queue := x.queue ++ [datagram], handed := x.handed ++ [datagram] }

/-- What a session does between two awaits. `stop` ends the loop: cancelled, idle, without a
quota, or by an error. -/
inductive UdpSessionAct where
  | bind (ok : Bool)
  | connect (ok : Bool)
  | receive
  | respond
  | pass
  | stop

/-- mirrors crates/frp-game-server/src/controller.rs:541-591 -/
def UdpSession.run (x : UdpSession Peer) : UdpSessionAct → Option (UdpSession Peer)
  | .bind ok => if x.phase = .binding then some { x with phase := if ok then .connecting else .returned } else none
  | .connect ok =>
    if x.phase = .connecting then some { x with phase := if ok then .waiting else .returned } else none
  | .receive =>
    match x.phase, x.queue with
    | .waiting, _ :: queue => some { x with phase := .passing .inbound, queue := queue }
    | _, _ => none
  | .respond => if x.phase = .waiting then some { x with phase := .passing .outbound } else none
  | .pass =>
    match x.phase with
    | .passing _ => some { x with phase := .waiting }
    | _ => none
  | .stop =>
    match x.phase with
    | .waiting | .passing _ => some { x with phase := .returned }
    | _ => none

/-! ## Listeners -/

/-- Where the loop of a listener is, with what it has in hand.
mirrors crates/frp-game-server/src/controller.rs:472-515 -/
inductive ListenPhase (Peer : Type) where
  | selecting
  | received (peer : Peer) (datagram : Datagram)
  | sending (peer : Peer) (datagram : Datagram) (channel : Nat)
  | removing (peer : Peer) (datagram : Datagram) (channel : Nat)
  | checking (peer : Peer) (datagram : Datagram)
  | acquiring (peer : Peer) (datagram : Datagram)
  | inserting (peer : Peer) (channel : Nat)
  | spawning (channel : Nat)
  | stopped

/-- The datagram in hand. -/
def ListenPhase.datagram : ListenPhase Peer → Option Datagram
  | .received _ d | .sending _ d _ | .removing _ d _ | .checking _ d | .acquiring _ d => some d
  | _ => none

/-- The channel that was made and has no task yet. -/
def ListenPhase.making : ListenPhase Peer → Option Nat
  | .inserting _ channel | .spawning channel => some channel
  | _ => none

structure UdpListener (Peer : Type) where
  phase : ListenPhase Peer
  table : Assoc Peer Nat

def UdpListener.to (q : UdpListener Peer) (phase : ListenPhase Peer) : UdpListener Peer := { q with phase := phase }

/-- The entry of the peer is removed when its channel is that of the session.
mirrors crates/frp-game-server/src/controller.rs:520-527 -/
def UdpListener.without [DecidableEq Peer] (q : UdpListener Peer) (peer : Peer) (channel : Nat) : UdpListener Peer :=
  { q with table := if q.table.lookup peer = some channel then q.table.erase peer else q.table }

/-- All listeners, all sessions, the semaphore, and the number of datagrams received. -/
structure UdpServer (Peer : Type) where
  listeners : List (UdpListener Peer)
  sessions : List (UdpSession Peer)
  permits : Nat
  received : Nat

inductive UdpAct (Peer : Type) where
  | listen
  | receive (listener : Nat) (result : Option (Peer × Bytes))
  | stop (listener : Nat)
  | advance (listener : Nat)
  | run (channel : Nat) (act : UdpSessionAct)
  | cleanup (channel : Nat)
  | release (channel : Nat)

namespace UdpServer

def setListener (s : UdpServer Peer) (l : Nat) (q : UdpListener Peer) : UdpServer Peer :=
  { s with listeners := s.listeners.set l q }

def setSession (s : UdpServer Peer) (i : Nat) (x : UdpSession Peer) : UdpServer Peer :=
  { s with sessions := s.sessions.set i x }

/-- A permit is taken for a new session. -/
def addSession (s : UdpServer Peer) (x : UdpSession Peer) : UdpServer Peer :=
  { s with sessions := s.sessions ++ [x], permits := s.permits - 1 }

variable [DecidableEq Peer]

/-- The next step of a listener that has received something.
mirrors crates/frp-game-server/src/controller.rs:480-515 -/
def advance (s : UdpServer Peer) (l : Nat) (q : UdpListener Peer) : Option (UdpServer Peer) :=
  match q.phase with
  | .received peer datagram =>
    match q.table.lookup peer with
    | some channel => some (s.setListener l (q.to (.sending peer datagram channel)))
    | none => some (s.setListener l (q.to (.checking peer datagram)))
  | .sending peer datagram channel =>
    (s.sessions[channel]?).map fun x =>
      match x.trySend datagram with
      | .sent x => (s.setSession channel x).setListener l (q.to .selecting)
      | .full => s.setListener l (q.to .selecting)
      | .closed => s.setListener l (q.to (.removing peer datagram channel))
  | .removing peer datagram _ =>
    some (s.setListener l ⟨.checking peer datagram, q.table.erase peer⟩)
  | .checking peer datagram =>
    if MAX_UDP_SESSIONS_PER_TUNNEL ≤ q.table.entries.length then some (s.setListener l (q.to .selecting))
    else some (s.setListener l (q.to (.acquiring peer datagram)))
  | .acquiring peer datagram =>
    if s.permits = 0 then some (s.setListener l (q.to .selecting))
    else
      match (UdpSession.new l peer).trySend datagram with
      | .sent x =>
        some ((s.addSession x).setListener l (q.to (.inserting peer s.sessions.length)))
      | _ => some (s.setListener l (q.to .selecting))
  | .inserting peer channel =>
    some (s.setListener l ⟨.spawning channel, q.table.insert peer channel⟩)
  | .spawning channel =>
    (s.sessions[channel]?).map fun x =>
      (s.setSession channel { x with phase := .binding }).setListener l (q.to .selecting)
  | _ => none

/-- mirrors crates/frp-game-server/src/controller.rs:509,520-527 -/
def cleanup (s : UdpServer Peer) (i : Nat) (x : UdpSession Peer) : Option (UdpServer Peer) :=
  if x.phase = .returned then
    (s.listeners[x.listener]?).map fun q =>
      (s.setSession i { x with phase := .cleaned }).setListener x.listener (q.without x.peer i)
  else none

/-- mirrors crates/frp-game-server/src/controller.rs:459-530 -/
def step (s : UdpServer Peer) : UdpAct Peer → Option (UdpServer Peer)
  | .listen => some { s with listeners := s.listeners ++ [⟨.selecting, ∅⟩] }
  | .receive l result =>
    (s.listeners[l]?).bind fun q =>
      match q.phase, result with
      | .selecting, some (peer, data) =>
        some { s.setListener l (q.to (.received peer ⟨s.received, data⟩)) with received := s.received + 1 }
      | .selecting, none => some s
      | _, _ => none
  | .stop l =>
    (s.listeners[l]?).bind fun q =>
      match q.phase with
      | .selecting => some (s.setListener l (q.to .stopped))
      | _ => none
  | .advance l => (s.listeners[l]?).bind (s.advance l)
  | .run i act => (s.sessions[i]?).bind fun x => (x.run act).map (s.setSession i)
  | .cleanup i => (s.sessions[i]?).bind (s.cleanup i)
  | .release i =>
    (s.sessions[i]?).bind fun x =>
      if x.phase = .cleaned then
        some { s.setSession i { x with phase := .ended } with permits := s.permits + 1 }
      else none

/-- A controller without listeners. -/
def start : UdpServer Peer := ⟨[], [], MAX_UDP_SESSIONS_TOTAL, 0⟩

end UdpServer

def udpServer (Peer : Type) [DecidableEq Peer] : LTS (UdpServer Peer) (UdpAct Peer) :=
  LTS.ofFn (· = UdpServer.start) UdpServer.step

/-! ## Lists of tasks -/

theorem concat_eq_some {α : Type} {as : List α} {a b : α} {k : Nat} :
    (as ++ [a])[k]? = some b ↔ as[k]? = some b ∨ k = as.length ∧ a = b := by
  rw [List.getElem?_append]
  split
  · rename_i hlt
    exact ⟨.inl, fun h => h.resolve_right fun h => by omega⟩
  · rename_i hge
    have hnone : as[k]? = none := List.getElem?_eq_none (Nat.le_of_not_lt hge)
    rw [List.getElem?_singleton, hnone]
    split
    · rename_i hz
      rw [Option.some.injEq]
      exact ⟨fun h => .inr ⟨by omega, h⟩, fun h => (h.resolve_left nofun).2⟩
    · rename_i hz
      exact ⟨nofun, fun h => absurd (h.resolve_left nofun).1 (by omega)⟩

theorem set_eq_some {α : Type} {as : List α} {a b c : α} {i k : Nat} (h : as[i]? = some a) :
    (as.set i c)[k]? = some b ↔ i = k ∧ c = b ∨ i ≠ k ∧ as[k]? = some b := by
  by_cases hk : i = k
  · subst hk
    rw [List.getElem?_set_self (List.getElem?_eq_some_iff.1 h).1, Option.some.injEq]
    exact ⟨fun h => .inl ⟨rfl, h⟩, fun h => (h.resolve_right fun h => h.1 rfl).2⟩
  · rw [List.getElem?_set_ne hk]
    exact ⟨fun h => .inr ⟨hk, h⟩, fun h => (h.resolve_left fun h => hk h.1).2⟩

theorem countP_set {α : Type} {p : α → Bool} {as : List α} {i : Nat} {a b : α} (h : as[i]? = some a) :
    (as.set i b).countP p + (if p a then 1 else 0) = as.countP p + (if p b then 1 else 0) := by
  induction as generalizing i with
  | nil => cases h
  | cons c as ih =>
    cases i with
    | zero =>
      cases h
      simp only [List.set_cons_zero, List.countP_cons]
      omega
    | succ i =>
      have := ih h
      simp only [List.set_cons_succ, List.countP_cons]
      omega

/-! ## Steps of a session -/

/-- What a session may become under a listener that has its channel in hand. -/
structure Follows (x x' : UdpSession Peer) : Prop where
  listener : x'.listener = x.listener
  peer : x'.peer = x.peer
  receives : x'.phase.receives = true → x.phase.receives = true
  made : x'.phase = .made ↔ x.phase = .made

/-- What a session may become while the map has its channel. -/
structure Continues (x x' : UdpSession Peer) : Prop extends Follows x x' where
  unfinished : x.phase.unfinished = true → x'.phase.unfinished = true

theorem Continues.refl (x : UdpSession Peer) : Continues x x := ⟨⟨rfl, rfl, id, .rfl⟩, id⟩

theorem UdpPhase.unfinished_of_receives {phase : UdpPhase} (h : phase.receives = true) :
    phase.unfinished = true := by
  cases phase <;> first | rfl | cases h

theorem UdpPhase.permitted_of_unfinished {phase : UdpPhase} (h : phase.unfinished = true) :
    phase.permitted = true := by
  cases phase <;> first | rfl | cases h

/-- A task that runs goes on, and has not finished its cleanup. -/
theorem UdpSession.moved {x : UdpSession Peer} {phase : UdpPhase} {queue : List Datagram}
    (hr : x.phase.receives = true) (hm : x.phase ≠ .made) (hu : phase.unfinished = true) (hm' : phase ≠ .made) :
    Continues x { x with phase := phase, queue := queue } :=
  ⟨⟨rfl, rfl, fun _ => hr, iff_of_false hm' hm⟩, fun _ => hu⟩

/-- What one step of a session does. -/
theorem UdpSession.run_ok {x x' : UdpSession Peer} {act : UdpSessionAct} (h : x.run act = some x') :
    x.phase.receives = true ∧ x.phase ≠ .made ∧ ∃ phase queue, phase.unfinished = true ∧ phase ≠ .made ∧
      x' = { x with phase := phase, queue := queue } := by
  have hfrom {phase next : UdpPhase} (hp : x.phase = phase) (hr : phase.receives = true ∧ phase ≠ .made)
      (hu : next.unfinished = true ∧ next ≠ .made) (queue : List Datagram) :
      x.phase.receives = true ∧ x.phase ≠ .made ∧ ∃ phase' queue', phase'.unfinished = true ∧ phase' ≠ .made ∧
        { x with phase := next, queue := queue } = { x with phase := phase', queue := queue' } := by
    rw [hp]
    exact ⟨hr.1, hr.2, next, queue, hu.1, hu.2, rfl⟩
  cases act <;> simp only [UdpSession.run] at h
  case bind ok =>
    split at h
    · rename_i hp
      cases h
      exact hfrom hp (by decide) (by cases ok <;> decide) _
    · cases h
  case connect ok =>
    split at h
    · rename_i hp
      cases h
      exact hfrom hp (by decide) (by cases ok <;> decide) _
    · cases h
  case receive =>
    split at h
    · rename_i hp _
      cases h
      exact hfrom hp (by decide) ⟨rfl, UdpPhase.noConfusion⟩ _
    · cases h
  case respond =>
    split at h
    · rename_i hp
      cases h
      exact hfrom hp (by decide) ⟨rfl, UdpPhase.noConfusion⟩ _
    · cases h
  case pass =>
    split at h
    · rename_i direction hp
      cases h
      exact hfrom hp ⟨rfl, UdpPhase.noConfusion⟩ (by decide) _
    · cases h
  case stop =>
    split at h
    · rename_i hp
      cases h
      exact hfrom hp (by decide) ⟨rfl, UdpPhase.noConfusion⟩ _
    · rename_i direction hp
      cases h
      exact hfrom hp ⟨rfl, UdpPhase.noConfusion⟩ (by decide) _
    · cases h

theorem UdpSession.trySend_sent {x x' : UdpSession Peer} {datagram : Datagram} (h : x.trySend datagram = .sent x') :
    x.phase.receives = true ∧
      x' = { x with queue := x.queue ++ [datagram], handed := x.handed ++ [datagram] } := by
  unfold UdpSession.trySend at h
  split at h
  · cases h
  rename_i hr
  split at h
  · cases h
  · cases h
    exact ⟨by simpa using hr, rfl⟩

theorem UdpSession.trySend_closed {x : UdpSession Peer} {datagram : Datagram} (h : x.trySend datagram = .closed) :
    x.phase.receives = false := by
  unfold UdpSession.trySend at h
  split at h
  · rename_i hr
    exact hr
  · split at h <;> cases h

/-! ## Steps of a listener -/

section
variable [DecidableEq Peer]

/-- What a listener that has received something may do next. -/
inductive UdpServer.Advances (s : UdpServer Peer) (l : Nat) (q : UdpListener Peer) : UdpServer Peer → Prop
  | found {peer : Peer} {datagram : Datagram} {channel : Nat} :
    q.phase = .received peer datagram → q.table.lookup peer = some channel →
    Advances s l q (s.setListener l (q.to (.sending peer datagram channel)))
  | unknown {peer : Peer} {datagram : Datagram} : q.phase = .received peer datagram → q.table.lookup peer = none →
    Advances s l q (s.setListener l (q.to (.checking peer datagram)))
  | sent {peer : Peer} {datagram : Datagram} {channel : Nat} {x : UdpSession Peer} :
    q.phase = .sending peer datagram channel → s.sessions[channel]? = some x →
    Advances s l q ((s.setSession channel
      { x with queue := x.queue ++ [datagram], handed := x.handed ++ [datagram] }).setListener l (q.to .selecting))
  | closed {peer : Peer} {datagram : Datagram} {channel : Nat} {x : UdpSession Peer} :
    q.phase = .sending peer datagram channel → s.sessions[channel]? = some x → x.phase.receives = false →
    Advances s l q (s.setListener l (q.to (.removing peer datagram channel)))
  | removed {peer : Peer} {datagram : Datagram} {channel : Nat} : q.phase = .removing peer datagram channel →
    Advances s l q (s.setListener l ⟨.checking peer datagram, q.table.erase peer⟩)
  | admitted {peer : Peer} {datagram : Datagram} : q.phase = .checking peer datagram →
    q.table.entries.length < MAX_UDP_SESSIONS_PER_TUNNEL →
    Advances s l q (s.setListener l (q.to (.acquiring peer datagram)))
  | acquired {peer : Peer} {datagram : Datagram} : q.phase = .acquiring peer datagram → s.permits ≠ 0 →
    Advances s l q ((s.addSession { UdpSession.new l peer with
      queue := [datagram], handed := [datagram] }).setListener l (q.to (.inserting peer s.sessions.length)))
  | inserted {peer : Peer} {channel : Nat} : q.phase = .inserting peer channel →
    Advances s l q (s.setListener l ⟨.spawning channel, q.table.insert peer channel⟩)
  | spawned {channel : Nat} {x : UdpSession Peer} : q.phase = .spawning channel → s.sessions[channel]? = some x →
    Advances s l q ((s.setSession channel { x with phase := .binding }).setListener l (q.to .selecting))
  /-- The datagram is dropped: the channel is full, or a limit is reached. -/
  | dropped : q.phase.making = none →
    Advances s l q (s.setListener l (q.to .selecting))

theorem UdpServer.advance_cases {s t : UdpServer Peer} {l : Nat} {q : UdpListener Peer}
    (h : s.advance l q = some t) : s.Advances l q t := by
  unfold UdpServer.advance at h
  split at h
  · rename_i peer datagram hphase
    split at h <;> cases h
    · rename_i channel hlook
      exact .found hphase hlook
    · rename_i hlook
      exact .unknown hphase hlook
  · rename_i peer datagram channel hphase
    obtain ⟨x, hx, h⟩ := Option.map_eq_some_iff.1 h
    split at h <;> subst h
    · rename_i x' hsent
      rw [(UdpSession.trySend_sent hsent).2]
      exact .sent hphase hx
    · exact .dropped (by rw [hphase]; rfl)
    · rename_i hclosed
      exact .closed hphase hx (UdpSession.trySend_closed hclosed)
  · rename_i peer datagram channel hphase
    cases h
    exact .removed hphase
  · rename_i peer datagram hphase
    split at h <;> cases h
    · exact .dropped (by rw [hphase]; rfl)
    · rename_i hlt
      exact .admitted hphase (Nat.lt_of_not_le hlt)
  · rename_i peer datagram hphase
    split at h
    · cases h
      exact .dropped (by rw [hphase]; rfl)
    rename_i hpos
    split at h <;> cases h
    · rename_i x hsent
      rw [(UdpSession.trySend_sent hsent).2]
      exact .acquired hphase hpos
    · exact .dropped (by rw [hphase]; rfl)
  · rename_i peer channel hphase
    cases h
    exact .inserted hphase
  · rename_i channel hphase
    obtain ⟨x, hx, rfl⟩ := Option.map_eq_some_iff.1 h
    exact .spawned hphase hx
  · cases h

theorem UdpServer.cleanup_ok {s t : UdpServer Peer} {i : Nat} (h : s.step (.cleanup i) = some t) :
    ∃ x q, s.sessions[i]? = some x ∧ x.phase = .returned ∧ s.listeners[x.listener]? = some q ∧
      t = (s.setSession i { x with phase := .cleaned }).setListener x.listener (q.without x.peer i) := by
  simp only [UdpServer.step] at h
  obtain ⟨x, hx, h⟩ := Option.bind_eq_some_iff.1 h
  unfold UdpServer.cleanup at h
  split at h
  · rename_i hphase
    obtain ⟨q, hq, rfl⟩ := Option.map_eq_some_iff.1 h
    exact ⟨x, q, hx, hphase, hq, rfl⟩
  · cases h

/-! ## The invariant of a listener -/

/-- What a listener knows where it is. -/
def ListenPhase.Kept (ss : List (UdpSession Peer)) (l : Nat) (table : Assoc Peer Nat) : ListenPhase Peer → Prop
  | .sending peer _ channel =>
    (table.lookup peer = none ∨ table.lookup peer = some channel) ∧
      ∃ x, ss[channel]? = some x ∧ x.listener = l
  | .removing peer _ channel =>
    (table.lookup peer = none ∨ table.lookup peer = some channel) ∧
      ∃ x, ss[channel]? = some x ∧ x.listener = l ∧ x.phase.receives = false
  | .checking peer _ => table.lookup peer = none
  | .acquiring peer _ => table.lookup peer = none ∧ table.entries.length < MAX_UDP_SESSIONS_PER_TUNNEL
  | .inserting peer channel =>
    table.lookup peer = none ∧ table.entries.length < MAX_UDP_SESSIONS_PER_TUNNEL ∧
      ∃ x, ss[channel]? = some x ∧ x.listener = l ∧ x.peer = peer ∧ x.phase = .made
  | .spawning channel => ∃ x, ss[channel]? = some x ∧ x.listener = l ∧ x.phase = .made
  | _ => True

/-- Every entry is of a session that has not finished its cleanup, every session that
receives is the one of its peer's entry, or about to become it, and the one that has no task
yet is that in hand. -/
structure UdpListener.Kept (ss : List (UdpSession Peer)) (l : Nat) (q : UdpListener Peer) : Prop where
  entries : ∀ peer channel, q.table.lookup peer = some channel →
    ∃ x, ss[channel]? = some x ∧ x.listener = l ∧ x.peer = peer ∧ x.phase.unfinished = true
  current : ∀ channel x, ss[channel]? = some x → x.listener = l → x.phase.receives = true →
    q.table.lookup x.peer = some channel ∨ q.phase = .inserting x.peer channel
  made : ∀ channel x, ss[channel]? = some x → x.listener = l → x.phase = .made → q.phase.making = some channel
  bounded : q.table.entries.length ≤ MAX_UDP_SESSIONS_PER_TUNNEL
  phase : q.phase.Kept ss l q.table

omit [DecidableEq Peer] in
theorem ListenPhase.making_none {phase : ListenPhase Peer} (h : phase.making = none) (peer : Peer) (channel : Nat) :
    phase ≠ .inserting peer channel := by
  intro heq
  subst heq
  cases h

variable {ss ss' : List (UdpSession Peer)} {l : Nat} {q : UdpListener Peer}

/-- The channel in hand stays, and the map only loses entries. -/
theorem ListenPhase.Kept.frame {table table' : Assoc Peer Nat} {phase : ListenPhase Peer}
    (h : phase.Kept ss l table)
    (forth : ∀ (channel : Nat) (x : UdpSession Peer), ss[channel]? = some x → x.listener = l →
      ∃ x', ss'[channel]? = some x' ∧ Follows x x')
    (hsub : ∀ peer, table'.lookup peer = none ∨ table'.lookup peer = table.lookup peer)
    (hlen : table'.entries.length ≤ table.entries.length) : phase.Kept ss' l table' := by
  have hnone (peer : Peer) (hl : table.lookup peer = none) : table'.lookup peer = none :=
    (hsub peer).elim id fun heq => heq.trans hl
  have hheld {peer : Peer} {channel : Nat}
      (hl : table.lookup peer = none ∨ table.lookup peer = some channel) :
      table'.lookup peer = none ∨ table'.lookup peer = some channel :=
    (hsub peer).elim .inl fun heq => by rw [heq]; exact hl
  cases phase with
  | sending peer datagram channel =>
    obtain ⟨hl, x, hx, hlx⟩ := h
    obtain ⟨x', hx', hf⟩ := forth channel x hx hlx
    exact ⟨hheld hl, x', hx', hf.listener.trans hlx⟩
  | removing peer datagram channel =>
    obtain ⟨hl, x, hx, hlx, hr⟩ := h
    obtain ⟨x', hx', hf⟩ := forth channel x hx hlx
    refine ⟨hheld hl, x', hx', hf.listener.trans hlx, Bool.eq_false_iff.2 fun hr' => ?_⟩
    rw [hf.receives hr'] at hr
    cases hr
  | inserting peer channel =>
    obtain ⟨hl, hlt, x, hx, hlx, hpx, hm⟩ := h
    obtain ⟨x', hx', hf⟩ := forth channel x hx hlx
    exact ⟨hnone peer hl, Nat.lt_of_le_of_lt hlen hlt, x', hx', hf.listener.trans hlx, hf.peer.trans hpx, hf.made.2 hm⟩
  | spawning channel =>
    obtain ⟨x, hx, hlx, hm⟩ := h
    obtain ⟨x', hx', hf⟩ := forth channel x hx hlx
    exact ⟨x', hx', hf.listener.trans hlx, hf.made.2 hm⟩
  | checking peer datagram => exact hnone peer h
  | acquiring peer datagram => exact ⟨hnone peer h.1, Nat.lt_of_le_of_lt hlen h.2⟩
  | selecting => trivial
  | received peer datagram => trivial
  | stopped => trivial

/-- Sessions of other listeners do not matter, and those of this one may go on. -/
theorem UdpListener.Kept.frame (h : q.Kept ss l)
    (forth : ∀ (channel : Nat) (x : UdpSession Peer), ss[channel]? = some x → x.listener = l →
      ∃ x', ss'[channel]? = some x' ∧ Continues x x')
    (back : ∀ (channel : Nat) (x' : UdpSession Peer), ss'[channel]? = some x' → x'.listener = l →
      ∃ x, ss[channel]? = some x ∧ Follows x x') :
    q.Kept ss' l where
  entries peer channel hl := by
    obtain ⟨x, hx, hlx, hpx, hu⟩ := h.entries peer channel hl
    obtain ⟨x', hx', hf⟩ := forth channel x hx hlx
    exact ⟨x', hx', hf.listener.trans hlx, hf.peer.trans hpx, hf.unfinished hu⟩
  current channel x' hx' hlx hr := by
    obtain ⟨x, hx, hf⟩ := back channel x' hx' hlx
    rw [hf.peer]
    exact h.current channel x hx (hf.listener.symm.trans hlx) (hf.receives hr)
  made channel x' hx' hlx hm := by
    obtain ⟨x, hx, hf⟩ := back channel x' hx' hlx
    exact h.made channel x hx (hf.listener.symm.trans hlx) (hf.made.1 hm)
  bounded := h.bounded
  phase := by
    refine h.phase.frame (fun channel x hx hlx => ?_) (fun _ => .inr rfl) (Nat.le_refl _)
    obtain ⟨x', hx', hf⟩ := forth channel x hx hlx
    exact ⟨x', hx', hf.toFollows⟩

theorem UdpListener.Kept.set (h : q.Kept ss l) {i : Nat} {x x' : UdpSession Peer} (hx : ss[i]? = some x)
    (hl : x'.listener = x.listener) (hf : x.listener = l → Continues x x') : q.Kept (ss.set i x') l := by
  refine h.frame (fun channel y hy hly => ?_) (fun channel y hy hly => ?_)
  · by_cases hi : i = channel
    · subst hi
      cases hx.symm.trans hy
      exact ⟨x', (set_eq_some hx).2 (.inl ⟨rfl, rfl⟩), hf hly⟩
    · exact ⟨y, (set_eq_some hx).2 (.inr ⟨hi, hy⟩), .refl y⟩
  · rcases (set_eq_some hx).1 hy with ⟨rfl, rfl⟩ | ⟨-, hy⟩
    · exact ⟨x, hx, (hf (hl.symm.trans hly)).toFollows⟩
    · exact ⟨y, hy, (Continues.refl y).toFollows⟩

theorem UdpListener.Kept.append (h : q.Kept ss l) {x : UdpSession Peer} (hne : x.listener ≠ l) :
    q.Kept (ss ++ [x]) l := by
  refine h.frame (fun channel y hy _ => ⟨y, concat_eq_some.2 (.inl hy), .refl y⟩) (fun channel y hy hly => ?_)
  rcases concat_eq_some.1 hy with hy | ⟨-, rfl⟩
  · exact ⟨y, hy, (Continues.refl y).toFollows⟩
  · exact absurd hly hne

/-- A listener changes its phase; the sessions that receive are those of the entries. -/
theorem UdpListener.Kept.to (h : q.Kept ss l) (hi : q.phase.making = none)
    {phase : ListenPhase Peer} (hp : phase.Kept ss l q.table) : (q.to phase).Kept ss l where
  entries := h.entries
  current channel x hx hl hr :=
    .inl ((h.current channel x hx hl hr).resolve_right (ListenPhase.making_none hi x.peer channel))
  made channel x hx hl hm := by cases hi.symm.trans (h.made channel x hx hl hm)
  bounded := h.bounded
  phase := hp

/-- A stale entry is removed. -/
theorem UdpListener.Kept.removed (h : q.Kept ss l) (hi : q.phase.making = none)
    {peer : Peer} {datagram : Datagram} {channel : Nat} {x : UdpSession Peer}
    (hlook : q.table.lookup peer = none ∨ q.table.lookup peer = some channel) (hx : ss[channel]? = some x)
    (hclosed : x.phase.receives = false) :
    UdpListener.Kept ss l ⟨.checking peer datagram, q.table.erase peer⟩ where
  entries p c hp := by
    by_cases hpeer : p = peer
    · subst hpeer
      rw [AList.lookup_erase] at hp
      cases hp
    · rw [AList.lookup_erase_ne hpeer] at hp
      exact h.entries p c hp
  current c y hy hly hr := by
    have hc := (h.current c y hy hly hr).resolve_right (ListenPhase.making_none hi y.peer c)
    by_cases hpeer : y.peer = peer
    · rw [hpeer] at hc
      rcases hlook with hnone | hsome
      · cases hnone.symm.trans hc
      · cases hsome.symm.trans hc
        cases hx.symm.trans hy
        rw [hclosed] at hr
        cases hr
    · exact .inl ((AList.lookup_erase_ne hpeer).trans hc)
  made c y hy hly hm := by cases hi.symm.trans (h.made c y hy hly hm)
  bounded := (List.kerase_sublist peer q.table.entries).length_le.trans h.bounded
  phase := AList.lookup_erase peer q.table

/-- The channel that was made becomes the peer's entry. -/
theorem UdpListener.Kept.inserted (h : q.Kept ss l) {peer : Peer} {channel : Nat}
    (hphase : q.phase = .inserting peer channel) :
    UdpListener.Kept ss l ⟨.spawning channel, q.table.insert peer channel⟩ := by
  have hp := h.phase
  rw [hphase] at hp
  obtain ⟨hnone, hlt, x, hx, hlx, hpeer, hm⟩ := hp
  refine ⟨fun p c hc => ?_, fun c y hy hly hr => ?_, fun c y hy hly hm' => ?_, ?_, x, hx, hlx, hm⟩
  · by_cases hpp : p = peer
    · subst hpp
      rw [AList.lookup_insert] at hc
      cases hc
      exact ⟨x, hx, hlx, hpeer, by rw [hm]; rfl⟩
    · rw [AList.lookup_insert_ne hpp] at hc
      exact h.entries p c hc
  · rcases h.current c y hy hly hr with hc | hins
    · have hpp : y.peer ≠ peer := by
        intro heq
        obtain rfl := heq
        cases hnone.symm.trans hc
      exact .inl ((AList.lookup_insert_ne hpp).trans hc)
    · rw [hphase] at hins
      cases hins
      exact .inl (AList.lookup_insert q.table)
  · have hmade := h.made c y hy hly hm'
    rw [hphase] at hmade
    exact hmade
  · have hmem : peer ∉ q.table := AList.lookup_eq_none.1 hnone
    show (q.table.insert peer channel).entries.length ≤ _
    rw [AList.entries_insert_of_notMem hmem]
    exact hlt

/-- The task of the new session starts. -/
theorem UdpListener.Kept.spawned (h : q.Kept ss l) {channel : Nat} {x : UdpSession Peer}
    (hphase : q.phase = .spawning channel) (hx : ss[channel]? = some x) (hl : x.listener = l)
    (hm : x.phase = .made) :
    (q.to .selecting).Kept (ss.set channel { x with phase := .binding }) l where
  entries p c hc := by
    obtain ⟨y, hy, hly, hpy, hu⟩ := h.entries p c hc
    by_cases hcc : channel = c
    · subst hcc
      cases hx.symm.trans hy
      exact ⟨_, (set_eq_some hx).2 (.inl ⟨rfl, rfl⟩), hly, hpy, rfl⟩
    · exact ⟨y, (set_eq_some hx).2 (.inr ⟨hcc, hy⟩), hly, hpy, hu⟩
  current c y hy hly hr := by
    have hi (z : UdpSession Peer) (hz : ss[c]? = some z) (hlz : z.listener = l) (hrz : z.phase.receives = true) :
        q.table.lookup z.peer = some c := by
      refine (h.current c z hz hlz hrz).resolve_right fun hins => ?_
      rw [hphase] at hins
      cases hins
    rcases (set_eq_some hx).1 hy with ⟨rfl, rfl⟩ | ⟨-, hy⟩
    · exact .inl (hi x hx hl (by rw [hm]; rfl))
    · exact .inl (hi y hy hly hr)
  made c y hy hly hm' := by
    rcases (set_eq_some hx).1 hy with ⟨-, rfl⟩ | ⟨hne, hy⟩
    · cases hm'
    · have hmade := h.made c y hy hly hm'
      rw [hphase] at hmade
      exact absurd (Option.some.inj hmade) hne
  bounded := h.bounded
  phase := trivial

/-- The entry goes when its channel is that of the session. -/
theorem lookup_erase_own {table : Assoc Peer Nat} {peer : Peer} {i : Nat}
    (hown : ∀ p, table.lookup p = some i → p = peer) (p : Peer) (c : Nat) :
    (if table.lookup peer = some i then table.erase peer else table).lookup p = some c ↔
      c ≠ i ∧ table.lookup p = some c := by
  split
  · rename_i hi
    by_cases hp : p = peer
    · subst hp
      rw [AList.lookup_erase, hi]
      exact ⟨nofun, fun h => absurd (Option.some.inj h.2).symm h.1⟩
    · rw [AList.lookup_erase_ne hp]
      refine ⟨fun h => ⟨fun hc => hp (hown p ?_), h⟩, fun h => h.2⟩
      rw [h, hc]
  · rename_i hi
    refine ⟨fun h => ⟨fun hc => hi ?_, h⟩, fun h => h.2⟩
    subst hc
    rw [← hown p h]
    exact h

/-- A session of the listener has finished its cleanup. -/
theorem UdpListener.Kept.cleaned (h : q.Kept ss l) {i : Nat} {x : UdpSession Peer} (hx : ss[i]? = some x)
    (hphase : x.phase = .returned) {table : Assoc Peer Nat}
    (hkeep : ∀ p c, table.lookup p = some c ↔ c ≠ i ∧ q.table.lookup p = some c)
    (hlen : table.entries.length ≤ q.table.entries.length) :
    UdpListener.Kept (ss.set i { x with phase := .cleaned }) l { q with table := table } where
  entries p c hc := by
    obtain ⟨hne, hold⟩ := (hkeep p c).1 hc
    obtain ⟨y, hy, hrest⟩ := h.entries p c hold
    exact ⟨y, (set_eq_some hx).2 (.inr ⟨hne.symm, hy⟩), hrest⟩
  current c y hy hly hr := by
    rcases (set_eq_some hx).1 hy with ⟨-, rfl⟩ | ⟨hne, hy⟩
    · cases hr
    · exact (h.current c y hy hly hr).imp_left fun hc => (hkeep y.peer c).2 ⟨hne.symm, hc⟩
  made c y hy hly hm := by
    rcases (set_eq_some hx).1 hy with ⟨-, rfl⟩ | ⟨-, hy⟩
    · cases hm
    · exact h.made c y hy hly hm
  bounded := hlen.trans h.bounded
  phase := by
    refine h.phase.frame (fun c y hy hly => ?_) (fun p => ?_) hlen
    · by_cases hc : i = c
      · subst hc
        cases hx.symm.trans hy
        exact ⟨_, (set_eq_some hx).2 (.inl ⟨rfl, rfl⟩), rfl, rfl, nofun,
          iff_of_false UdpPhase.noConfusion (by rw [hphase]; exact UdpPhase.noConfusion)⟩
      · exact ⟨y, (set_eq_some hx).2 (.inr ⟨hc, hy⟩), (Continues.refl y).toFollows⟩
    · cases hp : table.lookup p with
      | none => exact .inl rfl
      | some c => exact .inr ((hkeep p c).1 hp).2.symm

/-! ## The invariant of the server -/

structure UdpServer.Kept (s : UdpServer Peer) : Prop where
  listeners : ∀ (l : Nat) (q : UdpListener Peer), s.listeners[l]? = some q → q.Kept s.sessions l
  owned : ∀ (i : Nat) (x : UdpSession Peer), s.sessions[i]? = some x → x.listener < s.listeners.length
  permits : s.permits + s.sessions.countP (·.phase.permitted) = MAX_UDP_SESSIONS_TOTAL

variable {s : UdpServer Peer}

/-- A session of the listener changes with it. -/
theorem UdpServer.Kept.update (h : s.Kept) {q' : UdpListener Peer} {i : Nat} {x x' : UdpSession Peer}
    (hq : s.listeners[l]? = some q) (hx : s.sessions[i]? = some x) (hl : x.listener = l) (hl' : x'.listener = l)
    (hp : x'.phase.permitted = x.phase.permitted) (hq' : q'.Kept (s.sessions.set i x') l) :
    ((s.setSession i x').setListener l q').Kept where
  listeners k r hr := by
    rcases (set_eq_some hq).1 hr with ⟨rfl, rfl⟩ | ⟨hk, hr⟩
    · exact hq'
    · exact (h.listeners k r hr).set hx (hl'.trans hl.symm) fun hlk => absurd (hl.symm.trans hlk) hk
  owned k y hy := by
    rw [show ((s.setSession i x').setListener l q').listeners.length = s.listeners.length from List.length_set]
    rcases (set_eq_some hx).1 hy with ⟨rfl, rfl⟩ | ⟨-, hy⟩
    · exact hl' ▸ (List.getElem?_eq_some_iff.1 hq).1
    · exact h.owned k y hy
  permits := by
    have hcount := @countP_set _ (fun y : UdpSession Peer => y.phase.permitted) _ _ _ x' hx
    rw [hp] at hcount
    have hpermits := h.permits
    show s.permits + (s.sessions.set i x').countP (·.phase.permitted) = _
    omega

/-- Only the listener changes. -/
theorem UdpServer.Kept.setListener (h : s.Kept) {q' : UdpListener Peer} (hq : s.listeners[l]? = some q)
    (hq' : q'.Kept s.sessions l) : (s.setListener l q').Kept where
  listeners k r hr := by
    rcases (set_eq_some hq).1 hr with ⟨rfl, rfl⟩ | ⟨-, hr⟩
    · exact hq'
    · exact h.listeners k r hr
  owned k y hy := by
    rw [show (s.setListener l q').listeners.length = s.listeners.length from List.length_set]
    exact h.owned k y hy
  permits := h.permits

/-- Only a session changes. -/
theorem UdpServer.Kept.setSession (h : s.Kept) {i : Nat} {x x' : UdpSession Peer} (hx : s.sessions[i]? = some x)
    (hf : Continues x x') {permits : Nat}
    (hp : permits + (if x'.phase.permitted then 1 else 0) = s.permits + (if x.phase.permitted then 1 else 0)) :
    UdpServer.Kept { s.setSession i x' with permits := permits } where
  listeners k r hr := (h.listeners k r hr).set hx hf.listener fun _ => hf
  owned k y hy := by
    rcases (set_eq_some hx).1 hy with ⟨rfl, rfl⟩ | ⟨-, hy⟩
    · exact hf.listener ▸ h.owned i x hx
    · exact h.owned k y hy
  permits := by
    have hcount := @countP_set _ (fun y : UdpSession Peer => y.phase.permitted) _ _ _ x' hx
    have hpermits := h.permits
    show permits + (s.sessions.set i x').countP (·.phase.permitted) = _
    omega

/-- A channel is made for a peer without an entry. -/
theorem UdpServer.Kept.acquired (h : s.Kept) (hq : s.listeners[l]? = some q) {peer : Peer} {datagram : Datagram}
    (hphase : q.phase = .acquiring peer datagram) (hpos : s.permits ≠ 0) {x : UdpSession Peer}
    (hl : x.listener = l) (hpeer : x.peer = peer) (hm : x.phase = .made) :
    ((s.addSession x).setListener l (q.to (.inserting peer s.sessions.length))).Kept where
  listeners k r hr := by
    rcases (set_eq_some hq).1 hr with ⟨rfl, rfl⟩ | ⟨hk, hr⟩
    · have hkept := h.listeners l q hq
      have hp := hkept.phase
      rw [hphase] at hp
      refine ⟨fun p channel hlook => ?_, fun channel y hy hly hry => ?_, fun channel y hy hly hmy => ?_,
        hkept.bounded, hp.1, hp.2, x, concat_eq_some.2 (.inr ⟨rfl, rfl⟩), hl, hpeer, hm⟩
      · obtain ⟨y, hy, hrest⟩ := hkept.entries p channel hlook
        exact ⟨y, concat_eq_some.2 (.inl hy), hrest⟩
      · rcases concat_eq_some.1 hy with hy | ⟨rfl, rfl⟩
        · refine .inl ((hkept.current channel y hy hly hry).resolve_right fun hins => ?_)
          rw [hphase] at hins
          cases hins
        · exact .inr (by rw [hpeer]; rfl)
      · rcases concat_eq_some.1 hy with hy | ⟨rfl, -⟩
        · have hmade := hkept.made channel y hy hly hmy
          rw [hphase] at hmade
          cases hmade
        · rfl
    · exact (h.listeners k r hr).append (by rw [hl]; exact hk)
  owned k y hy := by
    show y.listener < (s.listeners.set l _).length
    rw [List.length_set]
    rcases concat_eq_some.1 hy with hy | ⟨-, rfl⟩
    · exact h.owned k y hy
    · exact hl ▸ (List.getElem?_eq_some_iff.1 hq).1
  permits := by
    have hpermits := h.permits
    show s.permits - 1 + (s.sessions ++ [x]).countP (·.phase.permitted) = _
    have hone : (if x.phase.permitted then 1 else 0) = 1 := by rw [hm]; rfl
    rw [List.countP_append, List.countP_singleton, hone]
    omega

/-- **One step of a listener.** -/
theorem UdpServer.Kept.advance (h : s.Kept) {t : UdpServer Peer} (hq : s.listeners[l]? = some q)
    (hs : s.advance l q = some t) : t.Kept := by
  have hkept := h.listeners l q hq
  have hp := hkept.phase
  cases UdpServer.advance_cases hs with
  | @found peer datagram channel hphase hlook =>
    obtain ⟨x, hx, hlx, -⟩ := hkept.entries peer channel hlook
    exact h.setListener hq (hkept.to (by rw [hphase]; rfl) ⟨.inr hlook, x, hx, hlx⟩)
  | unknown hphase hlook => exact h.setListener hq (hkept.to (by rw [hphase]; rfl) hlook)
  | @sent peer datagram channel x hphase hx =>
    have hf : Continues x { x with queue := x.queue ++ [datagram], handed := x.handed ++ [datagram] } :=
      ⟨⟨rfl, rfl, id, .rfl⟩, id⟩
    have hset := h.setSession hx hf (rfl : s.permits + _ = _)
    exact hset.setListener hq ((hset.listeners l q hq).to (by rw [hphase]; rfl) trivial)
  | @closed peer datagram channel x hphase hx hclosed =>
    rw [hphase] at hp
    obtain ⟨hlook, y, hy, hly⟩ := hp
    cases hx.symm.trans hy
    exact h.setListener hq (hkept.to (by rw [hphase]; rfl) ⟨hlook, x, hx, hly, hclosed⟩)
  | removed hphase =>
    rw [hphase] at hp
    obtain ⟨hlook, x, hx, hlx, hclosed⟩ := hp
    exact h.setListener hq (hkept.removed (by rw [hphase]; rfl) hlook hx hclosed)
  | admitted hphase hlt =>
    rw [hphase] at hp
    exact h.setListener hq (hkept.to (by rw [hphase]; rfl) ⟨hp, hlt⟩)
  | acquired hphase hpos => exact h.acquired hq hphase hpos rfl rfl rfl
  | inserted hphase => exact h.setListener hq (hkept.inserted hphase)
  | spawned hphase hx =>
    rw [hphase] at hp
    obtain ⟨y, hy, hly, hm⟩ := hp
    cases hx.symm.trans hy
    exact h.update hq hx hly hly (by rw [hm]; rfl) (hkept.spawned hphase hx hly hm)
  | dropped hi => exact h.setListener hq (hkept.to hi trivial)

/-- **The cleanup of a session.** It takes away the entry of the peer only when it is its own. -/
theorem UdpServer.Kept.cleanup (h : s.Kept) {i : Nat} {t : UdpServer Peer} (hs : s.step (.cleanup i) = some t) :
    t.Kept := by
  obtain ⟨x, q, hx, hphase, hq, rfl⟩ := UdpServer.cleanup_ok hs
  have hkept := h.listeners x.listener q hq
  refine h.update hq hx rfl rfl (by rw [hphase]; rfl)
    (hkept.cleaned hx hphase (lookup_erase_own fun p hp => ?_) ?_)
  · obtain ⟨y, hy, -, hpeer, -⟩ := hkept.entries p i hp
    cases hx.symm.trans hy
    exact hpeer.symm
  · split
    · exact (List.kerase_sublist x.peer q.table.entries).length_le
    · exact Nat.le_refl _

theorem UdpServer.Kept.listen (h : s.Kept) :
    UdpServer.Kept { s with listeners := s.listeners ++ [⟨.selecting, ∅⟩] } where
  listeners l q hq := by
    rcases concat_eq_some.1 hq with hq | ⟨rfl, rfl⟩
    · exact h.listeners l q hq
    · have hnone {c : Nat} {x : UdpSession Peer} (hx : s.sessions[c]? = some x)
          (hl : x.listener = s.listeners.length) : False := by
        have := h.owned c x hx
        omega
      refine ⟨fun p c hc => ?_, fun c x hx hl => (hnone hx hl).elim, fun c x hx hl => (hnone hx hl).elim,
        Nat.zero_le _, trivial⟩
      rw [AList.lookup_empty] at hc
      cases hc
  owned i x hx := by
    have := h.owned i x hx
    show x.listener < (s.listeners ++ [_]).length
    rw [List.length_append]
    omega
  permits := h.permits

theorem UdpServer.start_kept : (UdpServer.start : UdpServer Peer).Kept where
  listeners l q hq := by cases hq
  owned i x hx := by cases hx
  permits := rfl

/-- **Every step keeps the invariant.** -/
theorem UdpServer.Kept.step (h : s.Kept) {act : UdpAct Peer} {t : UdpServer Peer} (hs : s.step act = some t) :
    t.Kept := by
  cases act
  case cleanup i => exact h.cleanup hs
  all_goals simp only [UdpServer.step] at hs
  case listen =>
    cases hs
    exact h.listen
  case receive l result =>
    obtain ⟨q, hq, hs⟩ := Option.bind_eq_some_iff.1 hs
    split at hs
    · rename_i peer data hphase _
      cases hs
      have hp : (ListenPhase.received peer ⟨s.received, data⟩).Kept s.sessions l q.table := trivial
      have hr := h.setListener hq ((h.listeners l q hq).to (by rw [hphase]; rfl) hp)
      exact ⟨hr.listeners, hr.owned, hr.permits⟩
    · cases hs
      exact h
    · cases hs
  case stop l =>
    obtain ⟨q, hq, hs⟩ := Option.bind_eq_some_iff.1 hs
    split at hs
    · rename_i hphase
      cases hs
      refine h.setListener hq ((h.listeners l q hq).to (by rw [hphase]; rfl) ?_)
      trivial
    · cases hs
  case advance l =>
    obtain ⟨q, hq, hs⟩ := Option.bind_eq_some_iff.1 hs
    exact h.advance hq hs
  case run i act =>
    obtain ⟨x, hx, hs⟩ := Option.bind_eq_some_iff.1 hs
    obtain ⟨x', hrun, rfl⟩ := Option.map_eq_some_iff.1 hs
    obtain ⟨hr, hm, phase, queue, hu, hm', rfl⟩ := UdpSession.run_ok hrun
    refine h.setSession hx (UdpSession.moved hr hm hu hm') (?_ : s.permits + _ = _)
    rw [UdpPhase.permitted_of_unfinished hu,
      UdpPhase.permitted_of_unfinished (UdpPhase.unfinished_of_receives hr)]
  case release i =>
    obtain ⟨x, hx, hs⟩ := Option.bind_eq_some_iff.1 hs
    split at hs
    · rename_i hphase
      cases hs
      have hf : Continues x { x with phase := .ended } := by
        refine ⟨⟨rfl, rfl, fun hr => ?_, iff_of_false UdpPhase.noConfusion ?_⟩, fun hu => ?_⟩
        · cases hr
        · rw [hphase]
          exact UdpPhase.noConfusion
        · rw [hphase] at hu
          cases hu
      refine h.setSession hx hf ?_
      rw [hphase]
      rfl
    · cases hs

theorem udpServer_inductive : (udpServer Peer).Inductive UdpServer.Kept where
  init _ hs := hs ▸ UdpServer.start_kept
  step _ _ _ h hs := h.step hs

end

end OrangeFrp.Controller
