import Mathlib.Data.List.Sort
import OrangeFrp.Controller.UdpTable

/-!
# What UDP sessions pass on (`frp-game-server/src/controller.rs`)

The tasks of `UdpSessions` with their datagrams: what arrived at each listener, what
each session sent to the tunnel's backend and to its peer, and which sizes it reported.
Between its receipt and its report a datagram waits for the gate and for the socket,
and the session may end at either.

* `traffic_refines`: a step is one of the server without the contents, or none of it.
* `UdpServer.Ordered`: channels are handed what arrived from their peer, in order.
* `Carried`: what a session sent, what it has in hand and what waits in its channel.
* `udp_traffic_kept`: the peer's datagrams reach the backend as they came, and back.
-/
namespace OrangeFrp.Controller

open OrangeFrp.Core

variable {Peer : Type}

/-! ## What arrives -/

/-- A datagram as `recv_from` gives it.
mirrors crates/frp-game-server/src/controller.rs:472-479 -/
structure Arrival (Peer : Type) where
  listener : Nat
  peer : Peer
  datagram : Datagram

def UdpServer.arrives (s : UdpServer Peer) : UdpAct Peer → List (Arrival Peer)
  | .receive l (some (peer, data)) => [⟨l, peer, ⟨s.received, data⟩⟩]
  | _ => []

/-- The datagram in hand, with its sender. -/
def ListenPhase.inHand : ListenPhase Peer → Option (Peer × Datagram)
  | .received peer d | .sending peer d _ | .removing peer d _ | .checking peer d | .acquiring peer d =>
    some (peer, d)
  | _ => none

/-- The session that a listener has found for a peer is one of that peer. -/
def UdpServer.Targets (s : UdpServer Peer) (l : Nat) (q : UdpListener Peer) : Prop :=
  ∀ (peer : Peer) (d : Datagram) (channel : Nat), q.phase = .sending peer d channel →
    ∃ x, s.sessions[channel]? = some x ∧ x.listener = l ∧ x.peer = peer

/-- Channels are handed datagrams of their listener and peer, in the order of arrival, and a
listener has in hand what is newer than all it handed on. -/
structure UdpServer.Ordered (s : UdpServer Peer) (arrived : List (Arrival Peer)) : Prop where
  increasing : (arrived.map fun a => a.datagram.number).Pairwise (· < ·)
  known : ∀ a ∈ arrived, a.datagram.number < s.received
  hand : ∀ (l : Nat) (q : UdpListener Peer) (peer : Peer) (d : Datagram), s.listeners[l]? = some q →
    q.phase.inHand = some (peer, d) → ⟨l, peer, d⟩ ∈ arrived ∧
      ∀ (i : Nat) (x : UdpSession Peer), s.sessions[i]? = some x → x.listener = l →
        ∀ e ∈ x.handed, e.number < d.number
  target : ∀ (l : Nat) (q : UdpListener Peer), s.listeners[l]? = some q → s.Targets l q
  handed : ∀ (i : Nat) (x : UdpSession Peer), s.sessions[i]? = some x →
    (x.handed.map (·.number)).Pairwise (· < ·) ∧ ∀ d ∈ x.handed, ⟨x.listener, x.peer, d⟩ ∈ arrived

theorem UdpServer.start_ordered : (UdpServer.start : UdpServer Peer).Ordered [] where
  increasing := .nil
  known := nofun
  hand _ _ _ _ hq := nomatch hq
  target _ _ hq := nomatch hq
  handed _ _ hx := nomatch hx

variable {s t : UdpServer Peer} {arrived : List (Arrival Peer)} {l : Nat} {q : UdpListener Peer}

/-- The session is that of before, as far as its channel goes. -/
structure SameChannel (x x' : UdpSession Peer) : Prop where
  listener : x'.listener = x.listener
  peer : x'.peer = x.peer
  handed : x'.handed = x.handed

theorem SameChannel.refl (x : UdpSession Peer) : SameChannel x x := ⟨rfl, rfl, rfl⟩

/-- One listener goes on with what it has in hand, or drops it. -/
theorem UdpServer.Ordered.setListener (h : s.Ordered arrived) (hq : s.listeners[l]? = some q)
    {q' : UdpListener Peer} (hd : q'.phase.inHand = none ∨ q'.phase.inHand = q.phase.inHand)
    (ht : s.Targets l q') : (s.setListener l q').Ordered arrived where
  increasing := h.increasing
  known := h.known
  hand := by
    intro k p peer d hp hin
    rcases (set_eq_some hq).1 hp with ⟨rfl, rfl⟩ | ⟨-, hp⟩
    · rcases hd with hnone | hsame
      · rw [hnone] at hin
        cases hin
      · exact h.hand l q peer d hq (hsame.symm.trans hin)
    · exact h.hand k p peer d hp hin
  target := by
    intro k p hp
    rcases (set_eq_some hq).1 hp with ⟨rfl, rfl⟩ | ⟨-, hp⟩
    · exact ht
    · exact h.target k p hp
  handed := h.handed

/-- One session goes on, its channel as it is. -/
theorem UdpServer.Ordered.setSession (h : s.Ordered arrived) {i : Nat} {x : UdpSession Peer}
    (x' : UdpSession Peer) (hx : s.sessions[i]? = some x) (hc : SameChannel x x') : (s.setSession i x').Ordered arrived where
  increasing := h.increasing
  known := h.known
  hand := by
    intro k p peer d hp hin
    obtain ⟨harr, hnew⟩ := h.hand k p peer d hp hin
    refine ⟨harr, fun j y hy hl e he => ?_⟩
    rcases (set_eq_some hx).1 hy with ⟨rfl, rfl⟩ | ⟨-, hy⟩
    · exact hnew i x hx (hc.listener.symm.trans hl) e (hc.handed ▸ he)
    · exact hnew j y hy hl e he
  target := by
    intro k p hp peer d channel hphase
    obtain ⟨y, hy, hl, hpeer⟩ := h.target k p hp peer d channel hphase
    by_cases hi : i = channel
    · subst hi
      cases hx.symm.trans hy
      exact ⟨x', (set_eq_some hx).2 (.inl ⟨rfl, rfl⟩), hc.listener.trans hl, hc.peer.trans hpeer⟩
    · exact ⟨y, (set_eq_some hx).2 (.inr ⟨hi, hy⟩), hl, hpeer⟩
  handed := by
    intro j y hy
    rcases (set_eq_some hx).1 hy with ⟨rfl, rfl⟩ | ⟨-, hy⟩
    · rw [hc.handed, hc.listener, hc.peer]
      exact h.handed i x hx
    · exact h.handed j y hy

theorem UdpServer.Ordered.permits (h : s.Ordered arrived) (permits : Nat) :
    ({ s with permits := permits } : UdpServer Peer).Ordered arrived :=
  ⟨h.increasing, h.known, h.hand, h.target, h.handed⟩

/-- What a listener hands on is newer than what it has handed on to anybody. -/
theorem UdpServer.Ordered.append_handed (h : s.Ordered arrived) (hq : s.listeners[l]? = some q) {peer : Peer}
    {d : Datagram} (hd : q.phase.inHand = some (peer, d)) (old : List Datagram)
    (hold : (old.map (·.number)).Pairwise (· < ·) ∧ ∀ e ∈ old, ⟨l, peer, e⟩ ∈ arrived ∧ e.number < d.number) :
    ((old ++ [d]).map (·.number)).Pairwise (· < ·) ∧ ∀ e ∈ old ++ [d], ⟨l, peer, e⟩ ∈ arrived := by
  refine ⟨?_, fun e he => ?_⟩
  · rw [List.map_append, List.pairwise_append]
    refine ⟨hold.1, List.pairwise_singleton .., fun n hn m hm => ?_⟩
    obtain ⟨e, he, rfl⟩ := List.mem_map.1 hn
    cases List.mem_singleton.1 hm
    exact (hold.2 e he).2
  · rcases List.mem_append.1 he with he | he
    · exact (hold.2 e he).1
    · rw [List.mem_singleton.1 he]
      exact (h.hand l q peer d hq hd).1

/-- The datagram in hand goes into the channel that was found. -/
theorem UdpServer.Ordered.sent (h : s.Ordered arrived) (hq : s.listeners[l]? = some q) {peer : Peer} {d : Datagram}
    {channel : Nat} {x : UdpSession Peer} (hphase : q.phase = .sending peer d channel)
    (hx : s.sessions[channel]? = some x) :
    ((s.setSession channel { x with queue := x.queue ++ [d], handed := x.handed ++ [d] }).setListener l
      (q.to .selecting)).Ordered arrived := by
  obtain ⟨y, hy, hl, hpeer⟩ := h.target l q hq peer d channel hphase
  cases hx.symm.trans hy
  have hin : q.phase.inHand = some (peer, d) := by rw [hphase]; rfl
  obtain ⟨-, hnew⟩ := h.hand l q peer d hq hin
  refine ⟨h.increasing, h.known, fun k p peer' d' hp hin' => ?_, fun k p hp peer' d' channel' hphase' => ?_,
    fun j y hy => ?_⟩
  · rcases (set_eq_some hq).1 hp with ⟨rfl, rfl⟩ | ⟨hne, hp⟩
    · cases hin'
    · obtain ⟨harr, hnew'⟩ := h.hand k p peer' d' hp hin'
      refine ⟨harr, fun j y hy hyl e he => ?_⟩
      rcases (set_eq_some hx).1 hy with ⟨rfl, rfl⟩ | ⟨-, hy⟩
      · exact absurd (hl.symm.trans hyl) hne
      · exact hnew' j y hy hyl e he
  · rcases (set_eq_some hq).1 hp with ⟨rfl, rfl⟩ | ⟨-, hp⟩
    · cases hphase'
    · obtain ⟨y, hy, hyl, hyp⟩ := h.target k p hp peer' d' channel' hphase'
      by_cases hi : channel = channel'
      · subst hi
        cases hx.symm.trans hy
        exact ⟨_, (set_eq_some hx).2 (.inl ⟨rfl, rfl⟩), hyl, hyp⟩
      · exact ⟨y, (set_eq_some hx).2 (.inr ⟨hi, hy⟩), hyl, hyp⟩
  · rcases (set_eq_some hx).1 hy with ⟨rfl, rfl⟩ | ⟨-, hy⟩
    · obtain ⟨hsorted, hmem⟩ := h.handed channel x hx
      have hmine : ∀ e ∈ x.handed, ⟨l, peer, e⟩ ∈ arrived := by
        rw [← hl, ← hpeer]
        exact hmem
      have hall := h.append_handed hq hin _ ⟨hsorted, fun e he => ⟨hmine e he, hnew channel x hx hl e he⟩⟩
      rw [← hl, ← hpeer] at hall
      exact hall
    · exact h.handed j y hy

/-- The datagram in hand goes into a new channel. -/
theorem UdpServer.Ordered.acquired (h : s.Ordered arrived) (hq : s.listeners[l]? = some q) {peer : Peer}
    {d : Datagram} (hphase : q.phase = .acquiring peer d) :
    ((s.addSession { UdpSession.new l peer with queue := [d], handed := [d] }).setListener l
      (q.to (.inserting peer s.sessions.length))).Ordered arrived := by
  have hin : q.phase.inHand = some (peer, d) := by rw [hphase]; rfl
  refine ⟨h.increasing, h.known, fun k p peer' d' hp hin' => ?_, fun k p hp peer' d' channel' hphase' => ?_,
    fun j y hy => ?_⟩
  · rcases (set_eq_some hq).1 hp with ⟨rfl, rfl⟩ | ⟨hne, hp⟩
    · cases hin'
    · obtain ⟨harr, hnew⟩ := h.hand k p peer' d' hp hin'
      refine ⟨harr, fun j y hy hyl e he => ?_⟩
      rcases concat_eq_some.1 hy with hy | ⟨-, rfl⟩
      · exact hnew j y hy hyl e he
      · exact absurd hyl hne
  · rcases (set_eq_some hq).1 hp with ⟨rfl, rfl⟩ | ⟨-, hp⟩
    · cases hphase'
    · obtain ⟨y, hy, hyl, hyp⟩ := h.target k p hp peer' d' channel' hphase'
      exact ⟨y, concat_eq_some.2 (.inl hy), hyl, hyp⟩
  · rcases concat_eq_some.1 hy with hy | ⟨-, rfl⟩
    · exact h.handed j y hy
    · exact h.append_handed hq hin [] ⟨.nil, nofun⟩

/-- A datagram arrives. -/
theorem UdpServer.Ordered.receive (h : s.Ordered arrived) (hq : s.listeners[l]? = some q)
    (hk : ∀ (i : Nat) (x : UdpSession Peer), s.sessions[i]? = some x → ∀ e ∈ x.handed, e.number < s.received)
    (peer : Peer) (data : Bytes) :
    ({ s.setListener l (q.to (.received peer ⟨s.received, data⟩)) with
      received := s.received + 1 } : UdpServer Peer).Ordered (arrived ++ [⟨l, peer, ⟨s.received, data⟩⟩]) := by
  refine ⟨?_, fun a ha => ?_, fun k p peer' d' hp hin' => ?_, fun k p hp => ?_, fun j y hy => ?_⟩
  · rw [List.map_append, List.pairwise_append]
    refine ⟨h.increasing, List.pairwise_singleton .., fun n hn m hm => ?_⟩
    obtain ⟨a, ha, rfl⟩ := List.mem_map.1 hn
    cases List.mem_singleton.1 hm
    exact h.known a ha
  · show a.datagram.number < s.received + 1
    rcases List.mem_append.1 ha with ha | ha
    · have := h.known a ha
      omega
    · rw [List.mem_singleton.1 ha]
      exact Nat.lt_succ_self _
  · rcases (set_eq_some hq).1 hp with ⟨rfl, rfl⟩ | ⟨-, hp⟩
    · cases hin'
      exact ⟨List.mem_append_right _ (List.mem_singleton.2 rfl), fun i x hx _ => hk i x hx⟩
    · obtain ⟨harr, hnew⟩ := h.hand k p peer' d' hp hin'
      exact ⟨List.mem_append_left _ harr, hnew⟩
  · rcases (set_eq_some hq).1 hp with ⟨rfl, rfl⟩ | ⟨-, hp⟩
    · exact fun _ _ _ => nofun
    · exact h.target k p hp
  · obtain ⟨hsorted, hmem⟩ := h.handed j y hy
    exact ⟨hsorted, fun e he => List.mem_append_left _ (hmem e he)⟩

theorem UdpServer.Ordered.handed_lt (h : s.Ordered arrived) (i : Nat) (x : UdpSession Peer)
    (hx : s.sessions[i]? = some x) (e : Datagram) (he : e ∈ x.handed) : e.number < s.received :=
  h.known _ ((h.handed i x hx).2 e he)

section
variable [DecidableEq Peer]

theorem UdpServer.Ordered.advance (h : s.Ordered arrived) (hkept : s.Kept) (hq : s.listeners[l]? = some q)
    (hs : s.advance l q = some t) : t.Ordered arrived := by
  cases UdpServer.advance_cases hs with
  | @found peer d channel hphase hlook =>
    refine h.setListener hq (.inr (by rw [hphase]; rfl)) fun peer' d' channel' hphase' => ?_
    obtain ⟨x, hx, hl, hp, -⟩ := hkept.entry hq hlook
    cases hphase'
    exact ⟨x, hx, hl, hp⟩
  | unknown hphase => exact h.setListener hq (.inr (by rw [hphase]; rfl)) fun _ _ _ => nofun
  | sent hphase hx => exact h.sent hq hphase hx
  | closed hphase => exact h.setListener hq (.inr (by rw [hphase]; rfl)) fun _ _ _ => nofun
  | removed hphase => exact h.setListener hq (.inr (by rw [hphase]; rfl)) fun _ _ _ => nofun
  | admitted hphase => exact h.setListener hq (.inr (by rw [hphase]; rfl)) fun _ _ _ => nofun
  | acquired hphase => exact h.acquired hq hphase
  | inserted => exact h.setListener hq (.inl rfl) fun _ _ _ => nofun
  | @spawned channel x hphase hx =>
    have hrun := h.setSession { x with phase := .binding } hx ⟨rfl, rfl, rfl⟩
    exact hrun.setListener hq (.inl rfl) fun _ _ _ => nofun
  | dropped => exact h.setListener hq (.inl rfl) fun _ _ _ => nofun

/-- **Every step keeps the order.** -/
theorem UdpServer.Ordered.step (h : s.Ordered arrived) (hkept : s.Kept) {act : UdpAct Peer}
    (hs : s.step act = some t) : t.Ordered (arrived ++ s.arrives act) := by
  have hnone (heq : t.Ordered arrived) (hact : s.arrives act = []) : t.Ordered (arrived ++ s.arrives act) := by
    rw [hact, List.append_nil]
    exact heq
  cases act
  case cleanup i =>
    obtain ⟨x, q, hx, -, hq, rfl⟩ := UdpServer.cleanup_ok hs
    have hclean := h.setSession { x with phase := .cleaned } hx ⟨rfl, rfl, rfl⟩
    refine hnone (hclean.setListener hq (.inr rfl) ?_) rfl
    exact fun peer d channel hphase => hclean.target x.listener q hq peer d channel hphase
  all_goals simp only [UdpServer.step] at hs
  case listen =>
    cases hs
    refine hnone ⟨h.increasing, h.known, fun l q peer d hq hin => ?_, fun l q hq => ?_, h.handed⟩ rfl
    · rcases concat_eq_some.1 hq with hq | ⟨-, rfl⟩
      · exact h.hand l q peer d hq hin
      · cases hin
    · rcases concat_eq_some.1 hq with hq | ⟨-, rfl⟩
      · exact h.target l q hq
      · intro peer channel made hp
        simp at hp
  case receive l result =>
    obtain ⟨q, hq, hs⟩ := Option.bind_eq_some_iff.1 hs
    split at hs
    · cases hs
      exact h.receive hq h.handed_lt _ _
    · cases hs
      exact hnone h rfl
    · cases hs
  case stop l =>
    obtain ⟨q, hq, hs⟩ := Option.bind_eq_some_iff.1 hs
    split at hs
    · cases hs
      have htargets : s.Targets l { q with phase := .stopped } := by
        intro peer channel d hp
        cases hp
      exact hnone (h.setListener hq (.inl rfl) htargets) rfl
    · cases hs
  case advance l =>
    obtain ⟨q, hq, hs⟩ := Option.bind_eq_some_iff.1 hs
    exact hnone (h.advance hkept hq hs) rfl
  case run i act =>
    obtain ⟨x, hx, hs⟩ := Option.bind_eq_some_iff.1 hs
    obtain ⟨x', hrun, rfl⟩ := Option.map_eq_some_iff.1 hs
    obtain ⟨-, -, phase, queue, -, -, rfl⟩ := UdpSession.run_ok hrun
    exact hnone (h.setSession _ hx ⟨rfl, rfl, rfl⟩) rfl
  case release i =>
    obtain ⟨x, hx, hs⟩ := Option.bind_eq_some_iff.1 hs
    split at hs
    · cases hs
      exact hnone ((h.setSession { x with phase := .ended } hx ⟨rfl, rfl, rfl⟩).permits _) rfl
    · cases hs

end

/-! ## What a session passes on -/

/-- From the channel to the backend, or from the backend to the peer. -/
inductive Packet where
  | inbound (datagram : Datagram)
  | outbound (data : Bytes)
  deriving DecidableEq

def Packet.direction : Packet → Direction
  | .inbound _ => .inbound
  | .outbound _ => .outbound

def Packet.size : Packet → Nat
  | .inbound d => d.data.length
  | .outbound data => data.length

/-- Where the packet in hand is. After a failure the session is over.
mirrors crates/frp-game-server/src/controller.rs:551-591 -/
inductive PassStage where
  | idle
  | reserving (packet : Packet)
  | sending (packet : Packet)
  | reporting (packet : Packet)
  | failed (packet : Packet)
  deriving DecidableEq

/-- What a session sent to the backend, what it received from it, what of that it sent to
the peer, and the sizes in its events. -/
structure UdpFlow where
  stage : PassStage
  sent : List Datagram
  replies : List Bytes
  relayed : List Bytes
  reported : List (Direction × Nat)

namespace UdpFlow

def new : UdpFlow := ⟨.idle, [], [], [], []⟩

/-- `backend.send` and `public.send_to`.
mirrors crates/frp-game-server/src/controller.rs:561-563,578-580 -/
def pass (f : UdpFlow) (packet : Packet) : UdpFlow :=
  match packet with
  | .inbound d => { f with stage := .reporting packet, sent := f.sent ++ [d] }
  | .outbound data => { f with stage := .reporting packet, relayed := f.relayed ++ [data] }

/-- mirrors crates/frp-game-server/src/controller.rs:564-571,581-588 -/
def report (f : UdpFlow) (packet : Packet) : UdpFlow :=
  { f with stage := .idle, reported := f.reported ++ [(packet.direction, packet.size)] }

end UdpFlow

/-- The server with what its sessions pass on, by their channels. -/
structure UdpTraffic (Peer : Type) where
  server : UdpServer Peer
  flows : Nat → UdpFlow
  arrived : List (Arrival Peer)

/-- `outer` is what a session does before its loop, and all that is done outside of it. -/
inductive TrafficAct (Peer : Type) where
  | outer (act : UdpAct Peer)
  | quit (channel : Nat)
  | take (channel : Nat)
  | reply (channel : Nat) (data : Bytes)
  | reserve (channel : Nat) (ok : Bool)
  | transmit (channel : Nat) (ok : Bool)
  | report (channel : Nat)

def UdpAct.outer : UdpAct Peer → Bool
  | .run _ (.bind _) | .run _ (.connect _) => true
  | .run _ _ => false
  | _ => true

namespace UdpTraffic

def start : UdpTraffic Peer := ⟨.start, fun _ => .new, []⟩

def setFlow (s : UdpTraffic Peer) (i : Nat) (f : UdpFlow) : UdpTraffic Peer :=
  { s with flows := Function.update s.flows i f }

variable [DecidableEq Peer]

/-- A step of the session's loop, with what it passes on. -/
def inner (s : UdpTraffic Peer) (i : Nat) (act : UdpSessionAct) (f : UdpFlow) : Option (UdpTraffic Peer) :=
  (s.server.step (.run i act)).map fun server => { s.setFlow i f with server := server }

/-- mirrors crates/frp-game-server/src/controller.rs:459-592 -/
def step (s : UdpTraffic Peer) : TrafficAct Peer → Option (UdpTraffic Peer)
  | .outer act =>
    if act.outer = true then
      (s.server.step act).map fun server =>
        { s with server := server, arrived := s.arrived ++ s.server.arrives act }
    else none
  | .quit i => if (s.flows i).stage = .idle then s.inner i .stop (s.flows i) else none
  | .take i =>
    ((s.server.sessions[i]?).bind (·.queue.head?)).bind fun d =>
      s.inner i .receive { s.flows i with stage := .reserving (.inbound d) }
  | .reply i data =>
    s.inner i .respond
      { s.flows i with stage := .reserving (.outbound data), replies := (s.flows i).replies ++ [data] }
  | .reserve i ok =>
    match (s.flows i).stage with
    | .reserving packet =>
      if ok then some (s.setFlow i { s.flows i with stage := .sending packet })
      else s.inner i .stop { s.flows i with stage := .failed packet }
    | _ => none
  | .transmit i ok =>
    match (s.flows i).stage with
    | .sending packet =>
      if ok then some (s.setFlow i ((s.flows i).pass packet))
      else s.inner i .stop { s.flows i with stage := .failed packet }
    | _ => none
  | .report i =>
    match (s.flows i).stage with
    | .reporting packet => s.inner i .pass ((s.flows i).report packet)
    | _ => none

end UdpTraffic

def udpTraffic (Peer : Type) [DecidableEq Peer] : LTS (UdpTraffic Peer) (TrafficAct Peer) :=
  LTS.ofFn (· = UdpTraffic.start) UdpTraffic.step

theorem UdpSession.stop_ok {x x' : UdpSession Peer} (h : x.run .stop = some x') :
    x' = { x with phase := .returned } := by
  simp only [UdpSession.run] at h
  split at h <;> cases h
  · rfl
  · rfl

/-! ## The server without the contents -/

section
variable [DecidableEq Peer]

/-- What one step of a session's loop does to the session and to what it passes on. -/
inductive FlowMoves (x : UdpSession Peer) (f : UdpFlow) : UdpSession Peer → UdpFlow → Prop
  | quit : f.stage = .idle → FlowMoves x f { x with phase := .returned } f
  | taken {d : Datagram} {queue : List Datagram} : x.phase = .waiting → x.queue = d :: queue →
    FlowMoves x f { x with phase := .passing .inbound, queue := queue } { f with stage := .reserving (.inbound d) }
  | replied (data : Bytes) : x.phase = .waiting →
    FlowMoves x f { x with phase := .passing .outbound }
      { f with stage := .reserving (.outbound data), replies := f.replies ++ [data] }
  | reserved {packet : Packet} : f.stage = .reserving packet →
    FlowMoves x f x { f with stage := .sending packet }
  | passed {packet : Packet} : f.stage = .sending packet → FlowMoves x f x (f.pass packet)
  | failed {packet : Packet} : f.stage = .reserving packet ∨ f.stage = .sending packet →
    FlowMoves x f { x with phase := .returned } { f with stage := .failed packet }
  | reported {packet : Packet} : f.stage = .reporting packet →
    FlowMoves x f { x with phase := .waiting } (f.report packet)

/-- The steps, by what they touch. -/
inductive UdpTraffic.Steps (s : UdpTraffic Peer) : UdpTraffic Peer → Prop
  | outer {act : UdpAct Peer} {server : UdpServer Peer} : act.outer = true → s.server.step act = some server →
    Steps s { s with server := server, arrived := s.arrived ++ s.server.arrives act }
  | inner {i : Nat} {act : UdpSessionAct} {x x' : UdpSession Peer} {f : UdpFlow} :
    s.server.sessions[i]? = some x → s.server.step (.run i act) = some (s.server.setSession i x') →
    FlowMoves x (s.flows i) x' f →
    Steps s ⟨s.server.setSession i x', Function.update s.flows i f, s.arrived⟩
  | flow {i : Nat} {f : UdpFlow} : (s.flows i).stage ≠ .idle →
    (∀ x : UdpSession Peer, FlowMoves x (s.flows i) x f) → Steps s (s.setFlow i f)

theorem UdpTraffic.inner_steps {s t : UdpTraffic Peer} {i : Nat} {act : UdpSessionAct} {f : UdpFlow}
    (h : s.inner i act f = some t)
    (hm : ∀ x x', s.server.sessions[i]? = some x → x.run act = some x' → FlowMoves x (s.flows i) x' f) :
    s.Steps t := by
  obtain ⟨server, hserver, rfl⟩ := Option.map_eq_some_iff.1 h
  obtain ⟨x, hx, hsome⟩ := Option.bind_eq_some_iff.1 hserver
  obtain ⟨x', hrun, rfl⟩ := Option.map_eq_some_iff.1 hsome
  exact .inner hx hserver (hm x x' hx hrun)

theorem UdpTraffic.step_steps {s t : UdpTraffic Peer} {act : TrafficAct Peer} (h : s.step act = some t) :
    s.Steps t := by
  cases act <;> simp only [UdpTraffic.step] at h
  case outer act =>
    split at h
    · rename_i hout
      obtain ⟨server, hserver, rfl⟩ := Option.map_eq_some_iff.1 h
      exact .outer hout hserver
    · cases h
  case quit i =>
    split at h
    · rename_i hidle
      refine UdpTraffic.inner_steps h fun x x' hx hrun => ?_
      rw [UdpSession.stop_ok hrun]
      exact .quit hidle
    · cases h
  case take i =>
    obtain ⟨d, hd, h⟩ := Option.bind_eq_some_iff.1 h
    obtain ⟨y, hy, hd⟩ := Option.bind_eq_some_iff.1 hd
    refine UdpTraffic.inner_steps h fun x x' hx hrun => ?_
    cases hx.symm.trans hy
    simp only [UdpSession.run] at hrun
    split at hrun
    · rename_i e queue hphase hqueue
      rw [hqueue] at hd
      cases hd
      cases hrun
      exact .taken hphase hqueue
    · cases hrun
  case reply i data =>
    refine UdpTraffic.inner_steps h fun x x' hx hrun => ?_
    simp only [UdpSession.run] at hrun
    split at hrun
    · rename_i hphase
      cases hrun
      exact .replied data hphase
    · cases hrun
  case reserve i ok =>
    split at h
    · rename_i packet hstage
      cases ok with
      | true =>
        cases h
        exact .flow (by simp [hstage]) fun _ => .reserved hstage
      | false =>
        refine UdpTraffic.inner_steps h fun x x' hx hrun => ?_
        rw [UdpSession.stop_ok hrun]
        exact .failed (.inl hstage)
    · cases h
  case transmit i ok =>
    split at h
    · rename_i packet hstage
      cases ok with
      | true =>
        cases h
        exact .flow (by simp [hstage]) fun _ => .passed hstage
      | false =>
        refine UdpTraffic.inner_steps h fun x x' hx hrun => ?_
        rw [UdpSession.stop_ok hrun]
        exact .failed (.inr hstage)
    · cases h
  case report i =>
    split at h
    · rename_i packet hstage
      refine UdpTraffic.inner_steps h fun x x' hx hrun => ?_
      simp only [UdpSession.run] at hrun
      split at hrun
      · cases hrun
        exact .reported hstage
      · cases hrun
    · cases h

/-- **The contents change nothing.** A step is one of the server, or none of it. -/
theorem traffic_refines {s : UdpTraffic Peer} (h : (udpTraffic Peer).Reachable s) :
    (udpServer Peer).Reachable s.server := by
  obtain ⟨s₀, acts, hinit, hrun⟩ := h
  have hstart : (udpServer Peer).Reachable s₀.server := by
    rw [show s₀ = UdpTraffic.start from hinit]
    exact LTS.reachable_init rfl
  refine hrun.keeps (I := fun s => (udpServer Peer).Reachable s.server) (fun s act t hs hst => ?_) hstart
  cases UdpTraffic.step_steps hst with
  | outer _ hserver => exact LTS.Reachable.step hs hserver
  | inner _ hserver _ => exact LTS.Reachable.step hs hserver
  | flow => exact hs

end

/-! ## What is sent, in hand and waiting -/

def PassStage.unsent : PassStage → List Datagram
  | .reserving (.inbound d) | .sending (.inbound d) | .failed (.inbound d) => [d]
  | _ => []

def PassStage.unrelayed : PassStage → List Bytes
  | .reserving (.outbound data) | .sending (.outbound data) | .failed (.outbound data) => [data]
  | _ => []

/-- A packet that was sent and has no event yet. -/
def PassStage.unreported : PassStage → List (Direction × Nat)
  | .reporting packet => [(packet.direction, packet.size)]
  | _ => []

/-- The session is in the loop's body exactly while there is a packet in hand. -/
def PassStage.Matches (phase : UdpPhase) : PassStage → Prop
  | .idle => ∀ direction, phase ≠ .passing direction
  | .reserving packet | .sending packet | .reporting packet => phase = .passing packet.direction
  | .failed _ => phase.receives = false

def sizes (direction : Direction) (reported : List (Direction × Nat)) : List Nat :=
  (reported.filter fun r => r.1 = direction).map (·.2)

/-- What became of all that was handed to the channel and came from the backend. -/
structure Carried (x : UdpSession Peer) (f : UdpFlow) : Prop where
  phase : f.stage.Matches x.phase
  inbound : x.handed = f.sent ++ f.stage.unsent ++ x.queue
  outbound : f.replies = f.relayed ++ f.stage.unrelayed
  uploaded : sizes .inbound (f.reported ++ f.stage.unreported) = f.sent.map (·.data.length)
  downloaded : sizes .outbound (f.reported ++ f.stage.unreported) = f.relayed.map List.length

theorem sizes_append (direction : Direction) (a b : List (Direction × Nat)) :
    sizes direction (a ++ b) = sizes direction a ++ sizes direction b := by
  simp [sizes]

section
variable {x x' : UdpSession Peer} {f f' : UdpFlow}

/-- A session that waits has nothing in hand. -/
theorem Carried.idle (h : Carried x f) (hphase : x.phase = .waiting) : f.stage = .idle := by
  have hm := h.phase
  rw [hphase] at hm
  cases hstage : f.stage with
  | idle => rfl
  | failed packet =>
    rw [hstage] at hm
    cases hm
  | _ packet =>
    rw [hstage] at hm
    cases hm

theorem Carried.moves (h : Carried x f) (hm : FlowMoves x f x' f') : Carried x' f' := by
  obtain ⟨hphase, hin, hout, hup, hdown⟩ := h
  cases hm with
  | quit hidle =>
    refine ⟨?_, hin, hout, hup, hdown⟩
    rw [hidle]
    exact fun _ => nofun
  | @taken d queue hwait hqueue =>
    have hidle := Carried.idle ⟨hphase, hin, hout, hup, hdown⟩ hwait
    simp only [hidle, PassStage.unsent, PassStage.unrelayed, PassStage.unreported, hqueue] at hin hout hup hdown
    exact ⟨rfl, by simpa [PassStage.unsent] using hin, hout, hup, hdown⟩
  | replied data hwait =>
    have hidle := Carried.idle ⟨hphase, hin, hout, hup, hdown⟩ hwait
    simp only [hidle, PassStage.unsent, PassStage.unrelayed, PassStage.unreported] at hin hout hup hdown
    exact ⟨rfl, hin, by simpa [PassStage.unrelayed] using hout, hup, hdown⟩
  | @reserved packet hstage =>
    rw [hstage] at hphase hin hout hup hdown
    cases packet <;> exact ⟨hphase, hin, hout, hup, hdown⟩
  | @passed packet hstage =>
    rw [hstage] at hphase hin hout hup hdown
    simp only [sizes_append, PassStage.unreported] at hup hdown
    cases packet with
    | inbound d =>
      refine ⟨hphase, by simpa [UdpFlow.pass, PassStage.unsent] using hin, hout, ?_, ?_⟩
      · rw [sizes_append]
        simpa [UdpFlow.pass, PassStage.unreported, sizes, Packet.direction, Packet.size] using hup
      · rw [sizes_append]
        simpa [UdpFlow.pass, PassStage.unreported, sizes, Packet.direction] using hdown
    | outbound data =>
      refine ⟨hphase, hin, by simpa [UdpFlow.pass, PassStage.unrelayed] using hout, ?_, ?_⟩
      · rw [sizes_append]
        simpa [UdpFlow.pass, PassStage.unreported, sizes, Packet.direction] using hup
      · rw [sizes_append]
        simpa [UdpFlow.pass, PassStage.unreported, sizes, Packet.direction, Packet.size] using hdown
  | @failed packet hstage =>
    rcases hstage with hstage | hstage
    · rw [hstage] at hin hout hup hdown
      cases packet <;> exact ⟨rfl, hin, hout, hup, hdown⟩
    · rw [hstage] at hin hout hup hdown
      cases packet <;> exact ⟨rfl, hin, hout, hup, hdown⟩
  | @reported packet hstage =>
    rw [hstage] at hin hout hup hdown
    refine ⟨fun _ => nofun, hin, hout, ?_, ?_⟩
    · simpa [UdpFlow.report, PassStage.unreported] using hup
    · simpa [UdpFlow.report, PassStage.unreported] using hdown

end

/-! ## What is done outside of the loop -/

/-- What others do to a session, and what it does before its loop and after it. -/
inductive Outside (x : UdpSession Peer) : UdpSession Peer → Prop
  | same : Outside x x
  | moved {phase : UdpPhase} : (∀ direction, x.phase ≠ .passing direction) →
    (∀ direction, phase ≠ .passing direction) → (x.phase.receives = false → phase.receives = false) →
    Outside x { x with phase := phase }
  | filled (d : Datagram) : Outside x { x with queue := x.queue ++ [d], handed := x.handed ++ [d] }

theorem Carried.outside {x x' : UdpSession Peer} {f : UdpFlow} (h : Carried x f) (hm : Outside x x') :
    Carried x' f := by
  cases hm with
  | same => exact h
  | @moved phase hx hphase hreceives =>
    refine ⟨?_, h.inbound, h.outbound, h.uploaded, h.downloaded⟩
    have hmatch := h.phase
    cases hstage : f.stage with
    | idle => exact hphase
    | failed packet =>
      rw [hstage] at hmatch
      exact hreceives hmatch
    | _ packet =>
      rw [hstage] at hmatch
      exact absurd hmatch (hx _)
  | filled d =>
    refine ⟨h.phase, ?_, h.outbound, h.uploaded, h.downloaded⟩
    show x.handed ++ [d] = f.sent ++ f.stage.unsent ++ (x.queue ++ [d])
    rw [h.inbound, List.append_assoc _ x.queue]

/-- A new channel has its first datagram. -/
theorem Carried.new {x : UdpSession Peer} (hqueue : x.handed = x.queue) (hphase : x.phase = .made) :
    Carried x .new where
  phase := by
    rw [hphase]
    exact fun _ => nofun
  inbound := hqueue
  outbound := rfl
  uploaded := rfl
  downloaded := rfl

theorem UdpServer.set_outside {i : Nat} {x x' : UdpSession Peer} (hx : s.sessions[i]? = some x)
    (hm : Outside x x') (j : Nat) (y' : UdpSession Peer) (hy : (s.sessions.set i x')[j]? = some y') :
    ∃ y, s.sessions[j]? = some y ∧ Outside y y' := by
  rcases (set_eq_some hx).1 hy with ⟨rfl, rfl⟩ | ⟨-, hy⟩
  · exact ⟨x, hx, hm⟩
  · exact ⟨y', hy, .same⟩

section
variable [DecidableEq Peer]

theorem UdpServer.advance_outside (hk : s.Kept) (hq : s.listeners[l]? = some q) (hs : s.advance l q = some t)
    (j : Nat) (y' : UdpSession Peer) (hy : t.sessions[j]? = some y') :
    (∃ y, s.sessions[j]? = some y ∧ Outside y y') ∨
      s.sessions.length ≤ j ∧ y'.handed = y'.queue ∧ y'.phase = .made := by
  cases UdpServer.advance_cases hs with
  | sent hphase hx => exact .inl (UdpServer.set_outside hx (.filled _) j y' hy)
  | @acquired peer d hphase =>
    rcases concat_eq_some.1 hy with hy | ⟨rfl, rfl⟩
    · exact .inl ⟨y', hy, .same⟩
    · exact .inr ⟨Nat.le_refl _, rfl, rfl⟩
  | @spawned channel x hphase hx =>
    have hmade : x.phase = .made := by
      have hkept := (hk.listeners l q hq).phase
      rw [hphase] at hkept
      obtain ⟨y, hy, -, hmade⟩ := hkept
      cases hx.symm.trans hy
      exact hmade
    have hm : Outside x { x with phase := .binding } :=
      .moved (by rw [hmade]; exact fun _ => nofun) (fun _ => nofun) (by rw [hmade]; nofun)
    exact .inl (UdpServer.set_outside hx hm j y' hy)
  | found | unknown | closed | removed | admitted | inserted | dropped => exact .inl ⟨y', hy, .same⟩

theorem UdpServer.outer_outside (hk : s.Kept) {act : UdpAct Peer} (hout : act.outer = true)
    (hs : s.step act = some t) (j : Nat) (y' : UdpSession Peer) (hy : t.sessions[j]? = some y') :
    (∃ y, s.sessions[j]? = some y ∧ Outside y y') ∨
      s.sessions.length ≤ j ∧ y'.handed = y'.queue ∧ y'.phase = .made := by
  cases act
  case cleanup i =>
    obtain ⟨x, q, hx, hphase, hq, rfl⟩ := UdpServer.cleanup_ok hs
    have hm : Outside x { x with phase := .cleaned } :=
      .moved (by simp [hphase]) (by simp) fun _ => rfl
    exact .inl (UdpServer.set_outside hx hm j y' hy)
  all_goals simp only [UdpServer.step] at hs
  case listen =>
    cases hs
    exact .inl ⟨y', hy, .same⟩
  case receive l result =>
    obtain ⟨q, hq, hs⟩ := Option.bind_eq_some_iff.1 hs
    split at hs <;> cases hs
    · exact .inl ⟨y', hy, .same⟩
    · exact .inl ⟨y', hy, .same⟩
  case stop l =>
    obtain ⟨q, hq, hs⟩ := Option.bind_eq_some_iff.1 hs
    split at hs <;> cases hs
    exact .inl ⟨y', hy, .same⟩
  case advance l =>
    obtain ⟨q, hq, hs⟩ := Option.bind_eq_some_iff.1 hs
    exact UdpServer.advance_outside hk hq hs j y' hy
  case run i act =>
    obtain ⟨x, hx, hs⟩ := Option.bind_eq_some_iff.1 hs
    obtain ⟨x', hrun, rfl⟩ := Option.map_eq_some_iff.1 hs
    have hmoved {phase : UdpPhase} (hold : x.phase = .binding ∨ x.phase = .connecting)
        (hnew : ∀ direction, phase ≠ .passing direction) :
        Outside x { x with phase := phase } := by
      rcases hold with hold | hold
      · exact .moved (by simp [hold]) hnew (by simp [hold, UdpPhase.receives])
      · exact .moved (by simp [hold]) hnew (by simp [hold, UdpPhase.receives])
    cases act with
    | bind ok =>
      simp only [UdpSession.run] at hrun
      split at hrun <;> cases hrun
      rename_i hphase _
      have hnew : ∀ direction, (if ok = true then .connecting else .returned) ≠ UdpPhase.passing direction := by
        cases ok <;> simp
      exact .inl (UdpServer.set_outside hx (hmoved (.inl hphase) hnew) j y' hy)
    | connect ok =>
      simp only [UdpSession.run] at hrun
      split at hrun <;> cases hrun
      rename_i hphase _
      have hnew : ∀ direction, (if ok = true then .waiting else .returned) ≠ UdpPhase.passing direction := by
        cases ok <;> simp
      exact .inl (UdpServer.set_outside hx (hmoved (.inr hphase) hnew) j y' hy)
    | _ => cases hout
  case release i =>
    obtain ⟨x, hx, hs⟩ := Option.bind_eq_some_iff.1 hs
    split at hs <;> cases hs
    rename_i hphase
    have hm : Outside x { x with phase := .ended } :=
      .moved (by simp [hphase]) (by simp) fun _ => rfl
    exact .inl (UdpServer.set_outside hx hm j y' hy)

theorem UdpServer.step_length {act : UdpAct Peer} (hs : s.step act = some t) :
    s.sessions.length ≤ t.sessions.length := by
  rcases UdpServer.step_sessions hs with hlen | ⟨_, _, _, _, _, _, _, _, _, hadd⟩
  · omega
  · rw [hadd, List.length_append]
    omega

end

/-! ## The bound of a channel -/

theorem UdpSession.trySend_queue {x x' : UdpSession Peer} {d : Datagram} (h : x.trySend d = .sent x') :
    x'.queue.length ≤ UDP_SESSION_QUEUE_CAPACITY := by
  unfold UdpSession.trySend at h
  split at h
  · cases h
  split at h
  · cases h
  · rename_i hlt
    cases h
    simp only [List.length_append, List.length_singleton]
    omega

def UdpServer.Short (s : UdpServer Peer) : Prop :=
  ∀ (i : Nat) (x : UdpSession Peer), s.sessions[i]? = some x → x.queue.length ≤ UDP_SESSION_QUEUE_CAPACITY

theorem UdpServer.Short.set (h : s.Short) {i : Nat} {x : UdpSession Peer} (x' : UdpSession Peer)
    (hx : s.sessions[i]? = some x) (hle : x'.queue.length ≤ UDP_SESSION_QUEUE_CAPACITY) : (s.setSession i x').Short := by
  intro j y hy
  rcases (set_eq_some hx).1 hy with ⟨rfl, rfl⟩ | ⟨-, hy⟩
  · exact hle
  · exact h j y hy

section
variable [DecidableEq Peer]

theorem UdpServer.Short.advance (h : s.Short) (hs : s.advance l q = some t) : t.Short := by
  unfold UdpServer.advance at hs
  split at hs
  · split at hs <;> cases hs
    · exact h
    · exact h
  · obtain ⟨x, hx, rfl⟩ := Option.map_eq_some_iff.1 hs
    split
    · rename_i x' hsent
      exact h.set _ hx (UdpSession.trySend_queue hsent)
    · exact h
    · exact h
  · cases hs
    exact h
  · split at hs <;> cases hs
    · exact h
    · exact h
  · split at hs
    · cases hs
      exact h
    split at hs <;> cases hs
    · rename_i x' hsent
      intro j y hy
      rcases concat_eq_some.1 hy with hy | ⟨-, rfl⟩
      · exact h j y hy
      · exact UdpSession.trySend_queue hsent
    · exact h
  · cases hs
    exact h
  · obtain ⟨x, hx, rfl⟩ := Option.map_eq_some_iff.1 hs
    exact h.set _ hx (h _ x hx)
  · cases hs

theorem UdpServer.Short.step (h : s.Short) {act : UdpAct Peer} (hs : s.step act = some t) : t.Short := by
  cases act
  case cleanup i =>
    obtain ⟨x, q, hx, -, hq, rfl⟩ := UdpServer.cleanup_ok hs
    exact h.set { x with phase := .cleaned } hx (h i x hx)
  all_goals simp only [UdpServer.step] at hs
  case listen =>
    cases hs
    exact h
  case receive l result =>
    obtain ⟨q, hq, hs⟩ := Option.bind_eq_some_iff.1 hs
    split at hs <;> cases hs
    · exact h
    · exact h
  case stop l =>
    obtain ⟨q, hq, hs⟩ := Option.bind_eq_some_iff.1 hs
    split at hs <;> cases hs
    exact h
  case advance l =>
    obtain ⟨q, hq, hs⟩ := Option.bind_eq_some_iff.1 hs
    exact h.advance hs
  case run i act =>
    obtain ⟨x, hx, hs⟩ := Option.bind_eq_some_iff.1 hs
    obtain ⟨x', hrun, rfl⟩ := Option.map_eq_some_iff.1 hs
    refine h.set _ hx ?_
    have hle := h i x hx
    cases act <;> simp only [UdpSession.run] at hrun
    case receive =>
      split at hrun
      · rename_i d queue hphase hqueue
        cases hrun
        rw [hqueue] at hle
        exact Nat.le_of_succ_le hle
      · cases hrun
    all_goals
      split at hrun <;> cases hrun <;> exact hle
  case release i =>
    obtain ⟨x, hx, hs⟩ := Option.bind_eq_some_iff.1 hs
    split at hs <;> cases hs
    exact h.set { x with phase := .ended } hx (h i x hx)

end

/-! ## The invariant -/

structure UdpTraffic.Kept [DecidableEq Peer] (s : UdpTraffic Peer) : Prop where
  server : s.server.Kept
  ordered : s.server.Ordered s.arrived
  short : s.server.Short
  carried : ∀ (i : Nat) (x : UdpSession Peer), s.server.sessions[i]? = some x → Carried x (s.flows i)
  fresh : ∀ i, s.server.sessions.length ≤ i → s.flows i = .new

section
variable [DecidableEq Peer] {s t : UdpTraffic Peer}

theorem UdpTraffic.start_kept : (UdpTraffic.start : UdpTraffic Peer).Kept where
  server := UdpServer.start_kept
  ordered := UdpServer.start_ordered
  short _ _ hx := nomatch hx
  carried _ _ hx := nomatch hx
  fresh _ _ := rfl

theorem UdpTraffic.Kept.steps (h : s.Kept) (hm : s.Steps t) : t.Kept := by
  cases hm with
  | @outer act server hout hs =>
    have hcarried (i : Nat) (x' : UdpSession Peer) (hx' : server.sessions[i]? = some x') :
        Carried x' (s.flows i) := by
      rcases UdpServer.outer_outside h.server hout hs i x' hx' with ⟨x, hx, hmoved⟩ | ⟨hnew, hqueue, hmade⟩
      · exact (h.carried i x hx).outside hmoved
      · rw [h.fresh i hnew]
        exact .new hqueue hmade
    exact ⟨h.server.step hs, h.ordered.step h.server hs, h.short.step hs, hcarried,
      fun i hi => h.fresh i (Nat.le_trans (UdpServer.step_length hs) hi)⟩
  | @inner i act x x' f hx hs hmoved =>
    have hordered := h.ordered.step h.server hs
    rw [show s.server.arrives (.run i act) = [] from rfl, List.append_nil] at hordered
    refine ⟨h.server.step hs, hordered, h.short.step hs, fun j y hy => ?_, fun j hj => ?_⟩
    · show Carried y (Function.update s.flows i f j)
      rcases (set_eq_some hx).1 hy with ⟨rfl, rfl⟩ | ⟨hne, hy⟩
      · rw [Function.update_self]
        exact (h.carried i x hx).moves hmoved
      · rw [Function.update_of_ne (Ne.symm hne)]
        exact h.carried j y hy
    · have hlen : s.server.sessions.length ≤ j := by simpa [UdpServer.setSession] using hj
      have hlt := (List.getElem?_eq_some_iff.1 hx).1
      show Function.update s.flows i f j = .new
      rw [Function.update_of_ne (by omega)]
      exact h.fresh j hlen
  | @flow i f hstage hmoved =>
    refine ⟨h.server, h.ordered, h.short, fun j y hy => ?_, fun j hj => ?_⟩
    · show Carried y (Function.update s.flows i f j)
      by_cases hij : j = i
      · subst hij
        rw [Function.update_self]
        exact (h.carried j y hy).moves (hmoved y)
      · rw [Function.update_of_ne hij]
        exact h.carried j y hy
    · have hne : j ≠ i := by
        intro hij
        subst hij
        exact hstage (by rw [h.fresh j hj]; rfl)
      show Function.update s.flows i f j = .new
      rw [Function.update_of_ne hne]
      exact h.fresh j hj

theorem udpTraffic_inductive : (udpTraffic Peer).Inductive UdpTraffic.Kept where
  init := fun _ hs => hs ▸ UdpTraffic.start_kept
  step := fun _ _ _ h hst => h.steps (UdpTraffic.step_steps hst)

end

/-! ## From the peer to the backend, and back -/

/-- What arrived at a listener from a peer. -/
def UdpTraffic.arrivedFrom [DecidableEq Peer] (s : UdpTraffic Peer) (l : Nat) (peer : Peer) : List Datagram :=
  (s.arrived.filter fun a => a.listener = l ∧ a.peer = peer).map (·.datagram)

/-- What holds of a session `x` with what it passed on. -/
structure UdpFlow.Faithful [DecidableEq Peer] (s : UdpTraffic Peer) (x : UdpSession Peer) (f : UdpFlow) : Prop where
  /-- The channel is handed some of what arrived from the peer, each once and in order. -/
  handed : x.handed.Sublist (s.arrivedFrom x.listener x.peer)
  /-- The backend is sent all of that but what is in hand and what waits in the channel. -/
  sent : ∃ rest, x.handed = f.sent ++ rest ∧ rest.length ≤ 2
  /-- A session that waits has sent all that is not in the channel. -/
  waiting : x.phase = .waiting → x.handed = f.sent ++ x.queue
  relayed : ∃ rest, f.replies = f.relayed ++ rest ∧ rest.length ≤ 1
  uploaded : ∃ rest, f.sent.map (·.data.length) = sizes .inbound f.reported ++ rest ∧ rest.length ≤ 1
  downloaded : ∃ rest, f.relayed.map List.length = sizes .outbound f.reported ++ rest ∧ rest.length ≤ 1

section
variable [DecidableEq Peer] {s : UdpTraffic Peer} {x : UdpSession Peer} {f : UdpFlow}

theorem PassStage.unsent_length (stage : PassStage) : stage.unsent.length ≤ 1 := by
  cases stage with
  | idle => simp [PassStage.unsent]
  | _ packet => cases packet <;> simp [PassStage.unsent]

theorem PassStage.unrelayed_length (stage : PassStage) : stage.unrelayed.length ≤ 1 := by
  cases stage with
  | idle => simp [PassStage.unrelayed]
  | _ packet => cases packet <;> simp [PassStage.unrelayed]

theorem PassStage.unreported_length (stage : PassStage) (direction : Direction) :
    (sizes direction stage.unreported).length ≤ 1 := by
  have hle : (sizes direction stage.unreported).length ≤ stage.unreported.length := by
    rw [sizes, List.length_map]
    exact List.length_filter_le ..
  refine Nat.le_trans hle ?_
  cases stage <;> simp [PassStage.unreported]

/-- Numbers that increase tell the datagrams apart. -/
theorem UdpServer.Ordered.handed_sublist {s : UdpTraffic Peer} (h : s.server.Ordered s.arrived) {i : Nat}
    (hx : s.server.sessions[i]? = some x) : x.handed.Sublist (s.arrivedFrom x.listener x.peer) := by
  obtain ⟨hsorted, hmem⟩ := h.handed i x hx
  have hsorted' : x.handed.Pairwise fun d e => d.number < e.number := List.pairwise_map.1 hsorted
  have harrived : (s.arrivedFrom x.listener x.peer).Pairwise fun d e => d.number < e.number := by
    refine List.pairwise_map.2 (List.Pairwise.sublist List.filter_sublist ?_)
    exact List.pairwise_map.1 h.increasing
  have hsub : x.handed ⊆ s.arrivedFrom x.listener x.peer := fun d hd =>
    List.mem_map.2 ⟨⟨x.listener, x.peer, d⟩, List.mem_filter.2 ⟨hmem d hd, by simp⟩, rfl⟩
  have hnodup : x.handed.Nodup := hsorted'.imp fun hlt heq => absurd hlt (by rw [heq]; exact Nat.lt_irrefl _)
  have : Std.Asymm fun d e : Datagram => d.number < e.number := ⟨fun _ _ hlt => Nat.lt_asymm hlt⟩
  exact List.sublist_of_subperm_of_pairwise (List.subperm_of_subset hnodup hsub) hsorted' harrived

theorem UdpTraffic.Kept.faithful (h : s.Kept) {i : Nat} (hx : s.server.sessions[i]? = some x) :
    (s.flows i).Faithful s x := by
  have hc := h.carried i x hx
  refine ⟨h.ordered.handed_sublist hx, ⟨(s.flows i).stage.unsent ++ x.queue, ?_, ?_⟩, fun hphase => ?_,
    ⟨_, hc.outbound, PassStage.unrelayed_length _⟩, ⟨_, ?_, (s.flows i).stage.unreported_length .inbound⟩,
    ⟨_, ?_, (s.flows i).stage.unreported_length .outbound⟩⟩
  · rw [hc.inbound, List.append_assoc]
  · have hunsent := (s.flows i).stage.unsent_length
    have hqueue := h.short i x hx
    simp only [UDP_SESSION_QUEUE_CAPACITY] at hqueue
    rw [List.length_append]
    omega
  · have hin := hc.inbound
    rw [hc.idle hphase] at hin
    simpa [PassStage.unsent] using hin
  · rw [← sizes_append]
    exact hc.uploaded.symm
  · rw [← sizes_append]
    exact hc.downloaded.symm

/-- No datagram is sent by two sessions. -/
theorem UdpTraffic.Kept.alone (h : s.Kept) (hsole : s.server.custody.Sole) {i j : Nat} {d e : Datagram}
    (hd : d ∈ (s.flows i).sent) (he : e ∈ (s.flows j).sent) (hde : d.number = e.number) : i = j := by
  have hat {i : Nat} {d : Datagram} (hd : d ∈ (s.flows i).sent) : s.server.custody.At d.number (.inr i) := by
    cases hx : s.server.sessions[i]? with
    | none =>
      rw [h.fresh i (List.getElem?_eq_none_iff.1 hx)] at hd
      cases hd
    | some x =>
      show d.number ∈ s.server.custody.given i
      rw [UdpServer.custody_given hx, (h.carried i x hx).inbound]
      exact List.mem_map_of_mem (List.mem_append_left _ (List.mem_append_left _ hd))
  exact Sum.inr.inj (hsole.once d.number (.inr i) (.inr j) (hat hd) (hde ▸ hat he))

/-- **From the peer to the backend, and back.** In every interleaving of the listeners with
the sessions, each session is faithful, and no two send the same datagram. -/
theorem udp_traffic_kept (hr : (udpTraffic Peer).Reachable s) :
    (∀ (i : Nat) (x : UdpSession Peer), s.server.sessions[i]? = some x → (s.flows i).Faithful s x) ∧
      ∀ (i j : Nat) (d e : Datagram), d ∈ (s.flows i).sent → e ∈ (s.flows j).sent → d.number = e.number → i = j :=
  have h := udpTraffic_inductive.reachable s hr
  ⟨fun _ _ hx => h.faithful hx, fun _ _ _ _ hd he hde =>
    h.alone (udpServer_custody.reachable s.server (traffic_refines hr)) hd he hde⟩

end

/-- A session that has sent one datagram, has the next in hand and a third in its channel, and
has relayed an answer. -/
def oneOfThree : List (TrafficAct Nat) :=
  [.outer .listen, .outer (.receive 0 (some (7, [1, 2]))), .outer (.advance 0), .outer (.advance 0),
    .outer (.advance 0), .outer (.advance 0), .outer (.advance 0), .outer (.run 0 (.bind true)),
    .outer (.run 0 (.connect true)), .take 0, .reserve 0 true, .transmit 0 true, .report 0, .reply 0 [9],
    .reserve 0 true, .transmit 0 true, .outer (.receive 0 (some (7, [3]))), .outer (.advance 0),
    .outer (.advance 0), .report 0, .take 0, .outer (.receive 0 (some (7, [4]))), .outer (.advance 0),
    .outer (.advance 0)]

theorem one_of_three_sent : ∃ s : UdpTraffic Nat, (s.flows 0).sent = [⟨0, [1, 2]⟩] ∧
    (s.flows 0).stage = .reserving (.inbound ⟨1, [3]⟩) ∧ s.server.sessions.map (·.queue) = [[⟨2, [4]⟩]] ∧
    ∀ (i : Nat) (x : UdpSession Nat), s.server.sessions[i]? = some x → (s.flows i).Faithful s x := by
  have hexec : (LTS.exec UdpTraffic.step UdpTraffic.start oneOfThree).map
      (fun s => ((s.flows 0).sent, (s.flows 0).stage, s.server.sessions.map (·.queue))) =
      some ([⟨0, [1, 2]⟩], .reserving (.inbound ⟨1, [3]⟩), [[⟨2, [4]⟩]]) := by
    decide +kernel
  obtain ⟨s, hs, hobs⟩ := Option.map_eq_some_iff.1 hexec
  simp only [Prod.mk.injEq] at hobs
  obtain ⟨hsent, hstage, hqueue⟩ := hobs
  exact ⟨s, hsent, hstage, hqueue, (udp_traffic_kept ⟨_, _, rfl, LTS.run_of_exec hs⟩).1⟩

end OrangeFrp.Controller
