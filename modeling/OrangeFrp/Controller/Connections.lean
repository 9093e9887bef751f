import OrangeFrp.Controller.UdpSessions

/-!
# TCP connections and their permits (`frp-game-server/src/controller.rs`)

The listener of a tunnel takes two permits for a connection, one of its own
semaphore and one of the semaphore of all listeners, and moves them into the task
of the connection. A connection for which either is missing is dropped, and with
it the permit that was already taken. The task gives its permits back one after
the other when `proxy_tcp_connection` has returned, for whatever reason.

The semaphore of a tunnel belongs to its listener: a listener that is started
again has a new one, while connections of the old one may still be ending.

* `TcpServer.Kept`: permits that are free and permits that are held.
* `connections_bounded`: the limits, who is turned away, and that no permit is lost.
* `stopped_stays`: a listener that has left its loop spawns nothing any more.
-/
namespace OrangeFrp.Controller

open OrangeFrp.Core

def MAX_TCP_CONNECTIONS_PER_TUNNEL : Nat := 1024
def MAX_TCP_CONNECTIONS_TOTAL : Nat := 4096

/-! ## Connections -/

/-- Where the task of a connection is. The two permits are dropped in the reverse order of
their bindings.
mirrors crates/frp-game-server/src/controller.rs:368-379,383-416 -/
inductive TcpPhase where
  | connecting
  | relaying
  | returned
  | released
  | ended
  deriving DecidableEq

/-- It has its sockets. -/
def TcpPhase.isOpen (phase : TcpPhase) : Bool := phase = .connecting || phase = .relaying

/-- `_global_permit` is not dropped yet. -/
def TcpPhase.holdsTotal (phase : TcpPhase) : Bool := phase.isOpen || phase = .returned

/-- `_connection_permit` is not dropped yet. -/
def TcpPhase.holdsTunnel (phase : TcpPhase) : Bool := phase ≠ .ended

structure TcpConnection where
  listener : Nat
  phase : TcpPhase
  deriving DecidableEq

def TcpConnection.hasTotal (x : TcpConnection) : Bool := x.phase.holdsTotal

def TcpConnection.openAt (l : Nat) (x : TcpConnection) : Bool := x.listener = l && x.phase.isOpen

def TcpConnection.holdsAt (l : Nat) (x : TcpConnection) : Bool := x.listener = l && x.phase.holdsTunnel

/-! ## Listeners -/

/-- Where the loop of a listener is.
mirrors crates/frp-game-server/src/controller.rs:350-363 -/
inductive AcceptPhase where
  | selecting
  | accepted
  | holding
  | granted
  | stopped
  deriving DecidableEq

/-- The loop has a permit of its own semaphore in hand. -/
def AcceptPhase.hasTunnel (phase : AcceptPhase) : Bool := phase = .holding || phase = .granted

/-- `cancelled` is the token, `permits` what is free of the semaphore. -/
structure TcpListener where
  phase : AcceptPhase
  cancelled : Bool
  permits : Nat
  deriving DecidableEq

def TcpListener.hasTotal (q : TcpListener) : Bool := q.phase = .granted

/-- All listeners ever started, all their connections, and the semaphore they share. -/
structure TcpServer where
  listeners : List TcpListener
  connections : List TcpConnection
  permits : Nat

inductive TcpAct where
  | listen
  | cancel (listener : Nat)
  | stop (listener : Nat)
  | accept (listener : Nat) (ok : Bool)
  | tryTunnel (listener : Nat)
  | tryTotal (listener : Nat)
  | spawn (listener : Nat)
  | connect (connection : Nat) (ok : Bool)
  | finish (connection : Nat)
  | releaseTotal (connection : Nat)
  | releaseTunnel (connection : Nat)

namespace TcpServer

def setListener (s : TcpServer) (l : Nat) (q : TcpListener) : TcpServer :=
  { s with listeners := s.listeners.set l q }

def setConnection (s : TcpServer) (i : Nat) (phase : TcpPhase) (x : TcpConnection) : TcpServer :=
  { s with connections := s.connections.set i { x with phase := phase } }

/-- The loop of a listener, from one of its awaits and from one semaphore to the next.
mirrors crates/frp-game-server/src/controller.rs:341-381 -/
def listenerStep (s : TcpServer) (l : Nat) (q : TcpListener) : TcpAct → Option TcpServer
  | .cancel _ => some (s.setListener l { q with cancelled := true })
  | .stop _ =>
    if q.phase = .selecting ∧ q.cancelled = true then some (s.setListener l { q with phase := .stopped }) else none
  | .accept _ ok =>
    if q.phase = .selecting then
      some (s.setListener l { q with phase := if ok then .accepted else .selecting })
    else none
  | .tryTunnel _ =>
    if q.phase = .accepted then
      if q.permits = 0 then some (s.setListener l { q with phase := .selecting })
      else some (s.setListener l { q with phase := .holding, permits := q.permits - 1 })
    else none
  | .tryTotal _ =>
    if q.phase = .holding then
      if s.permits = 0 then some (s.setListener l { q with phase := .selecting, permits := q.permits + 1 })
      else some { s.setListener l { q with phase := .granted } with permits := s.permits - 1 }
    else none
  | .spawn _ =>
    if q.phase = .granted then
      some { s.setListener l { q with phase := .selecting } with
        connections := s.connections ++ [⟨l, .connecting⟩] }
    else none
  | _ => none

/-- The task of a connection.
mirrors crates/frp-game-server/src/controller.rs:368-379,383-416 -/
def connectionStep (s : TcpServer) (i : Nat) (x : TcpConnection) : TcpAct → Option TcpServer
  | .connect _ ok =>
    if x.phase = .connecting then some (s.setConnection i (if ok then .relaying else .returned) x) else none
  | .finish _ => if x.phase = .relaying then some (s.setConnection i .returned x) else none
  | .releaseTotal _ =>
    if x.phase = .returned then some { s.setConnection i .released x with permits := s.permits + 1 } else none
  | .releaseTunnel _ =>
    if x.phase = .released then
      (s.listeners[x.listener]?).map fun q =>
        (s.setConnection i .ended x).setListener x.listener { q with permits := q.permits + 1 }
    else none
  | _ => none

def step (s : TcpServer) (act : TcpAct) : Option TcpServer :=
  match act with
  | .listen =>
    some { s with listeners := s.listeners ++ [⟨.selecting, false, MAX_TCP_CONNECTIONS_PER_TUNNEL⟩] }
  | .cancel l | .stop l | .accept l _ | .tryTunnel l | .tryTotal l | .spawn l =>
    (s.listeners[l]?).bind fun q => s.listenerStep l q act
  | .connect i _ | .finish i | .releaseTotal i | .releaseTunnel i =>
    (s.connections[i]?).bind fun x => s.connectionStep i x act

/-- A controller without listeners. -/
def start : TcpServer := ⟨[], [], MAX_TCP_CONNECTIONS_TOTAL⟩

end TcpServer

def tcpServer : LTS TcpServer TcpAct := LTS.ofFn (· = TcpServer.start) TcpServer.step

/-! ## What a step does to the permits -/

/-- The permits of a listener that are free, and the one it has in hand. -/
def TcpListener.own (q : TcpListener) : Nat := q.permits + if q.phase.hasTunnel then 1 else 0

/-- The steps, by the permits they move. -/
inductive TcpServer.Moves (s : TcpServer) : TcpServer → Prop
  | started : Moves s { s with
      listeners := s.listeners ++ [⟨.selecting, false, MAX_TCP_CONNECTIONS_PER_TUNNEL⟩] }
  | listener {l : Nat} {q q' : TcpListener} : s.listeners[l]? = some q → q'.own = q.own →
    q'.hasTotal = q.hasTotal → (q.phase = .stopped → q'.phase = .stopped) → Moves s (s.setListener l q')
  | granted {l : Nat} {q : TcpListener} : s.listeners[l]? = some q → q.phase = .holding → 0 < s.permits →
    Moves s { s.setListener l { q with phase := .granted } with permits := s.permits - 1 }
  | spawned {l : Nat} {q : TcpListener} : s.listeners[l]? = some q → q.phase = .granted →
    Moves s { s.setListener l { q with phase := .selecting } with
      connections := s.connections ++ [⟨l, .connecting⟩] }
  | connection {i : Nat} {x : TcpConnection} {phase : TcpPhase} : s.connections[i]? = some x →
    x.phase.holdsTotal = true → phase.holdsTotal = true → (phase.isOpen = true → x.phase.isOpen = true) →
    Moves s (s.setConnection i phase x)
  | total {i : Nat} {x : TcpConnection} : s.connections[i]? = some x → x.phase = .returned →
    Moves s { s.setConnection i .released x with permits := s.permits + 1 }
  | tunnel {i : Nat} {x : TcpConnection} {q : TcpListener} : s.connections[i]? = some x → x.phase = .released →
    s.listeners[x.listener]? = some q →
    Moves s ((s.setConnection i .ended x).setListener x.listener { q with permits := q.permits + 1 })

theorem TcpServer.listenerStep_moves {s t : TcpServer} {l : Nat} {q : TcpListener} {act : TcpAct}
    (hq : s.listeners[l]? = some q) (h : s.listenerStep l q act = some t) : s.Moves t := by
  have hstay {phase : AcceptPhase} {permits : Nat} (cancelled : Bool)
      (hown : permits + (if phase.hasTunnel then 1 else 0) = q.permits + if q.phase.hasTunnel then 1 else 0)
      (hn : phase ≠ .granted) (hn' : q.phase ≠ .granted) (hs : q.phase ≠ .stopped) :
      s.Moves (s.setListener l ⟨phase, cancelled, permits⟩) :=
    .listener hq hown (by simp [TcpListener.hasTotal, hn, hn']) fun hp => absurd hp hs
  cases act with
  | cancel l' =>
    cases h
    exact .listener hq rfl rfl id
  | stop l' =>
    simp only [TcpServer.listenerStep] at h
    split at h
    · rename_i hp
      cases h
      exact hstay _ (by rw [hp.1]; rfl) nofun (by rw [hp.1]; nofun) (by rw [hp.1]; nofun)
    · cases h
  | accept l' ok =>
    simp only [TcpServer.listenerStep] at h
    split at h
    · rename_i hp
      cases h
      exact hstay _ (by rw [hp]; cases ok <;> rfl) (by cases ok <;> nofun) (by rw [hp]; nofun) (by rw [hp]; nofun)
    · cases h
  | tryTunnel l' =>
    simp only [TcpServer.listenerStep] at h
    split at h
    · rename_i hp
      split at h
      · cases h
        exact hstay _ (by rw [hp]; rfl) nofun (by rw [hp]; nofun) (by rw [hp]; nofun)
      · rename_i hfree
        cases h
        refine hstay _ ?_ nofun (by rw [hp]; nofun) (by rw [hp]; nofun)
        rw [hp]
        show q.permits - 1 + 1 = q.permits + 0
        omega
    · cases h
  | tryTotal l' =>
    simp only [TcpServer.listenerStep] at h
    split at h
    · rename_i hp
      split at h
      · cases h
        exact hstay _ (by rw [hp]; rfl) nofun (by rw [hp]; nofun) (by rw [hp]; nofun)
      · rename_i hfree
        cases h
        exact .granted hq hp (Nat.pos_of_ne_zero hfree)
    · cases h
  | spawn l' =>
    simp only [TcpServer.listenerStep] at h
    split at h
    · rename_i hp
      cases h
      exact .spawned hq hp
    · cases h
  | _ => cases h

theorem TcpServer.connectionStep_moves {s t : TcpServer} {i : Nat} {x : TcpConnection} {act : TcpAct}
    (hx : s.connections[i]? = some x) (h : s.connectionStep i x act = some t) : s.Moves t := by
  cases act with
  | connect i' ok =>
    simp only [TcpServer.connectionStep] at h
    split at h
    · rename_i hp
      cases h
      exact .connection hx (by rw [hp]; rfl) (by cases ok <;> rfl) fun _ => by rw [hp]; rfl
    · cases h
  | finish i' =>
    simp only [TcpServer.connectionStep] at h
    split at h
    · rename_i hp
      cases h
      exact .connection hx (by rw [hp]; rfl) rfl nofun
    · cases h
  | releaseTotal i' =>
    simp only [TcpServer.connectionStep] at h
    split at h
    · rename_i hp
      cases h
      exact .total hx hp
    · cases h
  | releaseTunnel i' =>
    simp only [TcpServer.connectionStep] at h
    split at h
    · rename_i hp
      obtain ⟨q, hq, rfl⟩ := Option.map_eq_some_iff.1 h
      exact .tunnel hx hp hq
    · cases h
  | _ => cases h

theorem TcpServer.step_moves {s t : TcpServer} {act : TcpAct} (h : s.step act = some t) : s.Moves t := by
  have hlistener {l : Nat} (hl : (s.listeners[l]?).bind (fun q => s.listenerStep l q act) = some t) : s.Moves t := by
    obtain ⟨q, hq, hl⟩ := Option.bind_eq_some_iff.1 hl
    exact TcpServer.listenerStep_moves hq hl
  have hconnection {i : Nat} (hi : (s.connections[i]?).bind (fun x => s.connectionStep i x act) = some t) :
      s.Moves t := by
    obtain ⟨x, hx, hi⟩ := Option.bind_eq_some_iff.1 hi
    exact TcpServer.connectionStep_moves hx hi
  cases act with
  | listen => cases h; exact .started
  | cancel l => exact hlistener h
  | stop l => exact hlistener h
  | accept l ok => exact hlistener h
  | tryTunnel l => exact hlistener h
  | tryTotal l => exact hlistener h
  | spawn l => exact hlistener h
  | connect i ok => exact hconnection h
  | finish i => exact hconnection h
  | releaseTotal i => exact hconnection h
  | releaseTunnel i => exact hconnection h

/-! ## Permits that are free and permits that are held -/

structure TcpServer.Kept (s : TcpServer) : Prop where
  total : s.permits + s.listeners.countP TcpListener.hasTotal + s.connections.countP TcpConnection.hasTotal =
    MAX_TCP_CONNECTIONS_TOTAL
  tunnel : ∀ l q, s.listeners[l]? = some q →
    q.own + s.connections.countP (TcpConnection.holdsAt l) = MAX_TCP_CONNECTIONS_PER_TUNNEL
  known : ∀ x ∈ s.connections, x.listener < s.listeners.length

theorem TcpServer.start_kept : TcpServer.start.Kept where
  total := rfl
  tunnel := by simp [TcpServer.start]
  known := by simp [TcpServer.start]

section
variable {s : TcpServer} {l i : Nat} {q q' : TcpListener} {x : TcpConnection}

/-- A listener that gives up nothing of its own stays in balance. -/
theorem TcpServer.Kept.setListener_own (h : s.Kept) (hq : s.listeners[l]? = some q) (hown : q'.own = q.own) :
    ∀ k p, (s.setListener l q').listeners[k]? = some p →
      p.own + s.connections.countP (TcpConnection.holdsAt k) = MAX_TCP_CONNECTIONS_PER_TUNNEL := by
  intro k p hp
  rcases (set_eq_some hq).1 hp with ⟨rfl, rfl⟩ | ⟨-, hp⟩
  · rw [hown]
    exact h.tunnel l q hq
  · exact h.tunnel k p hp

/-- A connection that keeps its permit leaves every listener in balance. -/
theorem TcpServer.Kept.setConnection_own (h : s.Kept) (hx : s.connections[i]? = some x) {phase : TcpPhase}
    (hphase : phase.holdsTunnel = x.phase.holdsTunnel) :
    ∀ k p, s.listeners[k]? = some p →
      p.own + (s.setConnection i phase x).connections.countP (TcpConnection.holdsAt k) =
        MAX_TCP_CONNECTIONS_PER_TUNNEL := by
  intro k p hp
  have hcount := countP_set (p := TcpConnection.holdsAt k) (b := { x with phase := phase }) hx
  have hsame : TcpConnection.holdsAt k { x with phase := phase } = TcpConnection.holdsAt k x := by
    simp only [TcpConnection.holdsAt, hphase]
  rw [hsame] at hcount
  have := h.tunnel k p hp
  simp only [TcpServer.setConnection]
  omega

theorem TcpServer.Kept.setConnection_known (h : s.Kept) (hx : s.connections[i]? = some x) (phase : TcpPhase) :
    ∀ y ∈ (s.setConnection i phase x).connections, y.listener < s.listeners.length := by
  intro y hy
  rcases List.mem_or_eq_of_mem_set hy with hy | rfl
  · exact h.known y hy
  · exact h.known x (List.mem_of_getElem? hx)

/-- **Every step keeps the balance.** -/
theorem TcpServer.Kept.moves {t : TcpServer} (h : s.Kept) (hm : s.Moves t) : t.Kept := by
  have htotal := h.total
  cases hm with
  | started =>
    refine ⟨?_, ?_, ?_⟩
    · rw [List.countP_append]
      simpa [TcpListener.hasTotal] using htotal
    · intro k p hp
      rcases concat_eq_some.1 hp with hp | ⟨rfl, rfl⟩
      · exact h.tunnel k p hp
      · have hnone : s.connections.countP (TcpConnection.holdsAt s.listeners.length) = 0 := by
          refine List.countP_eq_zero.2 fun y hy hheld => ?_
          have hlt := h.known y hy
          simp only [TcpConnection.holdsAt, Bool.and_eq_true, decide_eq_true_eq] at hheld
          omega
        rw [hnone]
        rfl
    · intro y hy
      have := h.known y hy
      simp only [List.length_append, List.length_singleton]
      omega
  | @listener l q q' hq hown hgranted hstopped =>
    refine ⟨?_, h.setListener_own hq hown, fun y hy => ?_⟩
    · have hcount := countP_set (p := TcpListener.hasTotal) (b := q') hq
      rw [hgranted] at hcount
      simp only [TcpServer.setListener]
      omega
    · simpa [TcpServer.setListener] using h.known y hy
  | @granted l q hq hphase hfree =>
    refine ⟨?_, h.setListener_own hq ?_, fun y hy => ?_⟩
    · have hcount := countP_set (p := TcpListener.hasTotal) (b := { q with phase := .granted }) hq
      have hbefore : q.hasTotal = false := by simp [TcpListener.hasTotal, hphase]
      have hafter : TcpListener.hasTotal { q with phase := .granted } = true := rfl
      rw [hbefore, hafter] at hcount
      simp only [TcpServer.setListener, Bool.false_eq_true, if_false, if_true] at hcount ⊢
      omega
    · simp [TcpListener.own, hphase, AcceptPhase.hasTunnel]
    · simpa [TcpServer.setListener] using h.known y hy
  | @spawned l q hq hphase =>
    refine ⟨?_, ?_, ?_⟩
    · have hcount := countP_set (p := TcpListener.hasTotal) (b := { q with phase := .selecting }) hq
      have hbefore : q.hasTotal = true := by simp [TcpListener.hasTotal, hphase]
      have hafter : TcpListener.hasTotal { q with phase := .selecting } = false := rfl
      have hnew : TcpConnection.hasTotal ⟨l, .connecting⟩ = true := rfl
      rw [hbefore, hafter] at hcount
      simp only [TcpServer.setListener, List.countP_append, List.countP_singleton, hnew, Bool.false_eq_true,
        if_false, if_true] at hcount ⊢
      omega
    · intro k p hp
      simp only [List.countP_append, List.countP_singleton]
      rcases (set_eq_some hq).1 hp with ⟨rfl, rfl⟩ | ⟨hne, hp⟩
      · have hown := h.tunnel l q hq
        have hnew : TcpConnection.holdsAt l ⟨l, .connecting⟩ = true := by simp [TcpConnection.holdsAt]; rfl
        have hhand : q.phase.hasTunnel = true := by rw [hphase]; rfl
        have hempty : AcceptPhase.selecting.hasTunnel = false := rfl
        simp only [TcpListener.own, hhand, hempty, hnew, Bool.false_eq_true, if_false, if_true] at hown ⊢
        omega
      · have hother : TcpConnection.holdsAt k ⟨l, .connecting⟩ = false := by simp [TcpConnection.holdsAt, hne]
        rw [hother]
        exact h.tunnel k p hp
    · intro y hy
      rcases List.mem_append.1 hy with hy | hy
      · simpa [TcpServer.setListener] using h.known y hy
      · rw [List.mem_singleton.1 hy]
        simpa [TcpServer.setListener] using (List.getElem?_eq_some_iff.1 hq).1
  | @connection i x phase hx hheld hheld' hopen =>
    have htunnel {phase : TcpPhase} (hp : phase.holdsTotal = true) : phase.holdsTunnel = true := by
      cases phase <;> first | rfl | cases hp
    refine ⟨?_, h.setConnection_own hx ((htunnel hheld').trans (htunnel hheld).symm),
      h.setConnection_known hx phase⟩
    have hcount := countP_set (p := TcpConnection.hasTotal) (b := { x with phase := phase }) hx
    rw [show x.hasTotal = true from hheld,
      show TcpConnection.hasTotal { x with phase := phase } = true from hheld'] at hcount
    simp only [TcpServer.setConnection]
    omega
  | @total i x hx hphase =>
    refine ⟨?_, h.setConnection_own hx (by rw [hphase]; rfl), h.setConnection_known hx _⟩
    have hcount := countP_set (p := TcpConnection.hasTotal) (b := { x with phase := .released }) hx
    have hbefore : x.hasTotal = true := by rw [TcpConnection.hasTotal, hphase]; rfl
    have hafter : TcpConnection.hasTotal { x with phase := .released } = false := rfl
    rw [hbefore, hafter] at hcount
    simp only [TcpServer.setConnection, Bool.false_eq_true, if_false, if_true] at hcount ⊢
    omega
  | @tunnel i x q hx hphase hq =>
    refine ⟨?_, ?_, ?_⟩
    · have hcount := countP_set (p := TcpConnection.hasTotal) (b := { x with phase := .ended }) hx
      have hlisten := countP_set (p := TcpListener.hasTotal) (b := { q with permits := q.permits + 1 }) hq
      have hbefore : x.hasTotal = false := by rw [TcpConnection.hasTotal, hphase]; rfl
      have hafter : TcpConnection.hasTotal { x with phase := .ended } = false := rfl
      have hsame : TcpListener.hasTotal { q with permits := q.permits + 1 } = q.hasTotal := rfl
      rw [hbefore, hafter] at hcount
      rw [hsame] at hlisten
      simp only [TcpServer.setConnection, TcpServer.setListener] at hcount hlisten ⊢
      omega
    · intro k p hp
      have hcount := countP_set (p := TcpConnection.holdsAt k) (b := { x with phase := .ended }) hx
      have hafter : TcpConnection.holdsAt k { x with phase := .ended } = false := by
        simp [TcpConnection.holdsAt, TcpPhase.holdsTunnel]
      rw [hafter] at hcount
      show p.own + (s.connections.set i { x with phase := .ended }).countP (TcpConnection.holdsAt k) = _
      rcases (set_eq_some hq).1 hp with ⟨rfl, rfl⟩ | ⟨hne, hp⟩
      · have hown := h.tunnel _ q hq
        have hbefore : TcpConnection.holdsAt x.listener x = true := by
          simp [TcpConnection.holdsAt, TcpPhase.holdsTunnel, hphase]
        rw [hbefore] at hcount
        simp only [TcpListener.own, Bool.false_eq_true, if_false, if_true] at hown hcount ⊢
        omega
      · have hother := h.tunnel k p hp
        have hbefore : TcpConnection.holdsAt k x = false := by simp [TcpConnection.holdsAt, hne]
        rw [hbefore] at hcount
        simp only [Bool.false_eq_true, if_false] at hcount
        omega
    · intro y hy
      have hlt := h.setConnection_known hx .ended y hy
      simpa [TcpServer.setListener, TcpServer.setConnection] using hlt

end

theorem tcpServer_inductive : tcpServer.Inductive TcpServer.Kept where
  init := fun _ hs => hs ▸ TcpServer.start_kept
  step := fun _ _ _ hi hst => hi.moves (TcpServer.step_moves hst)

/-! ## The limits -/

/-- The connections are within their limits, a connection is turned away exactly when all
permits are taken, and what is not in use is free. -/
structure TcpServer.Bounded (s : TcpServer) : Prop where
  openAt : ∀ l, s.connections.countP (TcpConnection.openAt l) ≤ MAX_TCP_CONNECTIONS_PER_TUNNEL
  openTotal : s.connections.countP (fun x => x.phase.isOpen) ≤ MAX_TCP_CONNECTIONS_TOTAL
  refusedTunnel : ∀ l q, s.listeners[l]? = some q → q.phase = .accepted →
    (s.step (.tryTunnel l) = some (s.setListener l { q with phase := .selecting }) ↔
      s.connections.countP (TcpConnection.holdsAt l) = MAX_TCP_CONNECTIONS_PER_TUNNEL)
  refusedTotal : ∀ l q, s.listeners[l]? = some q → q.phase = .holding →
    (s.step (.tryTotal l) = some (s.setListener l { q with phase := .selecting, permits := q.permits + 1 }) ↔
      s.listeners.countP TcpListener.hasTotal + s.connections.countP TcpConnection.hasTotal =
        MAX_TCP_CONNECTIONS_TOTAL)
  idle : (∀ x ∈ s.connections, x.phase = .ended) → (∀ q ∈ s.listeners, q.phase.hasTunnel = false) →
    s.permits = MAX_TCP_CONNECTIONS_TOTAL ∧ ∀ q ∈ s.listeners, q.permits = MAX_TCP_CONNECTIONS_PER_TUNNEL

theorem TcpConnection.holdsAt_of_openAt {l : Nat} {x : TcpConnection} (h : x.openAt l = true) :
    x.holdsAt l = true := by
  simp only [TcpConnection.openAt, TcpConnection.holdsAt, Bool.and_eq_true] at h ⊢
  refine ⟨h.1, ?_⟩
  cases hp : x.phase <;> first | rfl | (rw [hp] at h; exact absurd h.2 nofun)

theorem TcpServer.Kept.openAt_le {s : TcpServer} (h : s.Kept) (l : Nat) :
    s.connections.countP (TcpConnection.openAt l) ≤ MAX_TCP_CONNECTIONS_PER_TUNNEL := by
  have hmono : s.connections.countP (TcpConnection.openAt l) ≤
      s.connections.countP (TcpConnection.holdsAt l) :=
    List.countP_mono_left fun x _ => TcpConnection.holdsAt_of_openAt
  cases hq : s.listeners[l]? with
  | some q =>
    have := h.tunnel l q hq
    omega
  | none =>
    -- no listener, no connection of it
    have hnone : s.connections.countP (TcpConnection.openAt l) = 0 := by
      refine List.countP_eq_zero.2 fun x hx hopen => ?_
      have hlt := h.known x hx
      have hle := List.getElem?_eq_none_iff.1 hq
      simp only [TcpConnection.openAt, Bool.and_eq_true, decide_eq_true_eq] at hopen
      omega
    omega

theorem TcpServer.Kept.open_le {s : TcpServer} (h : s.Kept) :
    s.connections.countP (fun x => x.phase.isOpen) ≤ MAX_TCP_CONNECTIONS_TOTAL := by
  have hmono : s.connections.countP (fun x => x.phase.isOpen) ≤
      s.connections.countP TcpConnection.hasTotal := by
    refine List.countP_mono_left fun x _ hx => ?_
    simp only [TcpConnection.hasTotal, TcpPhase.holdsTotal, hx, Bool.true_or]
  have := h.total
  omega

section
variable {s : TcpServer} {l : Nat} {q : TcpListener}

theorem TcpServer.tryTunnel_eq (hq : s.listeners[l]? = some q) (hp : q.phase = .accepted) :
    s.step (.tryTunnel l) = if q.permits = 0 then some (s.setListener l { q with phase := .selecting })
      else some (s.setListener l { q with phase := .holding, permits := q.permits - 1 }) := by
  simp [TcpServer.step, hq, TcpServer.listenerStep, hp]

theorem TcpServer.tryTotal_eq (hq : s.listeners[l]? = some q) (hp : q.phase = .holding) :
    s.step (.tryTotal l) = if s.permits = 0 then
        some (s.setListener l { q with phase := .selecting, permits := q.permits + 1 })
      else some { s.setListener l { q with phase := .granted } with permits := s.permits - 1 } := by
  simp [TcpServer.step, hq, TcpServer.listenerStep, hp]

theorem TcpServer.setListener_phase {q p : TcpListener} (hq : s.listeners[l]? = some q)
    {t : TcpServer} (ht : t.listeners = s.listeners.set l p) (h : t = s.setListener l { q with phase := .selecting }) :
    p.phase = .selecting := by
  have hl := (List.getElem?_eq_some_iff.1 hq).1
  have hp : t.listeners[l]? = some p := by rw [ht, List.getElem?_set_self hl]
  rw [h] at hp
  simp only [TcpServer.setListener, List.getElem?_set_self hl, Option.some.injEq] at hp
  rw [← hp]

end

theorem TcpServer.Kept.bounded {s : TcpServer} (h : s.Kept) : s.Bounded where
  openAt := h.openAt_le
  openTotal := h.open_le
  refusedTunnel := by
    intro l q hq hp
    have hown := h.tunnel l q hq
    simp only [TcpListener.own, hp, AcceptPhase.hasTunnel] at hown
    rw [TcpServer.tryTunnel_eq hq hp]
    by_cases hfree : q.permits = 0
    · simpa [hfree] using hown
    · simp only [hfree, if_false, Option.some.injEq]
      refine ⟨fun heq => ?_, fun hfull => ?_⟩
      · exact absurd (TcpServer.setListener_phase hq rfl heq) nofun
      · simp at hown
        omega
  refusedTotal := by
    intro l q hq hp
    have htotal := h.total
    rw [TcpServer.tryTotal_eq hq hp]
    by_cases hfree : s.permits = 0
    · simp only [hfree, if_true, true_iff]
      omega
    · simp only [hfree, if_false, Option.some.injEq]
      refine ⟨fun heq => ?_, fun hfull => ?_⟩
      · have := congrArg TcpServer.permits heq
        simp only [TcpServer.setListener] at this
        omega
      · omega
  idle := by
    intro hended hhand
    have htotal : s.connections.countP TcpConnection.hasTotal = 0 :=
      List.countP_eq_zero.2 fun x hx => by simp [TcpConnection.hasTotal, hended x hx, TcpPhase.holdsTotal,
        TcpPhase.isOpen]
    have hgranted : s.listeners.countP TcpListener.hasTotal = 0 := by
      refine List.countP_eq_zero.2 fun q hq hheld => ?_
      have hp : q.phase = .granted := by simpa [TcpListener.hasTotal] using hheld
      exact absurd (hhand q hq) (by rw [hp]; nofun)
    refine ⟨by have := h.total; omega, fun q hq => ?_⟩
    obtain ⟨l, hl⟩ := List.mem_iff_getElem?.1 hq
    have hheld : s.connections.countP (TcpConnection.holdsAt l) = 0 :=
      List.countP_eq_zero.2 fun x hx => by simp [TcpConnection.holdsAt, hended x hx, TcpPhase.holdsTunnel]
    have hown := h.tunnel l q hl
    simp only [TcpListener.own, hhand q hq, Bool.false_eq_true, if_false] at hown
    omega

/-- **Limits.** In every interleaving of the listeners and of the connections' tasks. -/
theorem connections_bounded (s : TcpServer) (h : tcpServer.Reachable s) : s.Bounded :=
  (tcpServer_inductive.reachable s h).bounded

/-- A connection whose task has returned but for its permit, on a listener that was stopped. -/
theorem connections_bounded_ending :
    ∃ s : TcpServer, s.permits = MAX_TCP_CONNECTIONS_TOTAL ∧ s.connections = [⟨0, .released⟩] ∧ s.Bounded :=
  let acts : List TcpAct := [.listen, .accept 0 true, .tryTunnel 0, .tryTotal 0, .spawn 0, .cancel 0, .stop 0,
    .connect 0 false, .releaseTotal 0]
  let s : TcpServer := ⟨[⟨.stopped, true, 1023⟩], [⟨0, .released⟩], 4096⟩
  ⟨s, rfl, rfl, connections_bounded s ⟨TcpServer.start, acts, rfl, LTS.run_of_exec rfl⟩⟩

/-! ## Listeners that have stopped -/

/-- Since `s` the stopped listener has no new connection: those it has are those of `s`, at
their places, and none of them was opened again. -/
structure TcpServer.Quiet (s : TcpServer) (l : Nat) (t : TcpServer) : Prop where
  stopped : ∃ q, t.listeners[l]? = some q ∧ q.phase = .stopped
  same : ∀ (i : Nat) (x' : TcpConnection), t.connections[i]? = some x' → x'.listener = l →
    ∃ x : TcpConnection, s.connections[i]? = some x ∧ x.listener = l ∧ (x'.phase.isOpen = true → x.phase.isOpen = true)
  fewer : t.connections.countP (TcpConnection.openAt l) ≤ s.connections.countP (TcpConnection.openAt l)

section
variable {s t u : TcpServer} {l : Nat}

/-- A step of a connection's task opens nothing. -/
theorem TcpServer.Quiet.setConnection (h : s.Quiet l t) {i : Nat} {x : TcpConnection} (phase : TcpPhase)
    (hx : t.connections[i]? = some x) (hopen : phase.isOpen = true → x.phase.isOpen = true) :
    s.Quiet l (t.setConnection i phase x) := by
  refine ⟨h.stopped, fun k x' hx' hl => ?_, ?_⟩
  · rcases (set_eq_some hx).1 hx' with ⟨rfl, rfl⟩ | ⟨-, hx'⟩
    · obtain ⟨x₀, hx₀, hl₀, hopen₀⟩ := h.same _ x hx hl
      exact ⟨x₀, hx₀, hl₀, fun hp => hopen₀ (hopen hp)⟩
    · exact h.same k x' hx' hl
  · have hcount := countP_set (p := TcpConnection.openAt l) (b := { x with phase := phase }) hx
    have hmono : TcpConnection.openAt l { x with phase := phase } = true → TcpConnection.openAt l x = true := by
      simp only [TcpConnection.openAt, Bool.and_eq_true]
      exact fun hp => ⟨hp.1, hopen hp.2⟩
    have hfewer := h.fewer
    simp only [TcpServer.setConnection]
    cases hafter : TcpConnection.openAt l { x with phase := phase } with
    | false => simp only [hafter, Bool.false_eq_true, if_false] at hcount; omega
    | true => simp only [hafter, hmono hafter, if_true] at hcount; omega

/-- A step of a listener's loop keeps it, if it does not leave the end of its loop. -/
theorem TcpServer.Quiet.setListener (h : s.Quiet l t) {k : Nat} {q : TcpListener} (q' : TcpListener)
    (hq : t.listeners[k]? = some q) (hstopped : q.phase = .stopped → q'.phase = .stopped) :
    ∃ p, (t.setListener k q').listeners[l]? = some p ∧ p.phase = .stopped := by
  obtain ⟨p, hp, hphase⟩ := h.stopped
  by_cases hk : l = k
  · subst hk
    rw [hp] at hq
    cases hq
    exact ⟨q', (set_eq_some hp).2 (.inl ⟨rfl, rfl⟩), hstopped hphase⟩
  · exact ⟨p, (set_eq_some hq).2 (.inr ⟨Ne.symm hk, hp⟩), hphase⟩

theorem TcpServer.Quiet.moves (h : s.Quiet l t) (hm : t.Moves u) : s.Quiet l u := by
  cases hm with
  | started =>
    obtain ⟨q, hq, hp⟩ := h.stopped
    exact ⟨⟨q, concat_eq_some.2 (.inl hq), hp⟩, h.same, h.fewer⟩
  | listener hq hown hgranted hstopped => exact ⟨h.setListener _ hq hstopped, h.same, h.fewer⟩
  | granted hq hphase hfree =>
    exact ⟨h.setListener _ hq fun hp => absurd (hphase.symm.trans hp) nofun, h.same, h.fewer⟩
  | @spawned k q hq hphase =>
    have hne : k ≠ l := by
      obtain ⟨p, hp, hstopped⟩ := h.stopped
      intro hk
      subst hk
      rw [hp] at hq
      cases hq
      exact absurd (hphase.symm.trans hstopped) nofun
    refine ⟨h.setListener _ hq fun hp => absurd (hphase.symm.trans hp) nofun, fun i x' hx' hl => ?_, ?_⟩
    · rcases concat_eq_some.1 hx' with hx' | ⟨rfl, rfl⟩
      · exact h.same i x' hx' hl
      · exact absurd hl hne
    · have hnew : TcpConnection.openAt l ⟨k, .connecting⟩ = false := by simp [TcpConnection.openAt, hne]
      simpa [List.countP_append, hnew] using h.fewer
  | connection hx hheld hheld' hopen => exact h.setConnection _ hx hopen
  | total hx hphase =>
    have := h.setConnection .released hx nofun
    exact ⟨this.stopped, this.same, this.fewer⟩
  | @tunnel i x q hx hphase hq =>
    have hended := h.setConnection .ended hx nofun
    exact ⟨hended.setListener { q with permits := q.permits + 1 } hq id, hended.same, hended.fewer⟩

end

/-- **Nothing is accepted any more.** Once the loop of a listener is left, which is what a
reconcile and a shutdown wait for, it stays left in every run, and its connections only end. -/
theorem stopped_stays {s t : TcpServer} {acts : List TcpAct} (h : tcpServer.Run s acts t) {l : Nat}
    {q : TcpListener} (hq : s.listeners[l]? = some q) (hp : q.phase = .stopped) : s.Quiet l t := by
  have hstart : s.Quiet l s := ⟨⟨q, hq, hp⟩, fun _ x hx hl => ⟨x, hx, hl, id⟩, Nat.le_refl _⟩
  exact h.keeps (fun _ _ _ hquiet hst => hquiet.moves (TcpServer.step_moves hst)) hstart

/-- The other listener still accepts. -/
theorem stopped_stays_other :
    ∃ s t : TcpServer, tcpServer.Run s [.tryTotal 1, .spawn 1, .finish 0] t ∧ s.Quiet 0 t :=
  let s : TcpServer := ⟨[⟨.stopped, true, 1023⟩, ⟨.holding, false, 1023⟩], [⟨0, .relaying⟩], 4095⟩
  let t : TcpServer := ⟨[⟨.stopped, true, 1023⟩, ⟨.selecting, false, 1023⟩], [⟨0, .returned⟩, ⟨1, .connecting⟩], 4094⟩
  have hrun : tcpServer.Run s [.tryTotal 1, .spawn 1, .finish 0] t := LTS.run_of_exec rfl
  ⟨s, t, hrun, stopped_stays (q := ⟨.stopped, true, 1023⟩) hrun rfl rfl⟩

end OrangeFrp.Controller
