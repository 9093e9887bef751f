import OrangeFrp.Controller.Relay

/-!
# A TCP connection (`frp-game-server/src/controller.rs`)

`proxy_tcp_connection` polls the copies of both directions and the cancellation, and
returns with the first of them: the other copy is dropped wherever it is. The two streams
are what the client and the backend send before they close their sending halves; at which
moment a part of them arrives is a matter of the schedule. When a peer closes may depend on
what it has received by then.

* `Proxy.step_smooth`: while nothing fails, is refused or is cancelled, a copy returns at
  the end of its stream only.
* `cut_short`: a peer that may close before it has received everything can end the connection.
* `relaying_complete_iff`: between which peers every connection relays both streams.
-/
namespace OrangeFrp.Controller

open OrangeFrp.Core

def Direction.other : Direction → Direction
  | .inbound => .outbound
  | .outbound => .inbound

def RelayPhase.returned : RelayPhase → Bool
  | .done _ | .panicked => true
  | _ => false

/-- mirrors crates/frp-game-server/src/controller.rs:390-410 -/
structure Proxy where
  upload : Relay
  download : Relay
  cancelled : Bool
  deriving DecidableEq

inductive ProxyAct (τ : Type) where
  | copy (direction : Direction) (act : RelayAct τ)
  | cancel

def Proxy.start (client backend : Bytes) : Proxy := ⟨.start client, .start backend, false⟩

def Proxy.relay (s : Proxy) : Direction → Relay
  | .inbound => s.upload
  | .outbound => s.download

def Proxy.set (s : Proxy) (r : Relay) : Direction → Proxy
  | .inbound => { s with upload := r }
  | .outbound => { s with download := r }

/-- `select!` has returned. -/
def Proxy.ended (s : Proxy) : Bool := s.cancelled || s.upload.phase.returned || s.download.phase.returned

section
variable {τ : Type} [Double τ]

/-- mirrors crates/frp-game-server/src/controller.rs:411-415 -/
def Proxy.step (s : Proxy) (act : ProxyAct τ) : Option Proxy :=
  if s.ended then none
  else match act with
    | .cancel => some { s with cancelled := true }
    | .copy direction act => ((s.relay direction).step act).map fun r => s.set r direction

/-- A connection between two streams. -/
def proxyTcpConnection (τ : Type) [Double τ] (client backend : Bytes) : LTS Proxy (ProxyAct τ) :=
  .ofFn (fun s => s = .start client backend) Proxy.step

end

/-! ## The peers -/

/-- What a peer sends, and whether it may close its sending half once it has received so much. -/
structure Peer where
  stream : Bytes
  closes : Bytes → Bool

/-- Something that the peer has received by now lets it close. -/
def Peer.MayClose (peer : Peer) (written : Bytes) : Prop :=
  ∃ received, received <+: written ∧ peer.closes received = true

/-- The peer does not close before it has received the whole stream. -/
def Peer.Waits (peer : Peer) (stream : Bytes) : Prop :=
  ∀ received, received <+: stream → received ≠ stream → peer.closes received = false

theorem Peer.MayClose.mono {peer : Peer} {written written' : Bytes} (h : peer.MayClose written)
    (hle : written <+: written') : peer.MayClose written' := by
  obtain ⟨received, hreceived, hcloses⟩ := h
  exact ⟨received, hreceived.trans hle, hcloses⟩

/-- A peer that waits and may have closed has received everything. -/
theorem Peer.Waits.whole {peer : Peer} {stream written : Bytes} (h : peer.Waits stream)
    (hmay : peer.MayClose written) (hle : written <+: stream) : written = stream := by
  obtain ⟨received, hreceived, hcloses⟩ := hmay
  have hall : received = stream := by
    by_contra hne
    rw [h received (hreceived.trans hle) hne] at hcloses
    cases hcloses
  exact hle.eq_of_length_le (hall ▸ hreceived.length_le)

/-- The read finds the end of the stream. -/
def RelayAct.ends {τ : Type} : RelayAct τ → Bool
  | .read 0 => true
  | _ => false

section
variable {τ : Type} [Double τ]

/-- Nothing is cancelled, fails or is refused, and a stream ends when its sender has closed. -/
def Proxy.Smooth (peers : Direction → Peer) (s : Proxy) : ProxyAct τ → Prop
  | .copy direction act => (s.relay direction).Smooth act ∧
      (act.ends = true → (peers direction).MayClose (s.relay direction.other).written)
  | .cancel => False

end

/-- A connection of the two peers in which nothing fails. -/
def between (τ : Type) [Double τ] (peers : Direction → Peer) : LTS Proxy (ProxyAct τ) :=
  (proxyTcpConnection τ (peers .inbound).stream (peers .outbound).stream).restrict (Proxy.Smooth peers)

/-- Both streams have been written to the other side. -/
def Proxy.Complete (peers : Direction → Peer) (s : Proxy) : Prop :=
  ∀ direction, (s.relay direction).written = (peers direction).stream

/-! ## A copy without failures -/

variable {τ : Type} [Double τ] {input : Bytes} {r r' : Relay} {s t : Proxy} {peers : Direction → Peer}

/-- It closes and returns at the end of its stream only. -/
def Relay.Clean (r : Relay) : Prop :=
  ∀ outcome, r.phase = .closing outcome ∨ r.phase = .done outcome → outcome = .ended

/-- What makes a copy return. -/
theorem Relay.step_returned {act : RelayAct τ} (h : r.Relayed input) (hst : r.Steps act r')
    (hreturned : r'.phase.returned = true) : act.fails = true ∨
      act = .shutdown ∧ ∃ outcome, r.phase = .closing outcome ∧ r' = { r with phase := .done outcome } := by
  have hplaced := (Relay.step_relayed h hst).placed
  cases hst with
  | shutdown hclosing => exact .inr ⟨rfl, _, hclosing, rfl⟩
  | failed => exact .inl rfl
  | panicked => exact hplaced.elim
  | granted =>
    unfold Relay.writeAll at hreturned
    dsimp only at hreturned
    split at hreturned <;> cases hreturned
  | write =>
    unfold Relay.writeAll at hreturned
    dsimp only at hreturned
    split at hreturned <;> cases hreturned
  | send =>
    dsimp only at hreturned
    split at hreturned <;> cases hreturned
  | _ => cases hreturned

theorem Relay.step_clean {act : RelayAct τ} (h : r.Relayed input) (hclean : r.Clean) (hst : r.Steps act r')
    (hact : r.Smooth act) : r'.Clean := by
  intro outcome hphase
  rcases hphase with hclosing | hdone
  · exact Relay.step_unrefused hst hact.2 outcome hclosing
  · rcases Relay.step_returned h hst (by rw [hdone]; rfl) with hfails | ⟨-, o, hclosing, rfl⟩
    · rw [hact.1] at hfails
      cases hfails
    · cases hdone
      exact hclean _ (.inl hclosing)

/-- What makes a copy close. -/
theorem Relay.step_closing {act : RelayAct τ} (hst : r.Steps act r') (hact : r.Smooth act) {outcome : Outcome}
    (hphase : r'.phase = .closing outcome) : act.ends = true := by
  cases hst with
  | ended => rfl
  | refused hreserving hrefused =>
    refine absurd ?_ hact.2
    rw [Relay.Refuses, hreserving]
    exact hrefused
  | granted =>
    unfold Relay.writeAll at hphase
    dsimp only at hphase
    split at hphase <;> cases hphase
  | write =>
    unfold Relay.writeAll at hphase
    dsimp only at hphase
    split at hphase <;> cases hphase
  | send =>
    dsimp only at hphase
    split at hphase <;> cases hphase
  | _ => cases hphase

/-- What is written stays written. -/
theorem Relay.step_written {act : RelayAct τ} (hst : r.Steps act r') : r.written <+: r'.written := by
  cases hst with
  | write => exact List.prefix_append _ _
  | _ => exact List.prefix_rfl

/-- A copy that has returned has written its stream. -/
theorem Relay.Relayed.whole (h : r.Relayed input) (hclean : r.Clean) (hreturned : r.phase.returned = true) :
    r.written = input := by
  have hplaced := h.placed
  have hstream := h.stream
  cases hphase : r.phase with
  | done outcome =>
    rw [hphase] at hplaced
    obtain ⟨hwritten, hunread⟩ := hplaced.2 (hclean outcome (.inr hphase))
    rw [hunread, List.append_nil] at hstream
    exact hwritten.trans hstream
  | panicked =>
    rw [hphase] at hplaced
    exact hplaced.elim
  | _ =>
    rw [hphase] at hreturned
    cases hreturned

/-! ## Both directions -/

/-- A copy that closes, or has returned, has found its sender closed. -/
structure Proxy.Sound (peers : Direction → Peer) (s : Proxy) : Prop where
  running : s.cancelled = false
  relayed : ∀ direction, (s.relay direction).Relayed (peers direction).stream
  clean : ∀ direction, (s.relay direction).Clean
  closed : ∀ direction outcome, (s.relay direction).phase = .closing outcome ∨
    (s.relay direction).phase = .done outcome → (peers direction).MayClose (s.relay direction.other).written

omit [Double τ] in
theorem Proxy.relay_set (s : Proxy) (r : Relay) (direction d : Direction) :
    (s.set r direction).relay d = if d = direction then r else s.relay d := by
  cases direction <;> cases d <;> rfl

omit [Double τ] in
theorem Proxy.ended_iff : s.ended = true ↔
    s.cancelled = true ∨ ∃ direction, (s.relay direction).phase.returned = true := by
  unfold Proxy.ended
  rw [Bool.or_eq_true, Bool.or_eq_true, or_assoc]
  refine or_congr_right ⟨?_, ?_⟩
  · rintro (h | h)
    · exact ⟨.inbound, h⟩
    · exact ⟨.outbound, h⟩
  · rintro ⟨direction, h⟩
    cases direction
    · exact .inl h
    · exact .inr h

/-- A smooth step is one of a copy. -/
theorem Proxy.step_smooth {l : ProxyAct τ} (hst : s.step l = some t) (hl : s.Smooth peers l) :
    ∃ direction act r', l = .copy direction act ∧ (s.relay direction).Smooth act ∧
      (act.ends = true → (peers direction).MayClose (s.relay direction.other).written) ∧
      (s.relay direction).Steps act r' ∧ t = s.set r' direction := by
  unfold Proxy.step at hst
  split at hst
  · cases hst
  cases l with
  | cancel => exact hl.elim
  | copy direction act =>
    obtain ⟨r', hr', rfl⟩ := Option.map_eq_some_iff.1 hst
    exact ⟨direction, act, r', rfl, hl.1, hl.2, Relay.step_cases hr', rfl⟩

/-- **A step** of a connection in which nothing fails. -/
theorem Proxy.step_sound {l : ProxyAct τ} (h : s.Sound peers) (hst : s.step l = some t)
    (hl : s.Smooth peers l) : t.Sound peers := by
  obtain ⟨direction, act, r', rfl, hact, hends, hsteps, rfl⟩ := Proxy.step_smooth hst hl
  have hwritten (d : Direction) : (s.relay d).written <+: ((s.set r' direction).relay d).written := by
    rw [Proxy.relay_set]
    split
    · rename_i hd
      exact hd ▸ Relay.step_written hsteps
    · exact List.prefix_rfl
  refine ⟨?_, fun d => ?_, fun d => ?_, fun d outcome hphase => ?_⟩
  · cases direction <;> exact h.running
  · rw [Proxy.relay_set]
    split
    · rename_i hd
      exact hd ▸ Relay.step_relayed (h.relayed direction) hsteps
    · exact h.relayed d
  · rw [Proxy.relay_set]
    split
    · exact Relay.step_clean (h.relayed direction) (h.clean direction) hsteps hact
    · exact h.clean d
  · refine Peer.MayClose.mono ?_ (hwritten d.other)
    rw [Proxy.relay_set] at hphase
    split at hphase
    · rename_i hd
      subst hd
      rcases hphase with hclosing | hdone
      · exact hends (Relay.step_closing hsteps hact hclosing)
      · rcases Relay.step_returned (h.relayed d) hsteps (by rw [hdone]; rfl) with hfails | ⟨-, o, hclosing, -⟩
        · rw [hact.1] at hfails
          cases hfails
        · exact h.closed d o (.inl hclosing)
    · exact h.closed d outcome hphase

theorem between_inductive (peers : Direction → Peer) : (between τ peers).Inductive fun s => s.Sound peers := by
  refine ⟨fun s h => ?_, fun s l t h hst => Proxy.step_sound h hst.1 hst.2⟩
  cases h
  refine ⟨rfl, fun d => ?_, fun d outcome hphase => ?_, fun d outcome hphase => ?_⟩
  · cases d <;> exact start_relayed _
  · cases d <;> rcases hphase with hphase | hphase <;> cases hphase
  · cases d <;> rcases hphase with hphase | hphase <;> cases hphase

omit [Double τ] in
/-- **Peers that wait** get everything before the connection ends. -/
theorem Proxy.Sound.complete (h : s.Sound peers) (hended : s.ended = true)
    (hwaits : ∀ direction, (peers direction).Waits (peers direction.other).stream) : s.Complete peers := by
  rcases Proxy.ended_iff.1 hended with hcancelled | ⟨direction, hreturned⟩
  · rw [h.running] at hcancelled
    cases hcancelled
  have hown := (h.relayed direction).whole (h.clean direction) hreturned
  have hmay : (peers direction).MayClose (s.relay direction.other).written := by
    cases hphase : (s.relay direction).phase with
    | done outcome => exact h.closed direction outcome (.inr hphase)
    | panicked =>
      have hplaced := (h.relayed direction).placed
      rw [hphase] at hplaced
      exact hplaced.elim
    | _ =>
      rw [hphase] at hreturned
      cases hreturned
  have hother := h.relayed direction.other
  have hwhole := (hwaits direction).whole hmay (hother.inOrder.trans (hother.stream ▸ List.prefix_append _ _))
  intro d
  by_cases hd : d = direction
  · exact hd ▸ hown
  · obtain rfl : d = direction.other := by cases d <;> cases direction <;> first | rfl | contradiction
    exact hwhole

/-! ## A peer that closes too early -/

theorem Relay.steps_running {act : RelayAct τ} (hst : r.Steps act r') : r.phase.returned = false := by
  cases hst with
  | failed hphase =>
    cases hp : r.phase with
    | done => rw [hp] at hphase; cases hphase
    | panicked => rw [hp] at hphase; cases hphase
    | _ => rfl
  | _ hphase => rw [hphase]; rfl

/-- The next bytes of the stream pass one by one. -/
theorem Relay.passes_each (bytes rest : Bytes) : ∀ {r : Relay}, r.Relayed input → r.phase = .reading →
    r.unread = bytes ++ rest → ∃ ls r', ((copyLimited τ input).restrict Relay.Smooth).Run r ls r' ∧
      (∀ l ∈ ls, l.ends = false) ∧ r'.phase = .reading ∧ r'.written = r.written ++ bytes ∧ r'.unread = rest := by
  induction bytes with
  | nil =>
    intro r _ hphase hunread
    exact ⟨[], r, .nil r, by simp, hphase, (List.append_nil _).symm, hunread⟩
  | cons byte bytes ih =>
    intro r h hphase hunread
    have hpass := @Relay.passes τ _ input r 1 h hphase Nat.zero_lt_one (by decide) (by rw [hunread]; simp)
    have hnext := (copyLimited_inductive input).run (LTS.run_restrict_iff.1 hpass).run h
    have htake : r.unread.take 1 = [byte] := by rw [hunread]; rfl
    have hdrop : (r.passed 1).unread = bytes ++ rest := by
      show r.unread.drop 1 = _
      rw [hunread]
      rfl
    obtain ⟨ls, r', hrun, hls, hphase', hwritten, hunread'⟩ := ih hnext rfl hdrop
    refine ⟨_, r', hpass.append hrun, fun l hl => ?_, hphase', ?_, hunread'⟩
    · rcases List.mem_append.1 hl with hl | hl
      · simp only [offering, List.cons_append, List.nil_append, List.mem_cons, List.not_mem_nil, or_false] at hl
        rcases hl with rfl | rfl | rfl | rfl <;> rfl
      · exact hls l hl
    · rw [hwritten]
      show r.written ++ r.unread.take 1 ++ bytes = _
      rw [htake, List.append_assoc]
      rfl

/-- A step of one copy while the other has not returned. -/
theorem Proxy.step_copy (direction : Direction) {act : RelayAct τ} (hcancelled : s.cancelled = false)
    (hother : (s.relay direction.other).phase.returned = false) (hst : (s.relay direction).step act = some r') :
    s.step (.copy direction act) = some (s.set r' direction) := by
  have hown := Relay.steps_running (Relay.step_cases hst)
  have hended : s.ended = false := by
    unfold Proxy.ended
    cases direction
    · rw [hcancelled, show s.upload.phase.returned = false from hown,
        show s.download.phase.returned = false from hother]
      rfl
    · rw [hcancelled, show s.download.phase.returned = false from hown,
        show s.upload.phase.returned = false from hother]
      rfl
  unfold Proxy.step
  rw [hended, if_neg Bool.false_ne_true]
  show ((s.relay direction).step act).map _ = _
  rw [hst]
  rfl

/-- A run of one copy before the end of its stream, while the other has not returned. -/
theorem run_copy (direction : Direction) {ls : List (RelayAct τ)}
    (hrun : ((copyLimited τ input).restrict Relay.Smooth).Run r ls r') (hls : ∀ l ∈ ls, l.ends = false) :
    ∀ {s : Proxy}, s.relay direction = r → s.cancelled = false →
      (s.relay direction.other).phase.returned = false →
      (between τ peers).Run s (ls.map (.copy direction)) (s.set r' direction) := by
  induction hrun with
  | nil r =>
    intro s hr _ _
    have hset : s.set r direction = s := by
      subst hr
      cases direction <;> rfl
    rw [hset]
    exact .nil s
  | @cons r r₁ r' act ls hst _ ih =>
    intro s hr hcancelled hother
    subst hr
    have hset : s.set r' direction = (s.set r₁ direction).set r' direction := by cases direction <;> rfl
    rw [hset]
    refine .cons ⟨Proxy.step_copy direction hcancelled hother hst.1, hst.2, fun hends => ?_⟩
      (ih (fun l hl => hls l (List.mem_cons_of_mem _ hl)) ?_ ?_ ?_)
    · rw [hls act List.mem_cons_self] at hends
      cases hends
    · rw [Proxy.relay_set, if_pos rfl]
    · cases direction <;> exact hcancelled
    · rw [Proxy.relay_set, if_neg (by cases direction <;> exact Direction.noConfusion)]
      exact hother

/-- **A connection that is cut short**: a peer that may close once it has received a part of the
other's stream does so, and its copy returns before the rest has passed. -/
theorem cut_short (direction : Direction) {received : Bytes} (hle : received <+: (peers direction.other).stream)
    (hne : received ≠ (peers direction.other).stream) (hcloses : (peers direction).closes received = true) :
    ∃ ls s, (between τ peers).Run (.start (peers .inbound).stream (peers .outbound).stream) ls s ∧
      s.ended = true ∧ (s.relay direction).written = (peers direction).stream ∧
      (s.relay direction.other).written = received ∧ ¬ s.Complete peers := by
  obtain ⟨rest, hstream⟩ := hle
  set s₀ := Proxy.start (peers .inbound).stream (peers .outbound).stream with hs₀
  have hstart (d : Direction) : s₀.relay d = .start (peers d).stream := by cases d <;> rfl
  have htwice : direction.other.other = direction := by cases direction <;> rfl
  have hdiffer : direction ≠ direction.other := by cases direction <;> exact Direction.noConfusion
  -- the part that the peer waits for passes
  obtain ⟨ls₁, r₁, hrun₁, hls₁, hphase₁, hwritten₁, -⟩ := @Relay.passes_each τ _ (peers direction.other).stream
    received rest (.start _) (start_relayed _) rfl hstream.symm
  have hfirst : (between τ peers).Run s₀ (ls₁.map (.copy direction.other)) (s₀.set r₁ direction.other) :=
    run_copy direction.other hrun₁ hls₁ (hstart _) rfl (by rw [hstart]; rfl)
  -- then all of its own stream
  obtain ⟨ls₂, r₂, hrun₂, hls₂, hphase₂, hwritten₂, hunread₂⟩ := @Relay.passes_each τ _ (peers direction).stream
    (peers direction).stream [] (.start _) (start_relayed _) rfl (List.append_nil _).symm
  have hown : (s₀.set r₁ direction.other).relay direction = .start (peers direction).stream := by
    rw [Proxy.relay_set, if_neg hdiffer, hstart]
  have hother : (s₀.set r₁ direction.other).relay direction.other = r₁ := by rw [Proxy.relay_set, if_pos rfl]
  have hsecond : (between τ peers).Run (s₀.set r₁ direction.other) (ls₂.map (.copy direction))
      ((s₀.set r₁ direction.other).set r₂ direction) :=
    run_copy direction hrun₂ hls₂ hown (by cases direction <;> rfl) (by rw [hother, hphase₁]; rfl)
  set s₂ := (s₀.set r₁ direction.other).set r₂ direction with hs₂
  have hown₂ : s₂.relay direction = r₂ := by rw [hs₂, Proxy.relay_set, if_pos rfl]
  have hother₂ : s₂.relay direction.other = r₁ := by rw [hs₂, Proxy.relay_set, if_neg hdiffer.symm, hother]
  have hcancelled₂ : s₂.cancelled = false := by cases direction <;> rfl
  -- and its end
  have hread : r₂.step (.read 0 : RelayAct τ) = some { r₂ with phase := .closing .ended } := by
    obtain ⟨unread, buffer, phase, got, written, events⟩ := r₂
    cases hphase₂
    cases hunread₂
    simp [Relay.step]
  have hend : s₂.step (.copy direction (.read 0) : ProxyAct τ) =
      some (s₂.set { r₂ with phase := .closing .ended } direction) :=
    Proxy.step_copy direction hcancelled₂ (by rw [hother₂, hphase₁]; rfl) (by rw [hown₂]; exact hread)
  set s₃ := s₂.set { r₂ with phase := .closing .ended } direction with hs₃
  have hown₃ : s₃.relay direction = { r₂ with phase := .closing .ended } := by rw [hs₃, Proxy.relay_set, if_pos rfl]
  have hother₃ : s₃.relay direction.other = r₁ := by rw [hs₃, Proxy.relay_set, if_neg hdiffer.symm, hother₂]
  have hreturn : s₃.step (.copy direction .shutdown : ProxyAct τ) =
      some (s₃.set { r₂ with phase := .done .ended } direction) :=
    Proxy.step_copy direction (by cases direction <;> rfl) (by rw [hother₃, hphase₁]; rfl) (by rw [hown₃]; rfl)
  set s₄ := s₃.set { r₂ with phase := .done .ended } direction with hs₄
  have hown₄ : s₄.relay direction = { r₂ with phase := .done .ended } := by rw [hs₄, Proxy.relay_set, if_pos rfl]
  have hother₄ : s₄.relay direction.other = r₁ := by rw [hs₄, Proxy.relay_set, if_neg hdiffer.symm, hother₃]
  have hrest : (between τ peers).Run s₂ [.copy direction (.read 0), .copy direction .shutdown] s₄ := by
    refine .cons ⟨hend, ⟨rfl, not_false⟩, fun _ => ⟨received, ?_, hcloses⟩⟩
      (.cons ⟨hreturn, ⟨rfl, not_false⟩, fun hends => by cases hends⟩ (.nil _))
    rw [hother₂, hwritten₁]
    exact List.prefix_rfl
  refine ⟨_, s₄, (hfirst.append hsecond).append hrest, Proxy.ended_iff.2 (.inr ⟨direction, by rw [hown₄]; rfl⟩), ?_, ?_,
    fun hcomplete => hne ?_⟩
  · rw [hown₄]
    exact hwritten₂
  · rw [hother₄, hwritten₁]
    rfl
  · have hwhole := hcomplete direction.other
    rw [hother₄, hwritten₁] at hwhole
    exact hwhole

/-- **Between which peers every connection relays both streams**: neither may close its sending
half before it has received the other's whole stream. -/
theorem relaying_complete_iff (τ : Type) [Double τ] (peers : Direction → Peer) :
    (∀ ls s, (between τ peers).Run (.start (peers .inbound).stream (peers .outbound).stream) ls s →
      s.ended = true → s.Complete peers) ↔
    ∀ direction, (peers direction).Waits (peers direction.other).stream := by
  refine ⟨fun h direction received hle hne => ?_, fun hwaits ls s hrun hended => ?_⟩
  · by_contra hcloses
    obtain ⟨ls, s, hrun, hended, -, -, hcut⟩ := cut_short (τ := τ) direction hle hne (Bool.eq_true_of_not_eq_false hcloses)
    exact hcut (h ls s hrun hended)
  · have hinv := between_inductive (τ := τ) peers
    exact (hinv.run hrun (hinv.init _ rfl)).complete hended hwaits

/-- Both may close whenever they like. -/
def impatient : Direction → Peer
  | .inbound => ⟨[7], fun _ => true⟩
  | .outbound => ⟨[9], fun _ => true⟩

/-- The client sends one byte and closes, and the backend's answer is never written to it. -/
theorem answer_lost : ∃ ls s, (between Rat impatient).Run (.start [7] [9]) ls s ∧ s.ended = true ∧
    s.upload.written = [7] ∧ s.download.written = [] ∧ ¬ s.Complete impatient := by
  obtain ⟨ls, s, hrun, hended, hupload, hdownload, hcut⟩ := @cut_short Rat _ impatient .inbound [] List.nil_prefix
    (List.cons_ne_nil _ _).symm rfl
  exact ⟨ls, s, hrun, hended, hupload, hdownload, hcut⟩

end OrangeFrp.Controller
