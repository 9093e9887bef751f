import OrangeFrp.Controller.Meter
import OrangeFrp.Controller.Sessions

/-!
# The channel to the accounting task

What the accounting task has received is the beginning of what the sessions have sent.
What it does with the channel only moves events from the queue to it, so that the bytes
of a user stay balanced and its gate keeps counting, whoever moves.

* `Network.Sound.step`, `Network.Sound.regrouped`, `Network.Sound.closed`: every change of
  the network keeps this.
* `Network.Sound.lost`: where the reserved bytes of a user are when all its sessions
  have ended, and `Network.lost_eq_zero`: when none of them are lost.
-/
namespace OrangeFrp.Controller

open OrangeFrp.Core OrangeFrp.Storage

section
variable {τ : Type}

/-- The bytes of every user are balanced, its gate counts what was reserved, and what was
received is the beginning of what was sent. -/
structure Network.Sound (c : ServerConfig) (n : Network τ) : Prop where
  balanced : ∀ userId, n.Balanced userId
  told : n.taken <+: n.sent
  held : ∀ u ∈ c.users, ∃ r, n.Held u.id r u.trafficUsedBytes

/-- Events have moved from the queue to the accounting task, or a call of `reconcile` was
given up. -/
structure Regrouped (n n' : Network τ) : Prop where
  same : ∃ queue taken reconciling,
    n' = { n with queue := queue, taken := taken, reconciling := reconciling }
  moved : n'.taken ++ n'.queue = n.taken ++ n.queue
  receiving : n.receiving = true ∨ n'.taken = n.taken

/-- The step leaves the receiving end alone. -/
def NetworkAct.sends : NetworkAct → Bool
  | .take | .close => false
  | _ => true

/-- What listeners and sessions do on their own. -/
def NetworkAct.ofPeers : NetworkAct → Bool
  | .accept _ | .leave _ | .session _ _ => true
  | _ => false

theorem NetworkAct.sends_of_peers {act : NetworkAct} (h : act.ofPeers = true) : act.sends = true := by
  cases act <;> first | rfl | exact h

/-- The step sends the event of a chunk. -/
def SessionAct.tells : SessionAct → Bool
  | .copy _ .send | .datagram .send => true
  | _ => false

def NetworkAct.tells : NetworkAct → Bool
  | .session _ act => act.tells
  | _ => false

/-- What was granted and not written when a session ended. -/
def Network.unwrittenLost (n : Network τ) (userId : Str) : Nat :=
  (n.sessions.map fun q => if q.spec.userId = userId ∧ q.ended then q.flow.unwritten else 0).sum

/-- What was written and not told of when a session ended. -/
def Network.unsentLost (n : Network τ) (userId : Str) : Nat :=
  (n.sessions.map fun q => if q.spec.userId = userId ∧ q.ended then q.flow.unsent else 0).sum

/-- What was told of and not received. -/
def Network.unheard (n : Network τ) (userId : Str) : Nat :=
  bytesOf (n.sent.drop n.taken.length) userId

end

section
variable {τ : Type} [Double τ] {c : ServerConfig} {n n' : Network τ}

/-- A step may send, and does not touch what was received. -/
theorem Network.step_channel {act : NetworkAct} (ha : act.sends = true) (h : n.step act = some n') :
    n'.receiving = n.receiving ∧ n'.taken = n.taken ∧ n.sent <+: n'.sent := by
  cases act with
  | accept listener =>
    obtain ⟨task, -, h⟩ := Option.bind_eq_some_iff.1 h
    cases h
    exact ⟨rfl, rfl, List.prefix_refl _⟩
  | leave listener =>
    obtain ⟨task, -, h⟩ := Option.bind_eq_some_iff.1 h
    split at h <;> cases h
    exact ⟨rfl, rfl, List.prefix_refl _⟩
  | session number act =>
    obtain ⟨q, g, m, -, rfl⟩ := Network.advance_eq h
    exact ⟨rfl, rfl, List.prefix_append _ _⟩
  | reconcile act =>
    obtain ⟨k, listeners, reconciling, rfl⟩ := Network.reconcile_same h
    exact ⟨rfl, rfl, List.prefix_refl _⟩
  | shutdown => cases h; exact ⟨rfl, rfl, List.prefix_refl _⟩
  | take => cases ha
  | close => cases ha

theorem Copy.step_untold {direction : Direction} {s : Copy} {g : GateState τ} {room : Bool}
    {act : CopyAct} {m : Move τ Copy} (ha : act ≠ .send) (h : s.step direction g room act = some m) :
    m.sent = none := by
  unfold Copy.step at h
  split at h
  · split at h <;> cases h
    rfl
  · split at h <;> cases h <;> rfl
  · split at h <;> cases h
    rfl
  · exact absurd rfl ha
  · cases h

theorem Forward.step_untold {s : Forward} {g : GateState τ} {room : Bool} {act : ForwardAct}
    {m : Move τ Forward} (ha : act ≠ .send) (h : s.step g room act = some m) : m.sent = none := by
  unfold Forward.step at h
  split at h
  · cases h; rfl
  · split at h
    · split at h <;> cases h <;> rfl
    · cases h; rfl
    · cases h; rfl
  · cases h; rfl
  · exact absurd rfl ha
  · cases h

theorem Flow.step_untold {flow : Flow} {g : GateState τ} {room : Bool} {act : SessionAct}
    {m : Move τ Flow} (ha : act.tells = false) (h : flow.step g room act = some m) : m.sent = none := by
  have hcopy : ∀ direction act, (SessionAct.copy direction act).tells = false → act ≠ .send := by
    intro direction act ht he
    rw [he] at ht
    cases ht
  unfold Flow.step at h
  split at h
  · obtain ⟨m₀, hm, rfl⟩ := Option.map_eq_some_iff.1 h
    exact (Copy.step_untold (hcopy _ _ ha) hm : m₀.sent = none)
  · obtain ⟨m₀, hm, rfl⟩ := Option.map_eq_some_iff.1 h
    exact (Copy.step_untold (hcopy _ _ ha) hm : m₀.sent = none)
  · obtain ⟨m₀, hm, rfl⟩ := Option.map_eq_some_iff.1 h
    refine (Forward.step_untold (fun he => ?_) hm : m₀.sent = none)
    rw [he] at ha
    cases ha
  · cases h; rfl
  · cases h

/-- Peers that tell of nothing send nothing. -/
theorem Network.step_untold {act : NetworkAct} (hp : act.ofPeers = true) (ha : act.tells = false)
    (h : n.step act = some n') : n'.sent = n.sent := by
  cases act with
  | accept listener =>
    obtain ⟨task, -, h⟩ := Option.bind_eq_some_iff.1 h
    cases h
    rfl
  | leave listener =>
    obtain ⟨task, -, h⟩ := Option.bind_eq_some_iff.1 h
    split at h <;> cases h
    rfl
  | session number act =>
    obtain ⟨q, g, m, hadv, rfl⟩ := Network.advance_eq h
    show n.sent ++ (m.sent.map q.event).toList = n.sent
    rw [Flow.step_untold ha hadv.step]
    exact List.append_nil _
  | _ => cases hp

theorem Network.Sound.step {act : NetworkAct} (h : n.Sound c) (ha : act.sends = true)
    (hk : ∀ u ∈ c.users, act.Keeps u.id none) (hst : n.step act = some n') : n'.Sound c := by
  obtain ⟨-, htaken, hsent⟩ := Network.step_channel ha hst
  refine ⟨fun userId => Network.step_balanced (h.balanced userId) hst, ?_, fun u hu => ?_⟩
  · rw [htaken]
    exact h.told.trans hsent
  · obtain ⟨r, hheld⟩ := h.held u hu
    exact ⟨r, Network.step_held hheld (h.balanced u.id) (hk u hu) hst⟩

omit [Double τ] in
theorem Network.Sound.regrouped (h : n.Sound c) (hr : Regrouped n n') : n'.Sound c := by
  obtain ⟨⟨queue, taken, reconciling, rfl⟩, hmoved, hrec⟩ := hr
  refine ⟨fun userId => ?_, ?_, fun u hu => ?_⟩
  · obtain ⟨hreserved, hdelivered, hwhole, htaken⟩ := h.balanced userId
    exact ⟨hreserved, hdelivered, hwhole, fun hr => (htaken hr).trans hmoved.symm⟩
  · rcases hrec with hrec | hsame
    · have hsent := (h.balanced []).taken hrec
      show taken <+: n.sent
      rw [hsent, ← hmoved]
      exact List.prefix_append _ _
    · show taken <+: n.sent
      rw [show taken = n.taken from hsame]
      exact h.told
  · obtain ⟨r, hgated, hlisteners, hsessions, hused⟩ := h.held u hu
    exact ⟨r, hgated, hlisteners, hsessions, hused⟩

omit [Double τ] in
theorem Network.Sound.closed (h : n.Sound c) : Network.Sound c { n with receiving := false } := by
  refine ⟨fun userId => ?_, h.told, fun u hu => ?_⟩
  · obtain ⟨hreserved, hdelivered, hwhole, -⟩ := h.balanced userId
    exact ⟨hreserved, hdelivered, hwhole, fun hr => by cases hr⟩
  · obtain ⟨r, hgated, hlisteners, hsessions, hused⟩ := h.held u hu
    exact ⟨r, hgated, hlisteners, hsessions, hused⟩

theorem open_sound (hn : (c.users.map (·.id)).Nodup) (hfit : ∀ u ∈ c.users, u.trafficUsedBytes ≤ U64_MAX)
    (now : Nat) : (Network.open c now : Network τ).Sound c where
  balanced := open_balanced c now
  told := List.prefix_refl _
  held u hu := by
    obtain ⟨r, hheld, -⟩ := @open_held τ _ c hn now u hu (hfit u hu)
    exact ⟨r, hheld⟩

omit [Double τ] in
/-- While the task is there, what it has not received is in the queue. -/
theorem Network.Sound.unheard_queue (h : n.Sound c) (hr : n.receiving = true) (userId : Str) :
    n.unheard userId = bytesOf n.queue userId := by
  rw [Network.unheard, (h.balanced userId).taken hr, List.drop_left]

omit [Double τ] in
theorem Network.Held.used_eq {userId : Str} {r : GateRef} {before : Nat} (h : n.Held userId r before) :
    n.used userId = some (min (before + n.reserved userId) U64_MAX) := by
  obtain ⟨g, hg, hused⟩ := h.used
  rw [Network.used, h.gated.ref, Option.bind_some, hg, Option.map_some, hused]

omit [Double τ] in
/-- **With all sessions of a user ended**, its bytes were received by the accounting task,
or lost: granted and not written, written and not told of, or told of too late. -/
theorem Network.Sound.lost (h : n.Sound c) {userId : Str}
    (hended : ∀ q ∈ n.sessions, q.spec.userId = userId → q.ended = true) :
    n.reserved userId = n.delivered userId + n.unwrittenLost userId ∧
      n.delivered userId = bytesOf n.taken userId + n.unheard userId + n.unsentLost userId := by
  have hsum : ∀ f : Session → Nat, (n.sessions.map fun q => if q.spec.userId = userId then f q else 0) =
      n.sessions.map fun q => if q.spec.userId = userId ∧ q.ended then f q else 0 := by
    intro f
    refine List.map_congr_left fun q hq => ?_
    by_cases hu : q.spec.userId = userId
    · simp [hu, hended q hq hu]
    · simp [hu]
  obtain ⟨hreserved, hdelivered, -, -⟩ := h.balanced userId
  rw [Network.unwritten, hsum] at hreserved
  rw [Network.unsent, hsum] at hdelivered
  refine ⟨hreserved, hdelivered.trans (congrArg (· + n.unsentLost userId) ?_)⟩
  obtain ⟨rest, hrest⟩ := h.told
  rw [Network.unheard, ← hrest, List.drop_left, bytesOf_append]

omit [Double τ] in
/-- Nothing is lost with sessions that have ended with nothing under way. -/
theorem Network.lost_eq_zero {userId : Str}
    (hended : ∀ q ∈ n.sessions, q.spec.userId = userId → q.ended = true) :
    n.unwrittenLost userId = 0 ∧ n.unsentLost userId = 0 ↔
      ∀ q ∈ n.sessions, q.spec.userId = userId → q.flow.unwritten = 0 ∧ q.flow.unsent = 0 := by
  unfold Network.unwrittenLost Network.unsentLost
  rw [sum_map_eq_zero, sum_map_eq_zero, ← forall₂_and]
  refine forall₂_congr fun q hq => ?_
  by_cases hu : q.spec.userId = userId
  · simp [hu, hended q hq hu]
  · simp [hu]

omit [Double τ] in
/-- The meter of all traffic is what the events tell of. -/
theorem meterOf_used (events : List TrafficEvent) (userId : Str) :
    meterOf events userId .used = bytesOf events userId := rfl

end

end OrangeFrp.Controller
