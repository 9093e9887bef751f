import Mathlib.Algebra.Order.Archimedean.Basic
import Mathlib.Algebra.Order.Field.Rat
import OrangeFrp.Controller.Sessions
import OrangeFrp.Core.Bucket

/-!
# The speed limit (`frp-game-server/src/controller.rs`)

The bucket of a gate, with amounts of tokens as rational numbers and a clock that ticks any
number of times a second. A reservation refills and takes under one lock; the clock is read
twice for a refill, and what passes between the readings is not credited. `reconcile` sets
the limits of every gate, but leaves the bucket of a user whose speed stays the same.

* `granted_spends`: the grants of a gate, over a run of reservations and `reconcile`s.
* `waits_finitely`: a lone waiter is granted.
* `speed_limit_conforms`: what is granted within a window, and to a lone waiter.
-/
namespace OrangeFrp.Controller

open OrangeFrp.Core OrangeFrp.Storage

/-- Exact arithmetic, with a clock of so many ticks a second. -/
def Exact (_perSecond : Nat) : Type := Rat

instance (perSecond : Nat) : Double (Exact perSecond) where
  ofNat n := (n : Rat)
  seconds n := (n / perSecond : Rat)
  add := fun a b : Rat => a + b
  sub := fun a b : Rat => a - b
  mul := fun a b : Rat => a * b
  min := (Min.min : Rat → Rat → Rat)
  ge := fun a b : Rat => decide (b ≤ a)

variable {perSecond : Nat}

/-- The tokens of a gate. -/
def GateState.held (g : GateState (Exact perSecond)) : Rat := g.tokens

/-- The gate's bucket, in seconds. -/
def GateState.bucket (g : GateState (Exact perSecond)) : Bucket Rat := ⟨g.held, g.lastRefill / perSecond⟩

/-- What the bucket holds at a tick of the clock. -/
def GateState.levelAt (g : GateState (Exact perSecond)) (tick : Nat) : Rat :=
  g.bucket.level (burstCapacity g.bytesPerSecond) g.bytesPerSecond (tick / perSecond)

/-! ## A round at the gate -/

theorem ticks_le {m n : Nat} (h : m ≤ n) : (m / perSecond : Rat) ≤ n / perSecond :=
  div_le_div_of_nonneg_right (Nat.cast_le.2 h) (Nat.cast_nonneg _)

theorem refill_held {g : GateState (Exact perSecond)} {now : Readings} (h : g.lastRefill ≤ now.first) :
    (g.refillTokens now).held = g.levelAt now.first := by
  have hsub : ((now.first - g.lastRefill : Nat) / perSecond : Rat) =
      now.first / perSecond - g.lastRefill / perSecond := by
    rw [Nat.cast_sub h, sub_div]
  show min (g.held + ((now.first - g.lastRefill : Nat) / perSecond : Rat) * g.bytesPerSecond)
    (burstCapacity g.bytesPerSecond : Rat) = _
  rw [hsub]
  rfl

theorem level_now (g : GateState (Exact perSecond)) : g.levelAt g.lastRefill ≤ g.held := by
  unfold GateState.levelAt GateState.bucket Bucket.level
  rw [sub_self, zero_mul, add_zero]
  exact min_le_left _ _

/-- **What a round does to the bucket** of a gate with a speed limit. -/
theorem attempt_bucket {g : GateState (Exact perSecond)} (hb : 0 < g.bytesPerSecond) {now : Readings}
    (h : g.lastRefill ≤ now.first) (requested : Nat) (exact : Bool) :
    (g.attempt requested exact now).2.bytesPerSecond = g.bytesPerSecond ∧
      match (g.attempt requested exact now).1 with
      | .granted n => (n : Rat) ≤ g.levelAt now.first ∧
          (g.attempt requested exact now).2.held = g.levelAt now.first - n ∧
          (g.attempt requested exact now).2.lastRefill = now.second
      | .refused => (g.attempt requested exact now).2 = g
      | .wait => g.levelAt now.first < (min requested g.remaining : Nat) ∧
          (g.attempt requested exact now).2.held = g.levelAt now.first ∧
          (g.attempt requested exact now).2.lastRefill = now.second := by
  have hheld := refill_held h
  unfold GateState.attempt
  split
  · exact ⟨rfl, rfl⟩
  dsimp only
  rw [if_neg (Nat.pos_iff_ne_zero.1 hb)]
  have hge : Double.ge (g.refillTokens now).tokens
      (Double.ofNat (min requested g.remaining) : Exact perSecond) =
      decide (((min requested g.remaining : Nat) : Rat) ≤ g.levelAt now.first) := by
    rw [← hheld]
    rfl
  rw [hge]
  by_cases henough : ((min requested g.remaining : Nat) : Rat) ≤ g.levelAt now.first
  · rw [if_pos (decide_eq_true henough)]
    refine ⟨rfl, henough, ?_, rfl⟩
    rw [← hheld]
    rfl
  · rw [if_neg (by simpa using henough)]
    exact ⟨rfl, not_le.1 henough, hheld, rfl⟩

theorem updateLimits_bucket {g : GateState (Exact perSecond)} {limitBytes speedLimitMbps now : Nat}
    (h : speedBytesPerSecond speedLimitMbps = g.bytesPerSecond) :
    (g.updateLimits limitBytes speedLimitMbps now).bytesPerSecond = g.bytesPerSecond ∧
      (g.updateLimits limitBytes speedLimitMbps now).held = g.held ∧
      (g.updateLimits limitBytes speedLimitMbps now).lastRefill = g.lastRefill := by
  unfold GateState.updateLimits
  dsimp only
  rw [if_neg (by rw [ne_eq, not_not]; exact h.symm)]
  exact ⟨rfl, rfl, rfl⟩

/-- A round that reads the clock, or one that leaves the bucket alone. -/
inductive Drawn (g g' : GateState (Exact perSecond)) (now : Readings) (n : Nat) : Prop
  | kept (hn : n = 0) (hheld : g'.held = g.held) (hlast : g'.lastRefill = g.lastRefill)
  | drawn (hn : n ≠ 0 → (n : Rat) ≤ g.levelAt now.first) (hheld : g'.held = g.levelAt now.first - n)
      (hlast : g'.lastRefill = now.second)

/-- The bytes of an answer. -/
def Attempt.bytes : Attempt → Nat
  | .granted n => n
  | _ => 0

theorem reserve_drawn {g : GateState (Exact perSecond)} (hb : 0 < g.bytesPerSecond) {now : Readings}
    (h : g.lastRefill ≤ now.first) (requested : Nat) (exact : Bool) :
    Drawn g (g.reserve requested exact now).2 now (g.reserve requested exact now).1.bytes := by
  unfold GateState.reserve
  split
  · exact .kept rfl rfl rfl
  obtain ⟨-, hspec⟩ := attempt_bucket hb h requested exact
  cases ha : (g.attempt requested exact now).1 with
  | granted n =>
    rw [ha] at hspec
    exact .drawn (fun _ => hspec.1) hspec.2.1 hspec.2.2
  | refused =>
    rw [ha] at hspec
    exact .kept rfl (by rw [hspec]) (by rw [hspec])
  | wait =>
    rw [ha] at hspec
    refine .drawn (fun hn => absurd rfl hn) ?_ hspec.2.2
    show _ = g.levelAt now.first - ((0 : Nat) : Rat)
    rw [Nat.cast_zero, sub_zero]
    exact hspec.2.1

/-! ## The rounds of a user -/

def SessionAct.readings : SessionAct → Option Readings
  | .copy _ (.reserve now) => some now
  | .datagram (.reserve now) => some now
  | _ => none

section
variable {τ : Type} [Double τ]

/-- The round that a step takes at the gate of the user: when, and what is granted. -/
def Network.round (userId : Str) (s : Network τ) : NetworkAct → Option (Readings × Nat)
  | .session number act => do
    let now ← act.readings
    let q ← s.sessions[number]?
    let t ← s.advance number act
    if q.spec.userId = userId then some (now, t.reserved userId - s.reserved userId) else none
  | _ => none

/-- The rounds of a run. -/
def Network.rounds (userId : Str) : Network τ → List NetworkAct → List (Readings × Nat)
  | _, [] => []
  | s, l :: ls => (s.round userId l).toList ++ ((s.step l).map fun t => t.rounds userId ls).getD []

/-- What a step of a session does at its gate. -/
structure Asked (g : GateState τ) (act : SessionAct) (gate : GateState τ) (granted : Nat) : Prop where
  asked : ∀ now, act.readings = some now → ∃ requested exact,
    gate = (g.reserve requested exact now).2 ∧ granted = (g.reserve requested exact now).1.bytes
  quiet : act.readings = none → gate = g ∧ granted = 0

theorem Copy.step_asked {direction : Direction} {g : GateState τ} {room : Bool} {s : Copy} {a : CopyAct}
    {m : Move τ Copy} (h : s.step direction g room a = some m) :
    Asked g (.copy direction a) m.gate m.granted := by
  unfold Copy.step at h
  split at h
  · split at h <;> cases h
    exact ⟨fun _ hr => (by cases hr), fun _ => ⟨rfl, rfl⟩⟩
  · rename_i left now
    refine ⟨fun now' hnow => ⟨left, false, ?_⟩, fun hr => by cases hr⟩
    cases hnow
    split at h <;> rename_i hr <;> cases h <;> rw [hr] <;> exact ⟨rfl, rfl⟩
  · split at h <;> cases h
    exact ⟨fun _ hr => (by cases hr), fun _ => ⟨rfl, rfl⟩⟩
  · split at h <;> cases h
    exact ⟨fun _ hr => (by cases hr), fun _ => ⟨rfl, rfl⟩⟩
  · cases h

theorem Forward.step_asked {g : GateState τ} {room : Bool} {s : Forward} {a : ForwardAct}
    {m : Move τ Forward} (h : s.step g room a = some m) : Asked g (.datagram a) m.gate m.granted := by
  unfold Forward.step at h
  split at h
  · cases h
    exact ⟨fun _ hr => (by cases hr), fun _ => ⟨rfl, rfl⟩⟩
  · rename_i direction size now
    refine ⟨fun now' hnow => ⟨size, true, ?_⟩, fun hr => by cases hr⟩
    cases hnow
    split at h <;> rename_i hr
    · rw [hr]
      split at h <;> cases h <;> exact ⟨rfl, rfl⟩
    · cases h; rw [hr]; exact ⟨rfl, rfl⟩
    · cases h; rw [hr]; exact ⟨rfl, rfl⟩
  · cases h
    exact ⟨fun _ hr => (by cases hr), fun _ => ⟨rfl, rfl⟩⟩
  · split at h <;> cases h
    exact ⟨fun _ hr => (by cases hr), fun _ => ⟨rfl, rfl⟩⟩
  · cases h

theorem Flow.step_asked {g : GateState τ} {room : Bool} {s : Flow} {a : SessionAct} {m : Move τ Flow}
    (h : s.step g room a = some m) : Asked g a m.gate m.granted := by
  unfold Flow.step at h
  split at h
  · obtain ⟨m₀, hm, rfl⟩ := Option.map_eq_some_iff.1 h
    exact Copy.step_asked hm
  · obtain ⟨m₀, hm, rfl⟩ := Option.map_eq_some_iff.1 h
    exact Copy.step_asked hm
  · obtain ⟨m₀, hm, rfl⟩ := Option.map_eq_some_iff.1 h
    exact Forward.step_asked hm
  · cases h
    exact ⟨fun _ hr => (by cases hr), fun _ => ⟨rfl, rfl⟩⟩
  · cases h

end

/-! ## Runs that keep the speed -/

/-- A call keeps the user, with its speed in bytes per second. -/
def NetworkAct.KeepsSpeed (userId : Str) (rate : Nat) : NetworkAct → Prop
  | .reconcile (.call c) => userId ∈ c.users.map (·.id) ∧
      ∀ v ∈ c.users, v.id = userId → speedBytesPerSecond v.speedLimitMbps = rate
  | _ => True

/-- No call under way is about to change the speed. -/
def Network.Pending {τ : Type} (s : Network τ) (userId : Str) (rate : Nat) : Prop :=
  ∀ c users, s.reconciling = .gates c users → ∀ v ∈ users, v.id = userId →
    speedBytesPerSecond v.speedLimitMbps = rate

/-- The gate of the user, with its speed. -/
structure Network.Steady (s : Network (Exact perSecond)) (userId : Str) (r : GateRef)
    (g : GateState (Exact perSecond)) (rate : Nat) : Prop where
  gate : s.controller.heap[r]? = some g
  inForce : g.bytesPerSecond = rate
  pending : s.Pending userId rate

theorem NetworkAct.KeepsSpeed.user {userId : Str} {rate : Nat} {l : NetworkAct}
    (h : l.KeepsSpeed userId rate) : l.Keeps userId none := by
  cases l with
  | reconcile act => cases act <;> first | exact ⟨h.1, fun _ hl => by cases hl⟩ | trivial
  | _ => trivial

section
variable {s t : Network (Exact perSecond)} {userId : Str} {r : GateRef} {rate before : Nat}
  {g : GateState (Exact perSecond)}

theorem Network.reconcile_pending {act : ReconcileAct} (h : s.Pending userId rate)
    (hk : (NetworkAct.reconcile act).KeepsSpeed userId rate) (hst : s.reconcile act = some t) :
    t.Pending userId rate := by
  intro c users hrec v hv hid
  cases act with
  | call c' =>
    simp only [Network.reconcile] at hst
    split at hst
    · cases hst
      cases hrec
      exact hk.2 v hv hid
    · cases hst
  | gate now =>
    simp only [Network.reconcile] at hst
    split at hst
    · rename_i c₀ u users₀ hrec₀
      cases hst
      cases hrec
      exact h c (u :: users) hrec₀ v (List.mem_cons_of_mem u hv) hid
    · cases hst
  | start free =>
    simp only [Network.reconcile] at hst
    split at hst
    · split at hst
      · cases hst; cases hrec
      split at hst
      · cases hst; cases hrec
      split at hst <;> cases hst <;> cases hrec
    · cases hst
  | joined order =>
    simp only [Network.reconcile] at hst
    split at hst
    · split at hst <;> cases hst
      cases hrec
    · cases hst
  | _ =>
    simp only [Network.reconcile] at hst
    split at hst <;> cases hst
    cases hrec

theorem Network.round_session {number : Nat} {act : SessionAct} {q : Session}
    {m : Move (Exact perSecond) Flow} (ha : s.Advances number act q g m)
    (hst : s.advance number act = some t) (ht : t.reserved = bump s.reserved q.spec.userId m.granted) :
    s.round userId (.session number act) = act.readings.bind fun now =>
      if q.spec.userId = userId then some (now, m.granted) else none := by
  show (act.readings.bind fun now => s.sessions[number]?.bind fun q => (s.advance number act).bind fun t =>
    if q.spec.userId = userId then some (now, t.reserved userId - s.reserved userId) else none) = _
  rw [ha.session, hst]
  refine congrArg _ (funext fun now => ?_)
  simp only [Option.bind_some]
  by_cases hu : q.spec.userId = userId
  · rw [if_pos hu, if_pos hu, ht, bump, if_pos hu.symm, Nat.add_sub_cancel_left]
  · rw [if_neg hu, if_neg hu]

/-- A step takes a round at the gate, or leaves the bucket alone. -/
structure Network.Stepped (s t : Network (Exact perSecond)) (userId : Str) (r : GateRef) (rate : Nat)
    (g g' : GateState (Exact perSecond)) (l : NetworkAct) : Prop where
  steady : t.Steady userId r g' rate
  quiet : s.round userId l = none → g'.held = g.held ∧ g'.lastRefill = g.lastRefill
  round : ∀ now n, s.round userId l = some (now, n) → g.lastRefill ≤ now.first → Drawn g g' now n

theorem Network.step_steady {l : NetworkAct} (hheld : s.Held userId r before) (h : s.Steady userId r g rate)
    (hpos : 0 < rate) (hk : l.KeepsSpeed userId rate) (hst : s.step l = some t) :
    ∃ g', s.Stepped t userId r rate g g' l := by
  have hsame : ∀ t' : Network (Exact perSecond), t'.controller.heap = s.controller.heap →
      t'.reconciling = s.reconciling → s.round userId l = none → ∃ g', s.Stepped t' userId r rate g g' l :=
    fun t' hheap hrec hround => ⟨g, ⟨by rw [hheap]; exact h.gate, h.inForce, fun c users hc =>
      h.pending c users (hrec ▸ hc)⟩, fun _ => ⟨rfl, rfl⟩, fun now n hr => by rw [hround] at hr; cases hr⟩
  cases l with
  | accept listener =>
    obtain ⟨task, -, hst⟩ := Option.bind_eq_some_iff.1 hst
    cases hst
    exact hsame _ rfl rfl rfl
  | leave listener =>
    obtain ⟨task, -, hst⟩ := Option.bind_eq_some_iff.1 hst
    split at hst <;> cases hst
    exact hsame _ rfl rfl rfl
  | shutdown => cases hst; exact hsame _ rfl rfl rfl
  | take =>
    simp only [Network.step] at hst
    split at hst
    · split at hst <;> cases hst
      exact hsame _ rfl rfl rfl
    · cases hst
  | close => cases hst; exact hsame _ rfl rfl rfl
  | reconcile act =>
    have hpending := Network.reconcile_pending h.pending hk hst
    obtain ⟨-, -, hheap⟩ := Network.reconcile_kept hheld.gated hk.user hst
    have hnone : ∀ now n, s.round userId (.reconcile act) = some (now, n) → g.lastRefill ≤ now.first →
        ∀ g', Drawn g g' now n := fun _ _ hr => by cases hr
    rcases hheap with he | ⟨c, u, users, now, hrec, hu, he⟩
    · exact ⟨g, ⟨he.trans h.gate, h.inForce, hpending⟩, fun _ => ⟨rfl, rfl⟩,
        fun now n hr hle => hnone now n hr hle g⟩
    · rw [h.gate, Option.map_some] at he
      have hspeed := h.pending c (u :: users) hrec u List.mem_cons_self hu
      obtain ⟨h₁, h₂, h₃⟩ := @updateLimits_bucket _ g u.trafficLimitBytes u.speedLimitMbps now
        (hspeed.trans h.inForce.symm)
      exact ⟨_, ⟨he, h₁.trans h.inForce, hpending⟩, fun _ => ⟨h₂, h₃⟩,
        fun now n hr hle => hnone now n hr hle _⟩
  | session number act =>
    obtain ⟨q, g₀, m, ha, rfl⟩ := Network.advance_eq hst
    have hasked := Flow.step_asked ha.step
    have hround := @Network.round_session _ _ _ userId _ _ _ _ _ ha hst rfl
    rcases Network.advance_heap hheld ha with ⟨hu, hg, hheap⟩ | ⟨hu, hheap⟩
    · rw [h.gate] at hg
      cases hg
      simp only [if_pos hu] at hround
      cases hread : act.readings with
      | none =>
        obtain ⟨hgate, -⟩ := hasked.quiet hread
        rw [hread] at hround
        exact ⟨g, ⟨hheap.trans (congrArg some hgate), h.inForce, h.pending⟩, fun _ => ⟨rfl, rfl⟩,
          fun now n hr => by rw [hround] at hr; cases hr⟩
      | some now =>
        obtain ⟨requested, exact, hgate, hgranted⟩ := hasked.asked now hread
        rw [hread, Option.bind_some] at hround
        have hrate : m.gate.bytesPerSecond = rate := by
          rw [hgate, reserve_bytesPerSecond]
          exact h.inForce
        refine ⟨m.gate, ⟨hheap, hrate, h.pending⟩, fun hn => ?_, fun now' n hr hle => ?_⟩
        · rw [hround] at hn
          cases hn
        · rw [hround] at hr
          cases hr
          rw [hgate, hgranted]
          exact reserve_drawn (h.inForce ▸ hpos) hle requested exact
    · have hnone : s.round userId (.session number act) = none := by
        rw [hround]
        cases act.readings with
        | none => rfl
        | some now => rw [Option.bind_some, if_neg hu]
      exact ⟨g, ⟨hheap.trans h.gate, h.inForce, h.pending⟩, fun _ => ⟨rfl, rfl⟩,
        fun now n hr => by rw [hnone] at hr; cases hr⟩

end

/-! ## What is granted within a window -/

/-- The clock is read in order: no round before the one before has noted its time. -/
def InOrder : Nat → List Readings → Prop
  | _, [] => True
  | clock, now :: rest => clock ≤ now.first ∧ now.first ≤ now.second ∧ InOrder now.second rest

instance instDecidableInOrder : ∀ (clock : Nat) (l : List Readings), Decidable (InOrder clock l)
  | _, [] => isTrue trivial
  | _, now :: rest =>
    have := instDecidableInOrder now.second rest
    inferInstanceAs (Decidable (_ ∧ _ ∧ _))

theorem InOrder.earlier {clock clock' : Nat} {l : List Readings} (h : InOrder clock l)
    (hle : clock' ≤ clock) : InOrder clock' l := by
  cases l with
  | nil => trivial
  | cons now rest => exact ⟨hle.trans h.1, h.2⟩

/-- The grants of some rounds, with their times in seconds. -/
def granted (perSecond : Nat) (rounds : List (Readings × Nat)) : List (Rat × Rat) :=
  (rounds.filter fun e => e.2 ≠ 0).map fun e => (e.1.first / perSecond, (e.2 : Rat))

theorem granted_cons (now : Readings) (n : Nat) (rounds : List (Readings × Nat)) :
    granted perSecond ((now, n) :: rounds) =
      if n = 0 then granted perSecond rounds
      else (now.first / perSecond, (n : Rat)) :: granted perSecond rounds := by
  unfold granted
  by_cases hn : n = 0
  · rw [List.filter_cons_of_neg (by simpa using hn), if_pos hn]
  · rw [List.filter_cons_of_pos (by simpa using hn), if_neg hn, List.map_cons]

theorem rate_nonneg (rate : Nat) : (0 : Rat) ≤ rate := Nat.cast_nonneg _

/-- What is spent before a round and after it. -/
theorem Drawn.spends {g g' : GateState (Exact perSecond)} {now : Readings} {n : Nat} {l : List (Rat × Rat)}
    (h : Drawn g g' now n) (hrate : g'.bytesPerSecond = g.bytesPerSecond) (hle : g.lastRefill ≤ now.first)
    (hsecond : now.first ≤ now.second)
    (hl : Bucket.Spends (burstCapacity g.bytesPerSecond : Rat) g.bytesPerSecond (g'.levelAt g'.lastRefill)
      (g'.lastRefill / perSecond) l) :
    Bucket.Spends (burstCapacity g.bytesPerSecond : Rat) g.bytesPerSecond (g.levelAt g.lastRefill)
      (g.lastRefill / perSecond)
      (if n = 0 then l else ((now.first / perSecond : Rat), (n : Rat)) :: l) := by
  have hgain : g.levelAt now.first ≤ g.levelAt g.lastRefill +
      (now.first / perSecond - g.lastRefill / perSecond) * g.bytesPerSecond :=
    Bucket.level_later (rate_nonneg _) (ticks_le hle)
  cases h with
  | kept hn hheld hlast =>
    have hsame : g'.levelAt g'.lastRefill = g.levelAt g.lastRefill := by
      unfold GateState.levelAt GateState.bucket
      rw [hheld, hlast, hrate]
    rw [if_pos hn]
    rwa [hsame, hlast] at hl
  | drawn hn hheld hlast =>
    have hnow := level_now g'
    rw [hheld, hlast] at hnow
    rw [hlast] at hl
    -- what passes between the two readings is lost
    have htick : (now.first / perSecond : Rat) ≤ now.second / perSecond := ticks_le hsecond
    have hlost := Bucket.mul_rate_nonneg (rate_nonneg g.bytesPerSecond) htick
    by_cases hzero : n = 0
    · rw [if_pos hzero]
      rw [hzero, Nat.cast_zero, sub_zero] at hnow
      refine hl.before (ticks_le (hle.trans hsecond)) ?_
      linarith
    · rw [if_neg hzero]
      refine .cons (ticks_le hle) hgain Bucket.level_le_cap (hn hzero) (hl.before (ticks_le hsecond) ?_)
      linarith

/-- **The grants of a user** spend what its bucket holds. -/
theorem granted_spends {c : ServerConfig} {userId : Str} {r : GateRef} {rate before : Nat} (hpos : 0 < rate)
    {ls : List NetworkAct} : ∀ {s t : Network (Exact perSecond)} {g : GateState (Exact perSecond)},
    ((network c).restrict fun (_ : Network (Exact perSecond)) l => l.KeepsSpeed userId rate).Run s ls t →
    s.Balanced userId → s.Held userId r before → s.Steady userId r g rate →
    InOrder g.lastRefill ((s.rounds userId ls).map Prod.fst) →
    Bucket.Spends (burstCapacity rate : Rat) rate (g.levelAt g.lastRefill) (g.lastRefill / perSecond)
      (granted perSecond (s.rounds userId ls)) := by
  induction ls with
  | nil => exact fun _ _ _ _ _ => .nil _ _
  | cons l ls ih =>
    intro s t g hrun hb hheld hs horder
    cases hrun with
    | @cons _ s₁ _ _ _ hst hrest =>
      obtain ⟨hst, hk⟩ := hst
      have hst : s.step l = some s₁ := hst
      obtain ⟨g', hsteady, hquiet, hround⟩ := Network.step_steady hheld hs hpos hk hst
      have hnext := @ih s₁ t g' hrest (Network.step_balanced hb hst)
        (Network.step_held hheld hb hk.user hst) hsteady
      rw [Network.rounds, hst, Option.map_some, Option.getD_some] at horder ⊢
      have hrate : g.bytesPerSecond = rate := hs.inForce
      cases hr : s.round userId l with
      | none =>
        rw [hr] at horder
        rw [Option.toList_none, List.nil_append] at horder ⊢
        obtain ⟨hheld', hlast⟩ := hquiet hr
        have hsame : g'.levelAt g'.lastRefill = g.levelAt g.lastRefill := by
          unfold GateState.levelAt GateState.bucket
          rw [hheld', hlast, hsteady.inForce, hrate]
        rw [hsame, hlast] at hnext
        exact hnext horder
      | some round =>
        obtain ⟨now, n⟩ := round
        rw [hr] at horder
        rw [Option.toList_some, List.singleton_append] at horder ⊢
        obtain ⟨hle, hsecond, horder⟩ := horder
        have hdrawn := hround now n hr hle
        rw [granted_cons, ← hrate]
        refine hdrawn.spends (hsteady.inForce.trans hrate.symm) hle hsecond ?_
        rw [hrate]
        refine hnext ?_
        cases hdrawn with
        | kept _ _ hlast => exact horder.earlier (by rw [hlast]; omega)
        | drawn _ _ hlast => rw [hlast]; exact horder

/-! ## A lone waiter -/

/-- The buffers of a UDP session and of its listener.
mirrors crates/frp-game-server/src/controller.rs:471,551 -/
def DATAGRAM_BUFFER_BYTES : Nat := 65535

/-- No caller asks for more than the bucket can hold. -/
theorem requests_fit (rate : Nat) {requested : Nat}
    (h : requested ≤ COPY_BUFFER_BYTES ∨ requested ≤ DATAGRAM_BUFFER_BYTES) :
    requested ≤ burstCapacity rate := by
  unfold burstCapacity COPY_BUFFER_BYTES at *
  unfold DATAGRAM_BUFFER_BYTES at h
  omega

/-- The pause after a round without enough tokens, in seconds.
mirrors crates/frp-game-server/src/controller.rs:131-133 -/
def GateState.pause (g : GateState (Exact perSecond)) (desired : Nat) : Rat :=
  let missing := desired - g.held
  min (max (missing / g.bytesPerSecond) (1 / 1000)) 2

/-- The gate after some rounds of one request. -/
def GateState.asked (requested : Nat) (exact : Bool) (clock : Nat → Readings)
    (g : GateState (Exact perSecond)) : Nat → GateState (Exact perSecond)
  | 0 => g
  | k + 1 => ((g.asked requested exact clock k).reserve requested exact (clock k)).2

/-- The answer of a round. -/
def GateState.answer (requested : Nat) (exact : Bool) (clock : Nat → Readings)
    (g : GateState (Exact perSecond)) (k : Nat) : Attempt :=
  ((g.asked requested exact clock k).reserve requested exact (clock k)).1

/-- Each round comes after the pause of the one before. -/
structure Sleeps (requested : Nat) (exact : Bool) (clock : Nat → Readings)
    (g : GateState (Exact perSecond)) : Prop where
  start : g.lastRefill ≤ (clock 0).first
  order : ∀ k, (clock k).first ≤ (clock k).second ∧ (clock k).second ≤ (clock (k + 1)).first
  pause : ∀ k, (clock k).second / perSecond +
    (g.asked requested exact clock (k + 1)).pause (min requested g.remaining) ≤
      ((clock (k + 1)).first / perSecond : Rat)

theorem asked_succ {requested : Nat} {exact : Bool} {clock : Nat → Readings}
    {g : GateState (Exact perSecond)} (k : Nat) : g.asked requested exact clock (k + 1) =
      (g.reserve requested exact (clock 0)).2.asked requested exact (fun k => clock (k + 1)) k := by
  induction k with
  | zero => rfl
  | succ k ih => rw [GateState.asked, ih]; rfl

/-- A round of a request that the limit admits: it is granted, or nothing but time is missing. -/
structure Waited (g g' : GateState (Exact perSecond)) (requested : Nat) (now : Readings) : Prop where
  missing : g.levelAt now.first < (min requested g.remaining : Nat)
  speed : g'.bytesPerSecond = g.bytesPerSecond
  remaining : g'.remaining = g.remaining
  held : g'.held = g.levelAt now.first
  last : g'.lastRefill = now.second

theorem reserve_cases {g : GateState (Exact perSecond)} {requested : Nat} {exact : Bool} {now : Readings}
    (hreq : requested ≠ 0) (hb : 0 < g.bytesPerSecond) (hleft : g.remaining ≠ 0)
    (hexact : exact = true → requested ≤ g.remaining) (hle : g.lastRefill ≤ now.first) :
    (g.reserve requested exact now).1 = .granted (min requested g.remaining) ∨
      (g.reserve requested exact now).1 = .wait ∧
        Waited g (g.reserve requested exact now).2 requested now := by
  have hreserve : g.reserve requested exact now = g.attempt requested exact now := if_neg hreq
  rw [hreserve]
  obtain ⟨hspeed, hbucket⟩ := attempt_bucket hb hle requested exact
  obtain ⟨hlimit, hspec⟩ := attempt_spec g requested exact now
  have hadmitted : (g.attempt requested exact now).1 ≠ .refused := by
    unfold GateState.attempt
    rw [if_neg (fun h => h.elim hleft fun h => absurd (hexact h.1) (by omega))]
    dsimp only
    split
    · exact Attempt.noConfusion
    · split <;> exact Attempt.noConfusion
  cases ha : (g.attempt requested exact now).1 with
  | granted n =>
    rw [ha] at hspec
    rw [hspec.1]
    exact .inl rfl
  | refused => exact absurd ha hadmitted
  | wait =>
    rw [ha] at hspec hbucket
    refine .inr ⟨rfl, hbucket.1, hspeed, ?_, hbucket.2.1, hbucket.2.2⟩
    unfold GateState.remaining
    rw [hlimit, hspec]

/-- A pause gains the missing tokens, or those of two seconds. -/
theorem pause_gain {g : GateState (Exact perSecond)} {tick desired : Nat} (hb : 0 < g.bytesPerSecond)
    (hfit : desired ≤ burstCapacity g.bytesPerSecond)
    (hpause : g.lastRefill / perSecond + g.pause desired ≤ (tick / perSecond : Rat)) :
    min (desired : Rat) (g.held + 2 * g.bytesPerSecond) ≤ g.levelAt tick := by
  have hrate : (0 : Rat) < g.bytesPerSecond := Nat.cast_pos.2 hb
  have hpausele : min ((desired - g.held) / g.bytesPerSecond) 2 ≤ g.pause desired :=
    min_le_min_right _ (le_max_left _ _)
  have hgain : g.pause desired * g.bytesPerSecond ≤
      (tick / perSecond - g.lastRefill / perSecond) * g.bytesPerSecond :=
    mul_le_mul_of_nonneg_right (by linarith) hrate.le
  have hfits : (desired : Rat) ≤ burstCapacity g.bytesPerSecond := Nat.cast_le.2 hfit
  refine le_min ?_ ((min_le_left _ _).trans hfits)
  show _ ≤ g.held + (tick / perSecond - g.lastRefill / perSecond) * g.bytesPerSecond
  rcases le_total ((desired - g.held) / g.bytesPerSecond) 2 with hshort | hlong
  · rw [min_eq_left hshort] at hpausele
    have hmissing := mul_le_mul_of_nonneg_right hpausele hrate.le
    rw [div_mul_cancel₀ _ hrate.ne'] at hmissing
    exact (min_le_left _ _).trans (by linarith)
  · rw [min_eq_right hlong] at hpausele
    have htwo := mul_le_mul_of_nonneg_right hpausele hrate.le
    exact (min_le_right _ _).trans (by linarith)

/-- **A lone waiter is granted** after finitely many pauses, as its bytes fit the bucket. -/
theorem waits_finitely {requested : Nat} {exact : Bool} (hreq : requested ≠ 0) (rounds : Nat) :
    ∀ {clock : Nat → Readings} {g : GateState (Exact perSecond)}, 0 < g.bytesPerSecond →
    requested ≤ burstCapacity g.bytesPerSecond → g.remaining ≠ 0 →
    (exact = true → requested ≤ g.remaining) → Sleeps requested exact clock g →
    ((min requested g.remaining : Nat) : Rat) - g.levelAt (clock 0).first ≤
      rounds * (2 * g.bytesPerSecond) →
    ∃ k, g.answer requested exact clock k = .granted (min requested g.remaining) ∧
      ∀ j < k, g.answer requested exact clock j = .wait := by
  induction rounds with
  | zero =>
    intro clock g hb _ hleft hexact hsleeps hmissing
    rcases reserve_cases hreq hb hleft hexact hsleeps.start with hyes | ⟨-, hwaited⟩
    · exact ⟨0, hyes, fun j hj => absurd hj (Nat.not_lt_zero j)⟩
    · have hlt := hwaited.missing
      rw [Nat.cast_zero, zero_mul] at hmissing
      linarith
  | succ rounds ih =>
    intro clock g hb hfit hleft hexact hsleeps hmissing
    rcases reserve_cases hreq hb hleft hexact hsleeps.start with hyes | ⟨hwait, hwaited⟩
    · exact ⟨0, hyes, fun j hj => absurd hj (Nat.not_lt_zero j)⟩
    obtain ⟨-, hspeed, hremaining, hheld, hlast⟩ := hwaited
    have hpause := hsleeps.pause 0
    have hnext := fun k => @asked_succ perSecond requested exact clock g k
    have hanswer : ∀ k, g.answer requested exact clock (k + 1) =
        (g.reserve requested exact (clock 0)).2.answer requested exact (fun k => clock (k + 1)) k := by
      intro k
      rw [GateState.answer, hnext]
      rfl
    generalize (g.reserve requested exact (clock 0)).2 = g' at *
    -- the next round finds the missing tokens, or those of two seconds more
    have hgain : min ((min requested g.remaining : Nat) : Rat) (g'.held + 2 * g'.bytesPerSecond) ≤
        g'.levelAt (clock 1).first := by
      rw [hnext 0, ← hlast] at hpause
      refine pause_gain (hspeed ▸ hb) (hspeed ▸ (min_le_left _ _).trans hfit) hpause
    have hrate : (0 : Rat) ≤ g'.bytesPerSecond := Nat.cast_nonneg _
    have hmissing' : ((min requested g'.remaining : Nat) : Rat) - g'.levelAt (clock 1).first ≤
        rounds * (2 * g'.bytesPerSecond) := by
      rw [hremaining]
      have hnonneg : (0 : Rat) ≤ rounds * (2 * g'.bytesPerSecond) := by positivity
      rcases min_le_iff.1 hgain with hfull | hmore
      · linarith
      · rw [hheld] at hmore
        rw [Nat.cast_succ, ← hspeed] at hmissing
        linarith
    obtain ⟨k, hk, hbefore⟩ := ih (hspeed ▸ hb) (hspeed ▸ hfit) (hremaining ▸ hleft) (hremaining ▸ hexact)
      ⟨hlast ▸ (hsleeps.order 0).2, fun k => hsleeps.order (k + 1), fun k => by
        rw [← hnext, hremaining]; exact hsleeps.pause (k + 1)⟩ hmissing'
    refine ⟨k + 1, by rw [hanswer, hk, hremaining], fun j hj => ?_⟩
    cases j with
    | zero => exact hwait
    | succ j => rw [hanswer]; exact hbefore j (by omega)

/-! ## Every user with a speed limit -/

/-- A stretch of a run: the user has been there from the start, has a speed limit, and no
call from here on changes it. -/
structure SteadyRun (c : ServerConfig) (u : ServerUser) (s t : Network (Exact perSecond))
    (ls : List NetworkAct) (g : GateState (Exact perSecond)) : Prop where
  ids : (c.users.map (·.id)).Nodup
  user : u ∈ c.users
  used : u.trafficUsedBytes ≤ U64_MAX
  reached : ((network c).restrict fun (_ : Network (Exact perSecond)) l => l.Keeps u.id none).Reachable s
  gate : (s.controller.gates.lookup u.id).bind (fun r => s.controller.heap[r]?) = some g
  limited : 0 < g.bytesPerSecond
  pending : s.Pending u.id g.bytesPerSecond
  run : ((network c).restrict fun (_ : Network (Exact perSecond)) l =>
    l.KeepsSpeed u.id g.bytesPerSecond).Run s ls t
  order : InOrder g.lastRefill ((s.rounds u.id ls).map Prod.fst)

/-- **The speed limit.** The sessions of a user are granted, within any window of time, no
more than the capacity of the bucket and what the speed gives; no caller asks for more than
the capacity; and a request that waits alone is granted after finitely many pauses, unless
the traffic limit refuses it. -/
theorem speed_limit_conforms (perSecond : Nat) :
    (∀ c u (s t : Network (Exact perSecond)) ls g, SteadyRun c u s t ls g → ∀ start d : Rat, 0 ≤ d →
      Bucket.spentWithin start (start + d) (granted perSecond (s.rounds u.id ls)) ≤
        burstCapacity g.bytesPerSecond + g.bytesPerSecond * d) ∧
    (∀ rate requested, requested ≤ COPY_BUFFER_BYTES ∨ requested ≤ DATAGRAM_BUFFER_BYTES →
      requested ≤ burstCapacity rate) ∧
    ∀ (g : GateState (Exact perSecond)) requested exact clock, 0 < g.bytesPerSecond → requested ≠ 0 →
      requested ≤ COPY_BUFFER_BYTES ∨ requested ≤ DATAGRAM_BUFFER_BYTES → g.remaining ≠ 0 →
      (exact = true → requested ≤ g.remaining) → Sleeps requested exact clock g →
      ∃ k, g.answer requested exact clock k = .granted (min requested g.remaining) ∧
        ∀ j < k, g.answer requested exact clock j = .wait := by
  refine ⟨fun c u s t ls g h start d hd => ?_, fun rate _ hfit => requests_fit rate hfit,
    fun g requested exact clock hb hreq hfit hleft hexact hsleeps => ?_⟩
  · obtain ⟨hbalanced, r, hheld⟩ := network_held h.ids h.user h.used (fun _ _ hl => hl) h.reached
    have hgate := h.gate
    rw [hheld.gated.ref, Option.bind_some] at hgate
    have hspends := granted_spends h.limited h.run hbalanced hheld ⟨hgate, rfl, h.pending⟩ h.order
    have hwindow := hspends.window (rate_nonneg _) (Nat.cast_nonneg _)
      (show start ≤ start + d from le_add_of_nonneg_right hd)
    rw [add_sub_cancel_left, mul_comm] at hwindow
    exact hwindow
  · -- as many rounds as two seconds go into what is missing
    obtain ⟨rounds, hrounds⟩ := exists_nat_ge
      (((min requested g.remaining : Nat) : Rat) - g.levelAt (clock 0).first)
    refine waits_finitely hreq rounds hb (requests_fit _ hfit) hleft hexact hsleeps (hrounds.trans ?_)
    have hone : (1 : Rat) ≤ g.bytesPerSecond := by exact_mod_cast hb
    exact le_mul_of_one_le_right (Nat.cast_nonneg _) (by linarith)

/-- A user with a speed limit of one megabit. -/
def slowUser : ServerUser := { sampleUser 'a' [sampleTunnel ['x'] 5 20000] with speedLimitMbps := 1 }

def slow : ServerConfig := sampleConfig [slowUser]

/-- A connection is accepted, sends 16 KiB and asks for them in the second second. -/
def slowUpload : List NetworkAct := [
  .reconcile (.call slow), .reconcile (.gate 0), .reconcile .cancel,
  .reconcile (.joined (specs slow)), .reconcile (.start true), .reconcile .finish, .accept 0,
  .session 0 (.copy .inbound (.read 16384)), .session 0 (.copy .inbound (.reserve ⟨1000, 1001⟩))]

instance (userId : Str) (rate : Nat) : ∀ l : NetworkAct, Decidable (l.KeepsSpeed userId rate)
  | .reconcile (.call c) => inferInstanceAs (Decidable (userId ∈ c.users.map (·.id) ∧
      ∀ v ∈ c.users, v.id = userId → speedBytesPerSecond v.speedLimitMbps = rate))
  | .reconcile (.gate _) | .reconcile .cancel | .reconcile (.joined _) | .reconcile (.start _)
  | .reconcile .finish | .accept _ | .leave _ | .session _ _ | .shutdown | .take | .close => isTrue trivial

/-- The gate of the user at the start. -/
def slowGate : GateState (Exact 1000) := gateOf slowUser 0

/-- The same gate with an empty bucket. -/
def emptyGate : GateState (Exact 1000) := { slowGate with tokens := (0 : Rat) }

theorem slow_conforms :
    (Network.open slow 0 : Network (Exact 1000)).rounds slowUser.id slowUpload = [(⟨1000, 1001⟩, 16384)] ∧
      Bucket.spentWithin 0 (0 + 2)
        (granted 1000 ((Network.open slow 0 : Network (Exact 1000)).rounds slowUser.id slowUpload)) ≤
          burstCapacity 125000 + 125000 * 2 ∧
      ∃ k, emptyGate.answer 16384 false (fun k => ⟨3000 * k, 3000 * k⟩) k = .granted 16384 := by
  have hsome : (LTS.exec (fun (s : Network (Exact 1000)) l =>
      if l.KeepsSpeed slowUser.id 125000 then s.step l else none) (.open slow 0) slowUpload).isSome = true := by
    decide +kernel
  obtain ⟨t, ht⟩ := Option.isSome_iff_exists.1 hsome
  have hrounds : (Network.open slow 0 : Network (Exact 1000)).rounds slowUser.id slowUpload =
      [(⟨1000, 1001⟩, 16384)] := by decide +kernel
  have hsteady : SteadyRun slow slowUser (Network.open slow 0 : Network (Exact 1000)) t slowUpload slowGate :=
    ⟨by decide +kernel, by decide +kernel, by decide +kernel, LTS.reachable_init ⟨0, rfl⟩, rfl,
      by decide +kernel, (fun _ _ hrec => Reconciling.noConfusion hrec), LTS.restrict_run_of_exec ht,
      by rw [hrounds]; decide +kernel⟩
  obtain ⟨hwindow, -, hwaits⟩ := speed_limit_conforms 1000
  refine ⟨hrounds, hwindow _ _ _ _ _ _ hsteady 0 2 (by decide +kernel), ?_⟩
  have hsleeps : Sleeps 16384 false (fun k => ⟨3000 * k, 3000 * k⟩) emptyGate := by
    refine ⟨by decide +kernel, fun k => ⟨le_rfl, by show 3000 * k ≤ 3000 * (k + 1); omega⟩, fun k => ?_⟩
    refine (add_le_add_right (min_le_right _ _) _).trans ?_
    show (((3000 * k : Nat) : Rat) / (1000 : Nat)) + 2 ≤ ((3000 * (k + 1) : Nat) : Rat) / (1000 : Nat)
    push_cast
    linarith
  obtain ⟨k, hk, -⟩ := hwaits emptyGate 16384 false _ (by decide +kernel) (by decide) (by decide +kernel)
    (by decide +kernel) (by decide) hsleeps
  exact ⟨k, hk⟩

end OrangeFrp.Controller
