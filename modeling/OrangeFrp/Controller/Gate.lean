import OrangeFrp.Storage.Config

/-!
# User gates (`frp-game-server/src/controller.rs`)

A gate counts the bytes a user has reserved against the traffic limit and
spreads them over time with a token bucket. `reserve` loops: it takes the lock,
decides, and sleeps when tokens are missing; `attempt` is one round under the
lock.

The bucket is held in doubles. Their operations are the class `Double`, about
which nothing is assumed: no result below depends on how they round.

* `attempt_spec`: a grant fits what is left of the limit, is booked in full,
  and an exact request is granted whole.
-/
namespace OrangeFrp.Controller

open OrangeFrp.Storage

/-- The operations of `f64` that the bucket uses. -/
class Double (τ : Type) where
  ofNat : Nat → τ
  /-- nanoseconds as seconds -/
  seconds : Nat → τ
  add : τ → τ → τ
  sub : τ → τ → τ
  mul : τ → τ → τ
  min : τ → τ → τ
  ge : τ → τ → Bool

/-- Exact arithmetic, to run the model on. -/
instance : Double Rat where
  ofNat n := n
  seconds n := n / 1000000000
  add := (· + ·)
  sub := (· - ·)
  mul := (· * ·)
  min a b := if a ≤ b then a else b
  ge a b := b ≤ a

def COPY_BUFFER_BYTES : Nat := 16 * 1024

/-- `u64::saturating_add`. -/
def satAdd (a b : Nat) : Nat := min (a + b) U64_MAX

/-- mirrors crates/frp-game-server/src/controller.rs:57-64 -/
structure GateState (τ : Type) where
  limitBytes : Nat
  usedBytes : Nat
  bytesPerSecond : Nat
  tokens : τ
  lastRefill : Nat
  deriving DecidableEq

/-- The clock as `refill_tokens` reads it: once for what has elapsed, once for what it notes. -/
structure Readings where
  first : Nat
  second : Nat
  deriving DecidableEq

/-- Two readings of one moment. -/
instance (n : Nat) : OfNat Readings n := ⟨⟨n, n⟩⟩

/-- mirrors crates/frp-game-server/src/controller.rs:140-142 -/
def speedBytesPerSecond (speedLimitMbps : Nat) : Nat := min (speedLimitMbps * 1000000) U64_MAX / 8

/-- mirrors crates/frp-game-server/src/controller.rs:144-146 -/
def burstCapacity (bytesPerSecond : Nat) : Nat := max bytesPerSecond (COPY_BUFFER_BYTES * 4)

variable {τ : Type} [Double τ]

/-- mirrors crates/frp-game-server/src/controller.rs:72-83 -/
def GateState.new (limitBytes usedBytes speedLimitMbps now : Nat) : GateState τ where
  limitBytes := limitBytes
  usedBytes := usedBytes
  bytesPerSecond := speedBytesPerSecond speedLimitMbps
  tokens := Double.ofNat (burstCapacity (speedBytesPerSecond speedLimitMbps))
  lastRefill := now

/-- mirrors crates/frp-game-server/src/controller.rs:85-94 -/
def GateState.updateLimits (s : GateState τ) (limitBytes speedLimitMbps now : Nat) : GateState τ :=
  let bytesPerSecond := speedBytesPerSecond speedLimitMbps
  if s.bytesPerSecond ≠ bytesPerSecond then
    { s with
      limitBytes := limitBytes
      bytesPerSecond := bytesPerSecond
      tokens := Double.ofNat (burstCapacity bytesPerSecond)
      lastRefill := now }
  else { s with limitBytes := limitBytes }

/-- mirrors crates/frp-game-server/src/controller.rs:148-153 -/
def GateState.refillTokens (s : GateState τ) (now : Readings) : GateState τ :=
  let elapsed : τ := Double.seconds (now.first - s.lastRefill)
  { s with
    lastRefill := now.second
    tokens := Double.min (Double.add s.tokens (Double.mul elapsed (Double.ofNat s.bytesPerSecond)))
      (Double.ofNat (burstCapacity s.bytesPerSecond)) }

/-- mirrors crates/frp-game-server/src/controller.rs:111-115 -/
def GateState.remaining (s : GateState τ) : Nat :=
  if s.limitBytes = 0 then U64_MAX else s.limitBytes - s.usedBytes

inductive Attempt where
  | granted (bytes : Nat)
  | refused
  | wait
  deriving DecidableEq

/-- One round of the loop, under the lock.
mirrors crates/frp-game-server/src/controller.rs:110-134 -/
def GateState.attempt (s : GateState τ) (requested : Nat) (exact : Bool) (now : Readings) :
    Attempt × GateState τ :=
  if s.remaining = 0 ∨ (exact = true ∧ s.remaining < requested) then (.refused, s)
  else
    let desired := min requested s.remaining
    if s.bytesPerSecond = 0 then
      (.granted desired, { s with usedBytes := satAdd s.usedBytes desired })
    else
      let s := s.refillTokens now
      if Double.ge s.tokens (Double.ofNat desired) then
        (.granted desired,
          { s with
            tokens := Double.sub s.tokens (Double.ofNat desired)
            usedBytes := satAdd s.usedBytes desired })
      else (.wait, s)

/-- A round of a request; the empty one never looks at the gate.
mirrors crates/frp-game-server/src/controller.rs:104-107 -/
def GateState.reserve (s : GateState τ) (requested : Nat) (exact : Bool) (now : Readings) :
    Attempt × GateState τ :=
  if requested = 0 then (.granted 0, s) else s.attempt requested exact now

@[simp] theorem refillTokens_usedBytes (s : GateState τ) (now : Readings) :
    (s.refillTokens now).usedBytes = s.usedBytes := rfl

@[simp] theorem refillTokens_limitBytes (s : GateState τ) (now : Readings) :
    (s.refillTokens now).limitBytes = s.limitBytes := rfl

@[simp] theorem updateLimits_usedBytes (s : GateState τ) (limitBytes speedLimitMbps now : Nat) :
    (s.updateLimits limitBytes speedLimitMbps now).usedBytes = s.usedBytes := by
  unfold GateState.updateLimits
  dsimp only
  split <;> rfl

@[simp] theorem updateLimits_limitBytes (s : GateState τ) (limitBytes speedLimitMbps now : Nat) :
    (s.updateLimits limitBytes speedLimitMbps now).limitBytes = limitBytes := by
  unfold GateState.updateLimits
  dsimp only
  split <;> rfl

@[simp] theorem updateLimits_bytesPerSecond (s : GateState τ) (limitBytes speedLimitMbps now : Nat) :
    (s.updateLimits limitBytes speedLimitMbps now).bytesPerSecond =
      speedBytesPerSecond speedLimitMbps := by
  unfold GateState.updateLimits
  dsimp only
  split
  · rfl
  · rename_i h; rw [ne_eq, not_not] at h; exact h

/-- No round changes the speed. -/
theorem reserve_bytesPerSecond (s : GateState τ) (requested : Nat) (exact : Bool) (now : Readings) :
    (s.reserve requested exact now).2.bytesPerSecond = s.bytesPerSecond := by
  unfold GateState.reserve GateState.attempt
  dsimp only
  split
  · rfl
  split
  · rfl
  split
  · rfl
  split <;> rfl

/-- Limits that are already in force change nothing, not even the bucket. -/
theorem updateLimits_self {s : GateState τ} {limitBytes speedLimitMbps : Nat}
    (hl : s.limitBytes = limitBytes) (hs : s.bytesPerSecond = speedBytesPerSecond speedLimitMbps)
    (now : Nat) : s.updateLimits limitBytes speedLimitMbps now = s := by
  unfold GateState.updateLimits
  dsimp only
  rw [if_neg (by rw [ne_eq, not_not]; exact hs), ← hl]

/-- **What one round does to the counters.** -/
theorem attempt_spec (s : GateState τ) (requested : Nat) (exact : Bool) (now : Readings) :
    (s.attempt requested exact now).2.limitBytes = s.limitBytes ∧
      match (s.attempt requested exact now).1 with
      | .granted n => n = min requested s.remaining ∧ 0 < s.remaining ∧
          (exact = true → n = requested) ∧
          (s.attempt requested exact now).2.usedBytes = satAdd s.usedBytes n
      | .refused => (s.attempt requested exact now).2 = s
      | .wait => (s.attempt requested exact now).2.usedBytes = s.usedBytes := by
  unfold GateState.attempt
  split
  · exact ⟨rfl, rfl⟩
  rename_i hne
  push Not at hne
  have hex : exact = true → min requested s.remaining = requested := fun he =>
    min_eq_left (hne.2 he)
  dsimp only
  split
  · exact ⟨rfl, rfl, Nat.pos_of_ne_zero hne.1, hex, rfl⟩
  · split
    · exact ⟨rfl, rfl, Nat.pos_of_ne_zero hne.1, hex, rfl⟩
    · exact ⟨rfl, rfl⟩

/-- A grant is booked; anything else leaves the counter alone. -/
theorem reserve_spec (s : GateState τ) (requested : Nat) (exact : Bool) (now : Readings) :
    (s.reserve requested exact now).2.limitBytes = s.limitBytes ∧
      match (s.reserve requested exact now).1 with
      | .granted n => n ≤ requested ∧ (exact = true → n = requested) ∧
          ((n = 0 ∧ (s.reserve requested exact now).2.usedBytes = s.usedBytes) ∨
            (n ≤ s.remaining ∧ (s.reserve requested exact now).2.usedBytes = satAdd s.usedBytes n))
      | _ => (s.reserve requested exact now).2.usedBytes = s.usedBytes := by
  unfold GateState.reserve
  split
  · rename_i h
    exact ⟨rfl, Nat.zero_le _, fun _ => h.symm, .inl ⟨rfl, rfl⟩⟩
  obtain ⟨hl, h⟩ := attempt_spec s requested exact now
  refine ⟨hl, ?_⟩
  cases ha : (s.attempt requested exact now).1 with
  | granted n =>
    rw [ha] at h
    obtain ⟨hn, -, he, hu⟩ := h
    exact ⟨hn ▸ min_le_left _ _, he, .inr ⟨hn ▸ min_le_right _ _, hu⟩⟩
  | refused =>
    rw [ha] at h
    show (s.attempt requested exact now).2.usedBytes = s.usedBytes
    rw [show (s.attempt requested exact now).2 = s from h]
  | wait =>
    rw [ha] at h
    exact h

end OrangeFrp.Controller
