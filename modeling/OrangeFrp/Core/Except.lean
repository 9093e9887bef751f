/-!
# Computations that can fail

Inversion of a sequence in `Except`: a bind succeeds exactly when both halves
do, a guard (`bailIf`, an early return with an error) exactly when its
condition is false.
-/
namespace OrangeFrp.Core

variable {ε α β : Type}

/-- `if c { return Err(e) }`. -/
def bailIf (c : Prop) [Decidable c] (e : ε) : Except ε Unit := if c then .error e else .ok ()

theorem bind_eq_ok {x : Except ε α} {f : α → Except ε β} {b : β} :
    (x >>= f) = .ok b ↔ ∃ a, x = .ok a ∧ f a = .ok b := by
  cases x with
  | error e => exact ⟨fun h => (by cases h), fun ⟨_, h, _⟩ => (by cases h)⟩
  | ok a => exact ⟨fun h => ⟨a, rfl, h⟩, fun ⟨_, h, hf⟩ => by cases h; exact hf⟩

@[simp] theorem bailIf_eq_ok {c : Prop} [Decidable c] {e : ε} {u : Unit} :
    bailIf c e = .ok u ↔ ¬ c := by
  unfold bailIf
  split <;> simp_all

theorem bailIf_bind_eq_ok {c : Prop} [Decidable c] {e : ε} {f : Unit → Except ε β} {b : β} :
    (bailIf c e >>= f) = .ok b ↔ ¬ c ∧ f () = .ok b := by
  rw [bind_eq_ok]
  refine ⟨?_, ?_⟩
  · rintro ⟨u, hu, hf⟩; exact ⟨bailIf_eq_ok.1 hu, hf⟩
  · rintro ⟨hc, hf⟩; exact ⟨(), bailIf_eq_ok.2 hc, hf⟩

/-- A result known by its first component. -/
theorem exists_of_fst {x : Except ε (α × β)} {a : α} (h : x.toOption.map Prod.fst = some a) :
    ∃ b, x = .ok (a, b) := by
  cases x with
  | error e => cases h
  | ok r =>
    obtain ⟨a', b⟩ := r
    obtain rfl : a' = a := by simpa [Except.toOption] using h
    exact ⟨b, rfl⟩

end OrangeFrp.Core
