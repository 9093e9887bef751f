import Mathlib.Data.List.Basic

/-!
# Dialogues on a finite input

A dialogue reads an input from its front and ends with a result or an error; what it has not read
is left. `Types x s a` says that `x` reads just `s`, whatever comes after, and ends with `a`: the
rules for it (`Types.pure`, `Types.bind`) compose inputs as the dialogues are composed. `bind_ok`
takes a dialogue that has ended well apart. `Within` bounds what is left, also by one that fails.

`ask` repeats a question until an answer is accepted.
-/
namespace OrangeFrp.Core

abbrev Dialog (σ ε α : Type) := ExceptT ε (StateM σ) α

namespace Dialog

variable {σ ε α β : Type} {x : Dialog σ ε α} {f : α → Dialog σ ε β} {s t r : σ} {a : α} {b : β} {e : ε}

/-- The end of a dialogue, and what it leaves. -/
def on (x : Dialog σ ε α) (s : σ) : Except ε α × σ := StateT.run (ExceptT.run x) s

/-- A dialogue by what it does. -/
def of (x : σ → Except ε α × σ) : Dialog σ ε α := ExceptT.mk x

@[simp] theorem on_of (x : σ → Except ε α × σ) (s : σ) : (of x).on s = x s := rfl

theorem bind_ok : (x >>= f).on s = (.ok b, t) ↔ ∃ a r, x.on s = (.ok a, r) ∧ (f a).on r = (.ok b, t) := by
  simp only [on, ExceptT.run_bind, StateT.run_bind]
  rcases StateT.run (ExceptT.run x) s with ⟨_ | _, _⟩
  · refine ⟨fun h => ?_, fun ⟨_, _, h, _⟩ => ?_⟩
    · cases h
    · cases h
  · refine ⟨fun h => ⟨_, _, rfl, h⟩, fun ⟨_, _, h, hf⟩ => ?_⟩
    cases h
    exact hf

/-! ## What is typed -/

section
variable [Append σ]

/-- On `s`, whatever comes after it, the dialogue ends with `a` and has read `s`. -/
def Types (x : Dialog σ ε α) (s : σ) (a : α) : Prop := ∀ r, x.on (s ++ r) = (.ok a, r)

theorem Types.bind [Std.Associative (α := σ) (· ++ ·)] (hx : Types x s a) (hf : Types (f a) t b) :
    Types (x >>= f) (s ++ t) b := by
  intro r
  refine bind_ok.2 ⟨a, t ++ r, ?_, hf r⟩
  rw [show s ++ t ++ r = s ++ (t ++ r) from Std.Associative.assoc s t r]
  exact hx (t ++ r)

/-- A dialogue that reads nothing. -/
theorem Types.pure {empty : σ} (hempty : ∀ r : σ, empty ++ r = r) : Types (pure a : Dialog σ ε α) empty a := by
  intro r
  rw [hempty]
  rfl

end

/-! ## What is left -/

/-- The dialogue never leaves more than it was given. -/
def Within (size : σ → Nat) (x : Dialog σ ε α) : Prop := ∀ s, size (x.on s).2 ≤ size s

theorem Within.pure {size : σ → Nat} (a : α) : Within size (pure a : Dialog σ ε α) := fun _ => Nat.le_refl _

theorem Within.bind {size : σ → Nat} (hx : Within size x) (hf : ∀ a, Within size (f a)) : Within size (x >>= f) := by
  intro s
  have hle := hx s
  simp only [on, ExceptT.run_bind, StateT.run_bind] at hle ⊢
  rcases hrun : StateT.run (ExceptT.run x) s with ⟨_ | a, r⟩
  · rw [hrun] at hle
    exact hle
  · rw [hrun] at hle
    exact Nat.le_trans (hf a r) hle

/-! ## Questions -/

section
variable {ι : Type} {stop : ε} {accept : ι → Except ε (Option α)} {lines rest : List ι} {line : ι}

/-- A question until its answer is accepted, or cannot be read. -/
def ask (stop : ε) (accept : ι → Except ε (Option α)) : List ι → Except ε α × List ι
  | [] => (.error stop, [])
  | line :: rest =>
    match accept line with
    | .error e => (.error e, rest)
    | .ok (some a) => (.ok a, rest)
    | .ok none => ask stop accept rest

theorem ask_reads (h : accept line = .ok (some a)) : ask stop accept (line :: rest) = (.ok a, rest) := by
  simp [ask, h]

/-- The answer is the first that is not refused. -/
theorem ask_ok (h : ask stop accept lines = (.ok a, rest)) : ∃ refused line, lines = refused ++ line :: rest ∧
    accept line = .ok (some a) ∧ ∀ l ∈ refused, accept l = .ok none := by
  induction lines with
  | nil => cases h
  | cons line lines ih =>
    rw [ask] at h
    split at h
    · cases h
    · rename_i heq
      cases h
      exact ⟨[], line, rfl, heq, by simp⟩
    · rename_i heq
      obtain ⟨refused, l, rfl, hl, hrefused⟩ := ih h
      exact ⟨line :: refused, l, rfl, hl, by simpa [heq] using hrefused⟩

/-- A question reads one line at least, if there is one. -/
theorem ask_left (lines : List ι) : (ask stop accept lines).2.length ≤ lines.length - 1 := by
  induction lines with
  | nil => simp [ask]
  | cons line lines ih =>
    rw [ask]
    split
    · simp
    · simp
    · simp only [List.length_cons]
      omega

theorem ask_le (lines : List ι) : (ask stop accept lines).2.length ≤ lines.length := by
  have hleft : (ask stop accept lines).2.length ≤ lines.length - 1 := ask_left lines
  omega

theorem ask_lt (line : ι) (lines : List ι) : (ask stop accept (line :: lines)).2.length < (line :: lines).length := by
  have hleft : (ask stop accept (line :: lines)).2.length ≤ (line :: lines).length - 1 := ask_left (line :: lines)
  simp only [List.length_cons] at hleft ⊢
  omega

end

end Dialog

end OrangeFrp.Core
