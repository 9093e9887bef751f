import Mathlib.Data.List.Basic
import Mathlib.Data.Prod.Lex
import Mathlib.Logic.Relation
import Mathlib.Order.WellFounded

/-!
# Who waits for whom

Parties hold resources and await them, in lines where the first to come is the first to
go on. When every party awaits only what ranks above all it holds, a chain of waits can
only climb: either the resource ranks higher, or it is the same one and the place in its
line is nearer to the front.

* `Waits.Ordered.lt`: each wait goes to a party of smaller measure.
* `Waits.Ordered.acyclic`: no party waits for itself, through however many others.
* `Waits.Ordered.exists_free`: every chain of waits can be followed to a party that waits
  for nobody.

The locks are those of a fair reader-writer lock: it admits any number of readers or one
writer, and nobody before those ahead in its line (`Mode.admits`, `Ahead`).
-/
namespace OrangeFrp.Core

universe u v

/-! ## Lines -/

section
variable {P : Type u} [DecidableEq P]

/-- `p` stands in the line, and `q` before it. -/
def Ahead (line : List P) (q p : P) : Prop := p ∈ line ∧ line.idxOf q < line.idxOf p

instance (line : List P) (q p : P) : Decidable (Ahead line q p) := inferInstanceAs (Decidable (_ ∧ _))

theorem Ahead.mem {line : List P} {q p : P} (h : Ahead line q p) : q ∈ line := by
  have hp := List.idxOf_lt_length_of_mem h.1
  exact List.idxOf_lt_length_iff.1 (by have := h.2; omega)

/-- Who has nobody ahead is the first. -/
theorem head_of_none_ahead {line : List P} {p : P} (hp : p ∈ line) (h : ∀ q, ¬ Ahead line q p) :
    line.head? = some p := by
  cases line with
  | nil => cases hp
  | cons x line =>
    by_cases hx : x = p
    · simp [hx]
    · refine absurd ⟨hp, ?_⟩ (h x)
      rw [List.idxOf_cons_self, List.idxOf_cons_ne line hx]
      omega

end

/-! ## Locks with readers and writers -/

inductive Mode where
  | read
  | write
  deriving DecidableEq, Repr

/-- A reader goes in beside readers. -/
def Mode.beside : Mode → Mode → Bool
  | .read, .read => true
  | _, _ => false

section
variable {P : Type u}

def Mode.admits (m : Mode) (holders : List (P × Mode)) : Bool :=
  holders.all fun h => m.beside h.2

theorem Mode.admits_eq_false {m : Mode} {holders : List (P × Mode)} (h : m.admits holders = false) :
    ∃ p m', (p, m') ∈ holders ∧ m.beside m' = false := by
  simp only [Mode.admits, List.all_eq_false] at h
  obtain ⟨⟨p, m'⟩, hmem, hb⟩ := h
  exact ⟨p, m', hmem, by simpa using hb⟩

end

/-! ## Chains of waits -/

/-- What each party awaits and holds, and the lines of those who await. -/
structure Waits (P : Type u) (R : Type v) where
  awaits : P → Option R
  holds : P → R → Prop
  line : R → List P

namespace Waits

variable {P : Type u} {R : Type v} [DecidableEq P]

/-- A wait is for who holds what is awaited, or awaits it ahead in the line. -/
def For (s : Waits P R) (p q : P) : Prop :=
  ∃ r, s.awaits p = some r ∧ (s.holds q r ∨ s.awaits q = some r ∧ Ahead (s.line r) q p)

/-- Every party awaits what ranks above all it holds. -/
structure Ordered (s : Waits P R) (rank : R → ℕ) (top : ℕ) : Prop where
  above : ∀ p r r', s.holds p r → s.awaits p = some r' → rank r < rank r'
  below : ∀ r, rank r < top

def measure (s : Waits P R) (rank : R → ℕ) (top : ℕ) (p : P) : ℕ ×ₗ ℕ :=
  match s.awaits p with
  | none => toLex (0, 0)
  | some r => toLex (top - rank r, (s.line r).idxOf p)

variable {s : Waits P R} {rank : R → ℕ} {top : ℕ}

theorem Ordered.lt (h : s.Ordered rank top) {p q : P} (hw : s.For p q) :
    s.measure rank top q < s.measure rank top p := by
  obtain ⟨r, hp, hq⟩ := hw
  have hr := h.below r
  rw [measure, measure, hp]
  rcases hq with hold | ⟨hq, -, hlt⟩
  · cases hq : s.awaits q with
    | none => exact Prod.Lex.toLex_lt_toLex.2 (.inl (show 0 < top - rank r by omega))
    | some r' =>
      have hup := h.above q r r' hold hq
      have htop := h.below r'
      exact Prod.Lex.toLex_lt_toLex.2 (.inl (show top - rank r' < top - rank r by omega))
  · rw [hq]
    exact Prod.Lex.toLex_lt_toLex.2 (.inr ⟨rfl, hlt⟩)

theorem Ordered.lt_of_transGen (h : s.Ordered rank top) {p q : P} (hw : Relation.TransGen s.For p q) :
    s.measure rank top q < s.measure rank top p := by
  induction hw with
  | single hw => exact h.lt hw
  | tail _ hw ih => exact (h.lt hw).trans ih

/-- **No cycle.** -/
theorem Ordered.acyclic (h : s.Ordered rank top) (p : P) : ¬ Relation.TransGen s.For p p :=
  fun hw => lt_irrefl _ (h.lt_of_transGen hw)

/-- **Every chain ends**, also one of some of the waits only. -/
theorem Ordered.exists_free (h : s.Ordered rank top) {waits : P → P → Prop}
    (hw : ∀ p q, waits p q → s.For p q) (p : P) :
    ∃ q, Relation.ReflTransGen waits p q ∧ ∀ r, ¬ waits q r := by
  induction hm : s.measure rank top p using WellFoundedLT.induction generalizing p with
  | ind m ih =>
    subst hm
    by_cases hp : ∃ q, waits p q
    · obtain ⟨q, hq⟩ := hp
      obtain ⟨t, ht, hfree⟩ := ih _ (h.lt (hw p q hq)) q rfl
      exact ⟨t, .head hq ht, hfree⟩
    · exact ⟨p, .refl, fun r hr => hp ⟨r, hr⟩⟩

end Waits

end OrangeFrp.Core
