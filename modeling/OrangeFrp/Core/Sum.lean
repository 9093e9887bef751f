import Mathlib.Algebra.BigOperators.Group.List.Basic
import Mathlib.Algebra.GroupWithZero.Nat
import OrangeFrp.Core.Assoc

/-!
# Sums over lists and maps

What replacing one element of a list, or altering one entry of a map, does to a
sum over it. Stated as equations between sums of natural numbers, without
subtraction, so that `omega` can use them.
-/
namespace OrangeFrp.Core

/-- One element is replaced. -/
theorem sum_map_set {α : Type} {l : List α} {i : Nat} {a : α} (h : l[i]? = some a) (b : α)
    (f : α → Nat) : ((l.set i b).map f).sum + f a = (l.map f).sum + f b := by
  induction l generalizing i with
  | nil => simp at h
  | cons x l ih =>
    cases i with
    | zero =>
      simp only [List.getElem?_cons_zero, Option.some.injEq] at h
      subst h
      simp only [List.set_cons_zero, List.map_cons, List.sum_cons]
      omega
    | succ i =>
      have := ih h
      simp only [List.set_cons_succ, List.map_cons, List.sum_cons]
      omega

theorem sum_map_eraseIdx {α : Type} {l : List α} {i : Nat} {a : α} (h : l[i]? = some a) (f : α → Nat) :
    ((l.eraseIdx i).map f).sum + f a = (l.map f).sum := by
  induction l generalizing i with
  | nil => simp at h
  | cons x l ih =>
    cases i with
    | zero =>
      obtain rfl : x = a := by simpa using h
      simp only [List.eraseIdx_cons_zero, List.map_cons, List.sum_cons]
      omega
    | succ i =>
      have hrest := ih (by simpa using h)
      simp only [List.eraseIdx_cons_succ, List.map_cons, List.sum_cons]
      omega

theorem sum_map_eq_zero {α : Type} {l : List α} {f : α → Nat} :
    (l.map f).sum = 0 ↔ ∀ a ∈ l, f a = 0 := by
  induction l with
  | nil => simp
  | cons x l ih => simp only [List.map_cons, List.sum_cons, Nat.add_eq_zero_iff, ih, List.forall_mem_cons]

section
variable {K V : Type} [DecidableEq K]

theorem sum_kerase (k : K) (l : List (Sigma fun _ : K => V)) (f : K → V → Nat) :
    ((l.kerase k).map fun e => f e.1 e.2).sum + ((l.dlookup k).map (f k)).getD 0 =
      (l.map fun e => f e.1 e.2).sum := by
  induction l with
  | nil => simp
  | cons e l ih =>
    by_cases h : k = e.1
    · obtain ⟨k', v⟩ := e
      obtain rfl : k = k' := h
      have he : List.kerase k ((⟨k, v⟩ : Sigma fun _ : K => V) :: l) = l := List.kerase_cons_eq rfl
      rw [he, List.dlookup_cons_eq, List.map_cons, List.sum_cons, Option.map_some, Option.getD_some]
      exact Nat.add_comm _ _
    · rw [List.kerase_cons_ne h, List.dlookup_cons_ne _ _ h]
      simp only [List.map_cons, List.sum_cons]
      omega

/-- One entry is inserted or replaced. -/
theorem sum_insert (m : Assoc K V) (k : K) (v : V) (f : K → V → Nat) :
    ((m.insert k v).entries.map fun e => f e.1 e.2).sum + ((m.lookup k).map (f k)).getD 0 =
      (m.entries.map fun e => f e.1 e.2).sum + f k v := by
  have h := sum_kerase k m.entries f
  rw [AList.entries_insert, List.map_cons, List.sum_cons, show m.lookup k = m.entries.dlookup k from rfl]
  show f k v + _ + _ = _
  omega

theorem le_sum (m : Assoc K V) (k : K) (d : V) (f : K → V → Nat) (hd : f k d = 0) :
    f k ((m.lookup k).getD d) ≤ (m.entries.map fun e => f e.1 e.2).sum := by
  have h := sum_kerase k m.entries f
  rw [show m.lookup k = m.entries.dlookup k from rfl]
  cases hl : m.entries.dlookup k with
  | none => rw [Option.getD_none, hd]; exact Nat.zero_le _
  | some v =>
    rw [hl, Option.map_some, Option.getD_some] at h
    rw [Option.getD_some]
    omega

/-- One entry is modified; a new one starts from a value that counts for nothing. -/
theorem sum_alter (m : Assoc K V) (k : K) (d : V) (g : V → V) (f : K → V → Nat) (hd : f k d = 0) :
    ((Assoc.alter k d g m).entries.map fun e => f e.1 e.2).sum + f k ((m.lookup k).getD d) =
      (m.entries.map fun e => f e.1 e.2).sum + f k (g ((m.lookup k).getD d)) := by
  have h := sum_insert m k (g ((m.lookup k).getD d)) f
  rw [Assoc.alter]
  cases hl : m.lookup k with
  | none =>
    rw [hl] at h
    simp only [Option.map_none, Option.getD_none] at h ⊢
    omega
  | some v =>
    rw [hl] at h
    simp only [Option.map_some, Option.getD_some] at h ⊢
    omega

end

end OrangeFrp.Core
