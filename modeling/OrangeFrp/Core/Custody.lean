import Mathlib.Data.List.Nodup
import Mathlib.Logic.Function.Basic
import OrangeFrp.Core.LTS

/-!
# Numbered items, each in one place

Items are numbered as they arrive. A carrier holds at most one of them, and drops
it or gives it to a receiver; a receiver keeps all that it was ever given.

* `Custody.Sole`: an item is with one carrier or one receiver, which has it once.
* `custody_inductive`: this holds in every run.
-/
namespace OrangeFrp.Core

universe u v

/-- What the carriers hold and what the receivers were given. -/
@[ext]
structure Custody (H : Type u) (D : Type v) where
  held : H → Option ℕ
  given : D → List ℕ
  next : ℕ

namespace Custody

variable {H : Type u} {D : Type v}

/-- Item `n` is with the carrier or the receiver. -/
def At (c : Custody H D) (n : ℕ) : H ⊕ D → Prop
  | .inl h => c.held h = some n
  | .inr d => n ∈ c.given d

structure Sole (c : Custody H D) : Prop where
  known : ∀ n o, c.At n o → n < c.next
  once : ∀ n o o', c.At n o → c.At n o' → o = o'
  nodup : ∀ d, (c.given d).Nodup

inductive Act (H : Type u) (D : Type v) where
  | arrive (h : H)
  | drop (h : H)
  | give (h : H) (d : D)

def start : Custody H D := ⟨fun _ => none, fun _ => [], 0⟩

theorem start_sole : (start : Custody H D).Sole where
  known n o ho := by cases o <;> cases ho
  once n o o' ho := by cases o <;> cases ho
  nodup _ := List.nodup_nil

section
variable [DecidableEq H]

def dropped (c : Custody H D) (h : H) : Custody H D := { c with held := Function.update c.held h none }

theorem at_dropped {c : Custody H D} {h : H} {n : ℕ} {o : H ⊕ D} :
    (c.dropped h).At n o ↔ o ≠ .inl h ∧ c.At n o := by
  cases o with
  | inl k =>
    simp only [At, dropped, Function.update_apply, ne_eq, Sum.inl.injEq]
    split
    · rename_i hk
      exact ⟨nofun, fun h => absurd hk h.1⟩
    · rename_i hk
      exact ⟨fun h => ⟨hk, h⟩, fun h => h.2⟩
  | inr d => exact ⟨fun h => ⟨nofun, h⟩, fun h => h.2⟩

theorem Sole.dropped {c : Custody H D} (hs : c.Sole) (h : H) : (c.dropped h).Sole where
  known n o ho := hs.known n o (at_dropped.1 ho).2
  once n o o' ho ho' := hs.once n o o' (at_dropped.1 ho).2 (at_dropped.1 ho').2
  nodup := hs.nodup

end

section
variable [DecidableEq D]

def added (c : Custody H D) (d : D) (n : ℕ) : Custody H D :=
  { c with given := Function.update c.given d (c.given d ++ [n]) }

theorem at_added {c : Custody H D} {d : D} {n m : ℕ} {o : H ⊕ D} :
    (c.added d n).At m o ↔ c.At m o ∨ m = n ∧ o = .inr d := by
  cases o with
  | inl h => exact ⟨.inl, fun h => h.resolve_right fun h => nomatch h.2⟩
  | inr e =>
    simp only [At, added, Function.update_apply, Sum.inr.injEq]
    split
    · rename_i he
      subst he
      rw [List.mem_append, List.mem_singleton, and_iff_left rfl]
    · rename_i he
      exact ⟨.inl, fun h => h.resolve_right fun h => he h.2⟩

/-- An item that is nowhere is added. -/
theorem Sole.added {c : Custody H D} (hs : c.Sole) {d : D} {n : ℕ} (hn : n < c.next) (hno : ∀ o, ¬ c.At n o) :
    (c.added d n).Sole := by
  refine ⟨fun m o ho => ?_, fun m o o' ho ho' => ?_, fun e => ?_⟩
  · rcases at_added.1 ho with hc | ⟨rfl, -⟩
    · exact hs.known m o hc
    · exact hn
  · rcases at_added.1 ho with hc | ⟨rfl, rfl⟩ <;> rcases at_added.1 ho' with hc' | ⟨heq, rfl⟩
    · exact hs.once m o o' hc hc'
    · subst heq
      exact absurd hc (hno o)
    · exact absurd hc' (hno o')
    · rfl
  · simp only [Custody.added, Function.update_apply]
    split
    · refine (hs.nodup d).append (List.nodup_singleton n) fun m hm hmn => ?_
      cases List.mem_singleton.1 hmn
      exact hno (.inr d) hm
    · exact hs.nodup e

end

variable [DecidableEq H] [DecidableEq D]

def act (c : Custody H D) : Act H D → Custody H D
  | .arrive h => { c with held := Function.update c.held h (some c.next), next := c.next + 1 }
  | .drop h => c.dropped h
  | .give h d =>
    match c.held h with
    | none => c
    | some n => (c.dropped h).added d n

variable {c : Custody H D}

/-- A new item is with its carrier alone. -/
theorem Sole.arrive (hs : c.Sole) (h : H) : (c.act (.arrive h)).Sole := by
  have hat (n : ℕ) (o : H ⊕ D) (ho : (c.act (.arrive h)).At n o) : c.At n o ∨ n = c.next ∧ o = .inl h := by
    cases o with
    | inl k =>
      simp only [At, act, Function.update_apply] at ho
      split at ho
      · rename_i hk
        cases ho
        exact .inr ⟨rfl, by rw [hk]⟩
      · exact .inl ho
    | inr d => exact .inl ho
  refine ⟨fun n o ho => ?_, fun n o o' ho ho' => ?_, hs.nodup⟩
  · show n < c.next + 1
    rcases hat n o ho with hc | ⟨rfl, -⟩
    · have := hs.known n o hc
      omega
    · omega
  · rcases hat n o ho with hc | ⟨hn, rfl⟩ <;> rcases hat n o' ho' with hc' | ⟨hn', rfl⟩
    · exact hs.once n o o' hc hc'
    · have := hs.known n o hc
      omega
    · have := hs.known n o' hc'
      omega
    · rfl

/-- The item changes hands. -/
theorem Sole.give (hs : c.Sole) (h : H) (d : D) : (c.act (.give h d)).Sole := by
  simp only [act]
  split
  · exact hs
  · rename_i n hn
    refine (hs.dropped h).added (hs.known n (.inl h) hn) fun o ho => ?_
    obtain ⟨hne, hc⟩ := at_dropped.1 ho
    exact hne (hs.once n o (.inl h) hc hn)

end Custody

/-- All that the carriers may do. -/
def custody (H : Type u) (D : Type v) [DecidableEq H] [DecidableEq D] : LTS (Custody H D) (Custody.Act H D) where
  init c := c = Custody.start
  step c a c' := c.act a = c'

theorem custody_inductive {H : Type u} {D : Type v} [DecidableEq H] [DecidableEq D] :
    (custody H D).Inductive Custody.Sole where
  init c hc := hc ▸ Custody.start_sole
  step c a c' hs hst := by
    subst hst
    cases a with
    | arrive h => exact hs.arrive h
    | drop h => exact hs.dropped h
    | give h d => exact hs.give h d

end OrangeFrp.Core
