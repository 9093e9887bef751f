import Mathlib.Data.List.Nodup
import Mathlib.Order.Lattice

/-!
# Maps as ascending lists

A map from ordered keys as the list of its members in ascending order of keys. A member
is inserted at its place and replaces the one of the same key, so a map has one list
only, whatever the order of its insertions.

* `find_insert`, `find_insertNew`: what is found after an insertion.
* `find_ofList`: what is found in a map made of its members.
-/
namespace OrangeFrp.Core.Members

universe u v

variable {K : Type u} {V : Type v} [LinearOrder K]

def insert (k : K) (v : V) : List (K × V) → List (K × V)
  | [] => [(k, v)]
  | e :: es => if k < e.1 then (k, v) :: e :: es else if k = e.1 then (k, v) :: es else e :: insert k v es

def find (k : K) (es : List (K × V)) : Option V := (es.find? fun e => e.1 = k).map (·.2)

/-- A map from its members, a later one in the place of an earlier one. -/
def ofList (es : List (K × V)) : List (K × V) := es.foldl (fun m e => insert e.1 e.2 m) []

/-- `entry(k).or_insert(v)`. -/
def insertNew (k : K) (v : V) (es : List (K × V)) : List (K × V) :=
  if (find k es).isSome then es else insert k v es

theorem find_cons (k : K) (e : K × V) (es : List (K × V)) :
    find k (e :: es) = if e.1 = k then some e.2 else find k es := by
  unfold find
  rw [List.find?_cons]
  by_cases h : e.1 = k <;> simp [h]

theorem find_insert (k k' : K) (v : V) (es : List (K × V)) :
    find k (insert k' v es) = if k' = k then some v else find k es := by
  induction es with
  | nil => rw [insert, find_cons]
  | cons e es ih =>
    unfold insert
    split
    · rw [find_cons]
    split
    · rename_i heq
      rw [find_cons, find_cons, ← heq]
      by_cases hk : k' = k <;> simp [hk]
    · rename_i hne
      rw [find_cons, ih, find_cons]
      by_cases hk : k' = k
      · subst hk
        rw [if_neg (Ne.symm hne), if_pos rfl, if_pos rfl]
      · simp only [hk, if_false]

theorem find_insertNew (k k' : K) (v : V) (es : List (K × V)) :
    find k (insertNew k' v es) = if k' = k then some ((find k es).getD v) else find k es := by
  unfold insertNew
  split
  · rename_i hsome
    split
    · rename_i hk
      subst hk
      obtain ⟨w, hw⟩ := Option.isSome_iff_exists.1 hsome
      rw [hw]
      rfl
    · rfl
  · rename_i hnone
    rw [find_insert]
    split
    · rename_i hk
      subst hk
      rw [Option.not_isSome_iff_eq_none.1 hnone]
      rfl
    · rfl

/-- What is found is the last of its key. -/
theorem find_ofList (k : K) (es : List (K × V)) : find k (ofList es) = find k es.reverse := by
  have hfold (m es : List (K × V)) :
      find k (es.foldl (fun m e => insert e.1 e.2 m) m) = (find k es.reverse).or (find k m) := by
    induction es generalizing m with
    | nil => rfl
    | cons e es ih =>
      have happend : find k (es.reverse ++ [e]) = (find k es.reverse).or (if e.1 = k then some e.2 else none) := by
        unfold find
        rw [List.find?_append, List.find?_singleton]
        cases es.reverse.find? fun f => f.1 = k <;> by_cases h : e.1 = k <;> simp [h]
      rw [List.foldl_cons, ih, find_insert, List.reverse_cons, happend, Option.or_assoc]
      by_cases h : e.1 = k <;> simp [h]
  rw [ofList, hfold]
  exact Option.or_none

/-- Members of different keys are all found. -/
theorem find_of_mem {es : List (K × V)} (hn : (es.map Prod.fst).Nodup) {k : K} {v : V} (h : (k, v) ∈ es) :
    find k (ofList es) = some v := by
  rw [find_ofList]
  have hn' : (es.reverse.map Prod.fst).Nodup := by
    rw [List.map_reverse]
    exact List.nodup_reverse.2 hn
  have h' : (k, v) ∈ es.reverse := List.mem_reverse.2 h
  generalize es.reverse = fs at hn' h'
  induction fs with
  | nil => cases h'
  | cons e fs ih =>
    rw [find_cons]
    obtain ⟨hnew, hrest⟩ := List.nodup_cons.1 hn'
    rcases List.mem_cons.1 h' with rfl | h'
    · rw [if_pos rfl]
    · rw [if_neg, ih hrest h']
      intro heq
      exact hnew (heq ▸ List.mem_map_of_mem h')

theorem find_none {k : K} {es : List (K × V)} (h : k ∉ es.map Prod.fst) : find k (ofList es) = none := by
  rw [find_ofList, find, List.find?_eq_none.2, Option.map_none]
  intro e he heq
  exact h (List.mem_map.2 ⟨e, List.mem_reverse.1 he, of_decide_eq_true heq⟩)

/-- A new member is the last to be inserted. -/
theorem insertNew_ofList {k : K} {v : V} {es : List (K × V)} (h : k ∉ es.map Prod.fst) :
    insertNew k v (ofList es) = ofList (es ++ [(k, v)]) := by
  have hlast : ofList (es ++ [(k, v)]) = insert k v (ofList es) := by
    rw [ofList, List.foldl_append]
    rfl
  rw [insertNew, find_none h, hlast]
  rfl

end OrangeFrp.Core.Members
