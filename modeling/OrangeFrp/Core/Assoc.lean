import Mathlib.Data.List.AList

/-!
# Maps as association lists

`Assoc K V` is Mathlib's `AList` at a constant value type: a list of entries
whose keys are distinct by a field of the structure. Two maps are the same map
when they look up alike (`Same`).

The operations fix an order of the entries: `alter` puts the one it touches at the
front. A `HashMap` is gone through in any order, a `BTreeMap` in that of its keys, so
where a loop over the entries has a result that depends on the order, the loop takes it
from the environment (`Controller.SameSums` for the sums of a flush, `World.order` for
the listeners of a `reconcile`).
-/
namespace OrangeFrp.Core

abbrev Assoc (K V : Type) := AList fun _ : K => V

namespace Assoc

variable {K V : Type} [DecidableEq K]

/-- Equality of entries, by an instance that evaluates. -/
instance [DecidableEq V] : DecidableEq (Assoc K V) := fun m n =>
  decidable_of_iff (m.entries = n.entries) AList.ext_iff.symm

/-- Rewrites every value, keeping the keys. -/
def mapVals {K V : Type} (f : V → V) (m : Assoc K V) : Assoc K V where
  entries := m.entries.map fun e => ⟨e.1, f e.2⟩
  nodupKeys := by
    have h : (m.entries.map fun e => (⟨e.1, f e.2⟩ : Sigma fun _ : K => V)).keys = m.keys := by
      simp [List.keys, AList.keys, Function.comp_def]
    rw [List.NodupKeys, h]
    exact m.keys_nodup

omit [DecidableEq K] in
@[simp] theorem keys_mapVals (f : V → V) (m : Assoc K V) : (mapVals f m).keys = m.keys := by
  simp [mapVals, AList.keys, List.keys, Function.comp_def]

@[simp] theorem lookup_mapVals (f : V → V) (m : Assoc K V) (k : K) :
    (mapVals f m).lookup k = (m.lookup k).map f := by
  apply Option.ext
  intro v
  rw [← Option.mem_def, AList.mem_lookup_iff, Option.map_eq_some_iff]
  simp only [mapVals, List.mem_map, Sigma.mk.injEq, heq_eq_eq]
  refine ⟨?_, ?_⟩
  · intro h
    obtain ⟨⟨k', w⟩, he, rfl, rfl⟩ := h
    exact ⟨w, AList.mem_lookup_iff.2 he, rfl⟩
  · intro h
    obtain ⟨w, hw, rfl⟩ := h
    exact ⟨⟨k, w⟩, AList.mem_lookup_iff.1 hw, rfl, rfl⟩

omit [DecidableEq K] in
@[simp] theorem mem_mapVals (f : V → V) (m : Assoc K V) (k : K) : k ∈ mapVals f m ↔ k ∈ m := by
  rw [AList.mem_keys, AList.mem_keys, keys_mapVals]

/-- `entry(k).or_insert(d)`, then a modification by `f`. -/
def alter (k : K) (d : V) (f : V → V) (m : Assoc K V) : Assoc K V :=
  m.insert k (f ((m.lookup k).getD d))

theorem lookup_alter (k : K) (d : V) (f : V → V) (m : Assoc K V) (q : K) :
    (alter k d f m).lookup q = if q = k then some (f ((m.lookup k).getD d)) else m.lookup q := by
  unfold alter
  split
  · rename_i h; subst h; exact AList.lookup_insert m
  · rename_i h; exact AList.lookup_insert_ne h

@[simp] theorem mem_alter (k : K) (d : V) (f : V → V) (m : Assoc K V) (q : K) :
    q ∈ alter k d f m ↔ q = k ∨ q ∈ m :=
  AList.mem_insert m

/-- `retain`: keeps the entries that satisfy `p`. -/
def retain (p : K → V → Bool) (m : Assoc K V) : Assoc K V where
  entries := m.entries.filter fun e => p e.1 e.2
  nodupKeys := (List.filter_sublist.map _).nodup m.nodupKeys

theorem lookup_retain (p : K → V → Bool) (m : Assoc K V) (k : K) :
    (retain p m).lookup k = (m.lookup k).filter (p k) := by
  apply Option.ext
  intro v
  rw [Option.filter_eq_some_iff, ← Option.mem_def, ← Option.mem_def, AList.mem_lookup_iff,
    AList.mem_lookup_iff]
  exact List.mem_filter

theorem retain_eq_self {p : K → V → Bool} {m : Assoc K V}
    (h : ∀ k v, m.lookup k = some v → p k v = true) : retain p m = m := by
  refine AList.ext (List.filter_eq_self.2 fun e he => ?_)
  exact h e.1 e.2 (AList.mem_lookup_iff.2 he)

theorem retain_congr {p q : K → V → Bool} {m : Assoc K V}
    (h : ∀ k v, m.lookup k = some v → p k v = q k v) : retain p m = retain q m :=
  AList.ext (List.filter_congr fun _ he => h _ _ (AList.mem_lookup_iff.2 he))

omit [DecidableEq K] in
theorem retain_retain (p q : K → V → Bool) (m : Assoc K V) :
    retain p (retain q m) = retain (fun k v => q k v && p k v) m := by
  refine AList.ext ?_
  show (m.entries.filter _).filter _ = m.entries.filter _
  rw [List.filter_filter]
  exact List.filter_congr fun _ _ => Bool.and_comm _ _

theorem erase_eq_retain (m : Assoc K V) (k : K) : m.erase k = retain (fun q _ => q ≠ k) m := by
  refine AList.ext ?_
  show m.entries.kerase k = m.entries.filter fun e => decide (e.1 ≠ k)
  have hn := m.nodupKeys
  generalize m.entries = l at hn
  induction l with
  | nil => rfl
  | cons e l ih =>
    rw [List.nodupKeys_cons] at hn
    by_cases he : e.1 = k
    · subst he
      rw [List.kerase_cons_eq rfl, List.filter_cons_of_neg (by simp)]
      refine (List.filter_eq_self.2 fun x hx => decide_eq_true ?_).symm
      exact fun h => hn.1 (h ▸ List.mem_keys_of_mem hx)
    · rw [List.kerase_cons_ne (Ne.symm he), List.filter_cons_of_pos (by simpa using he), ih hn.2]

/-- Two maps with the same lookups. -/
def Same (m n : Assoc K V) : Prop := ∀ k, m.lookup k = n.lookup k

theorem Same.mem {m n : Assoc K V} (h : Same m n) (k : K) : k ∈ m ↔ k ∈ n := by
  rw [← AList.lookup_isSome, ← AList.lookup_isSome, h k]

theorem mem_entries_iff {m : Assoc K V} {k : K} {v : V} :
    (⟨k, v⟩ : Sigma fun _ : K => V) ∈ m.entries ↔ m.lookup k = some v :=
  AList.mem_lookup_iff.symm

theorem mem_iff_exists {m : Assoc K V} {k : K} : k ∈ m ↔ ∃ v, m.lookup k = some v := by
  rw [← AList.lookup_isSome, Option.isSome_iff_exists]

end Assoc

end OrangeFrp.Core
