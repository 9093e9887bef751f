import Mathlib.Data.List.Basic
import Mathlib.Data.List.Nodup

/-!
# Tables that get more columns

A table has named columns and rows of their width. A column is added with a default for the rows
that are there (`Columns.add`). A table grows out of another when it has more columns and the same
rows with defaults in them (`GrownBy`): what was in the old columns still is, and the new ones
hold their defaults.
-/
namespace OrangeFrp.Core

structure Columns (κ : Type*) (σ : Type*) where
  names : List κ
  rows : List (List σ)
  distinct : names.Nodup
  width : ∀ row ∈ rows, row.length = names.length

namespace Columns

variable {κ σ : Type*} [DecidableEq κ]

def empty (names : List κ) (distinct : names.Nodup) : Columns κ σ := ⟨names, [], distinct, by simp⟩

/-- What a row has in a column. -/
def cell (t : Columns κ σ) (row : List σ) (name : κ) : Option σ :=
  ((t.names.zip row).find? fun c => c.1 = name).map (·.2)

def add (t : Columns κ σ) (name : κ) (default : σ) (h : name ∉ t.names) : Columns κ σ where
  names := t.names ++ [name]
  rows := t.rows.map (· ++ [default])
  distinct := by
    refine List.nodup_append.2 ⟨t.distinct, List.nodup_singleton name, fun a ha b hb => ?_⟩
    rw [List.mem_singleton.1 hb]
    rintro rfl
    exact h ha
  width := by
    intro row hrow
    obtain ⟨r, hr, rfl⟩ := List.mem_map.1 hrow
    simp [t.width r hr]

/-- Other rows of the same width. -/
def put (t : Columns κ σ) (rows : List (List σ)) (h : ∀ row ∈ rows, row.length = t.names.length) : Columns κ σ :=
  { t with rows := rows, width := h }

/-- The columns `more` with their defaults have been added. -/
def GrownBy (more : List (κ × σ)) (s t : Columns κ σ) : Prop :=
  t.names = s.names ++ more.map Prod.fst ∧ t.rows = s.rows.map (· ++ more.map Prod.snd)

variable {s t r : Columns κ σ} {more again : List (κ × σ)}

omit [DecidableEq κ] in
theorem GrownBy.refl (s : Columns κ σ) : GrownBy [] s s := by simp [GrownBy]

omit [DecidableEq κ] in
theorem add_grown {name : κ} (default : σ) (h : name ∉ s.names) :
    GrownBy [(name, default)] s (s.add name default h) := ⟨rfl, rfl⟩

omit [DecidableEq κ] in
theorem GrownBy.trans (h : GrownBy more s t) (h' : GrownBy again t r) : GrownBy (more ++ again) s r := by
  obtain ⟨hn, hr⟩ := h
  obtain ⟨hn', hr'⟩ := h'
  refine ⟨?_, ?_⟩
  · rw [hn', hn, List.map_append, List.append_assoc]
  · rw [hr', hr, List.map_map, List.map_append]
    refine List.map_congr_left fun row _ => ?_
    simp

omit [DecidableEq κ] in
theorem GrownBy.fresh (h : GrownBy more s t) {c : κ × σ} (hc : c ∈ more) : c.1 ∉ s.names := by
  intro hold
  have hd := t.distinct
  rw [h.1] at hd
  exact (List.nodup_append.1 hd).2.2 c.1 hold c.1 (List.mem_map_of_mem hc) rfl

/-- **What was there is there.** -/
theorem GrownBy.cell_old (h : GrownBy more s t) {row : List σ} (hrow : row ∈ s.rows) {name : κ}
    (hname : name ∈ s.names) : t.cell (row ++ more.map Prod.snd) name = s.cell row name := by
  have hlen := s.width row hrow
  have hsome : ((s.names.zip row).find? fun c => c.1 = name).isSome = true := by
    have hmem : name ∈ (s.names.zip row).map Prod.fst := by
      rw [List.map_fst_zip (by omega)]
      exact hname
    obtain ⟨c, hc, hcn⟩ := List.mem_map.1 hmem
    exact List.find?_isSome.2 ⟨c, hc, by simpa using hcn⟩
  unfold cell
  rw [h.1, List.zip_append hlen.symm, List.find?_append]
  obtain ⟨c, hc⟩ := Option.isSome_iff_exists.1 hsome
  rw [hc]
  rfl

/-- **A new column holds its default** in every row that was there. -/
theorem GrownBy.cell_new (h : GrownBy more s t) {row : List σ} (hrow : row ∈ s.rows) {c : κ × σ} (hc : c ∈ more) :
    t.cell (row ++ more.map Prod.snd) c.1 = some c.2 := by
  have hlen := s.width row hrow
  have hd := t.distinct
  rw [h.1, List.nodup_append] at hd
  have hnone : (s.names.zip row).find? (fun d => d.1 = c.1) = none := by
    refine List.find?_eq_none.2 fun d hmem heq => h.fresh hc ?_
    rw [← of_decide_eq_true heq]
    exact (List.of_mem_zip hmem).1
  have hzip : (more.map Prod.fst).zip (more.map Prod.snd) = more := by
    rw [List.zip_map', List.map_id'']
    intro d
    rfl
  have hfind : more.find? (fun d => d.1 = c.1) = some c := by
    cases hf : more.find? (fun d => d.1 = c.1) with
    | none => exact absurd (by simp) (List.find?_eq_none.1 hf c hc)
    | some d =>
      have hdc : d.1 = c.1 := by simpa using List.find?_some hf
      rw [List.inj_on_of_nodup_map hd.2.1 (List.mem_of_find?_eq_some hf) hc hdc]
  unfold cell
  rw [h.1, List.zip_append hlen.symm, List.find?_append, hnone, hzip, hfind]
  rfl

end Columns

end OrangeFrp.Core
