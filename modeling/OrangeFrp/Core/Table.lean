import Mathlib.Data.List.Nodup
import Mathlib.Data.List.Basic

/-!
# Keyed tables under uniqueness constraints

A `Schema` gives the primary key of a row, the pairs of rows that a `UNIQUE`
constraint keeps apart (`clash`) and a row check. A `Table` carries the
constraints as fields, so a table that violates one cannot be built.

`upsert` is `INSERT ... ON CONFLICT(key) DO UPDATE`: it replaces the row with
the same key or appends, and is refused when a row with another key clashes.
`upsertAll` is one statement after the other, so an intermediate table can be
refused although the old and the new contents are both fine.

* `upsertAll_ok_iff`: a list of rows that are fine among themselves goes in
  exactly when `OrderSafe` holds: going through the rows in order and striking
  the old row with the same key, no old row still standing clashes.
* `mem_upsertAll`, `find_upsertAll`: what the table holds afterwards.
-/
namespace OrangeFrp.Core

structure Schema (R K : Type) where
  name : String
  key : R → K
  clash : R → R → Bool
  check : R → Bool
  clash_comm : ∀ x y, clash x y = clash y x

structure Table {R K : Type} (S : Schema R K) where
  rows : List R
  pk : (rows.map S.key).Nodup
  unique : ∀ x ∈ rows, ∀ y ∈ rows, S.key x ≠ S.key y → S.clash x y = false
  checked : ∀ x ∈ rows, S.check x = true

variable {R K : Type} {S : Schema R K}

@[ext] theorem Table.ext {t u : Table S} (h : t.rows = u.rows) : t = u := by
  cases t; cases u; cases h; rfl

instance [DecidableEq R] : DecidableEq (Table S) := fun _ _ => decidable_of_iff' _ Table.ext_iff

namespace Table

def empty (S : Schema R K) : Table S := ⟨[], by simp, by simp, by simp⟩

instance : Inhabited (Table S) := ⟨empty S⟩

theorem eq_of_key (t : Table S) {x y : R} (hx : x ∈ t.rows) (hy : y ∈ t.rows)
    (h : S.key x = S.key y) : x = y :=
  List.inj_on_of_nodup_map t.pk hx hy h

/-- Two tables with the same keys in the same order are the same when one has the rows of
the other. -/
theorem eq_of_keys {t u : Table S} (hk : t.rows.map S.key = u.rows.map S.key)
    (hr : ∀ x ∈ t.rows, x ∈ u.rows) : t = u := by
  have hlen : t.rows.length = u.rows.length := by simpa using congrArg List.length hk
  refine Table.ext (List.ext_getElem hlen fun i h₁ h₂ => ?_)
  refine u.eq_of_key (hr _ (List.getElem_mem h₁)) (List.getElem_mem h₂) ?_
  simpa [h₁, h₂] using congrArg (·[i]?) hk

/-! ## Deleting and updating rows -/

/-- `DELETE`: keeps the rows that satisfy `p`. -/
def filter (t : Table S) (p : R → Bool) : Table S where
  rows := t.rows.filter p
  pk := (List.filter_sublist.map S.key).nodup t.pk
  unique x hx y hy := t.unique x (List.mem_of_mem_filter hx) y (List.mem_of_mem_filter hy)
  checked x hx := t.checked x (List.mem_of_mem_filter hx)

@[simp] theorem filter_rows (t : Table S) (p : R → Bool) : (t.filter p).rows = t.rows.filter p := rfl

/-- An update of columns that no constraint reads. -/
structure Unconstrained (S : Schema R K) (f : R → R) : Prop where
  key : ∀ x, S.key (f x) = S.key x
  clash : ∀ x y, S.clash (f x) (f y) = S.clash x y
  check : ∀ x, S.check (f x) = S.check x

/-- `UPDATE`: rewrites every row by `f`. -/
def update (t : Table S) (f : R → R) (hf : Unconstrained S f) : Table S where
  rows := t.rows.map f
  pk := by
    rw [List.map_map, show S.key ∘ f = S.key from funext hf.key]
    exact t.pk
  unique x hx y hy := by
    obtain ⟨a, ha, rfl⟩ := List.mem_map.1 hx
    obtain ⟨b, hb, rfl⟩ := List.mem_map.1 hy
    rw [hf.key, hf.key, hf.clash]
    exact t.unique a ha b hb
  checked x hx := by
    obtain ⟨a, ha, rfl⟩ := List.mem_map.1 hx
    rw [hf.check]
    exact t.checked a ha

@[simp] theorem update_rows (t : Table S) (f : R → R) (hf : Unconstrained S f) :
    (t.update f hf).rows = t.rows.map f := rfl

/-! ## Upsert -/

/-- The new rows satisfy the constraints among themselves. -/
structure Coherent (S : Schema R K) (rs : List R) : Prop where
  check : ∀ r ∈ rs, S.check r = true
  apart : rs.Pairwise fun x y => S.key x ≠ S.key y ∧ S.clash x y = false

theorem Coherent.tail {r : R} {rs : List R} (h : Coherent S (r :: rs)) : Coherent S rs :=
  ⟨fun x hx => h.check x (List.mem_cons_of_mem _ hx), (List.pairwise_cons.1 h.apart).2⟩

theorem Coherent.keys_nodup {rs : List R} (h : Coherent S rs) : (rs.map S.key).Nodup :=
  List.pairwise_map.2 (h.apart.imp fun hxy => hxy.1)

variable [DecidableEq K]

/-- Replaces the row with `r`'s key, or appends `r`. -/
def place (S : Schema R K) (r : R) : List R → List R
  | [] => [r]
  | x :: xs => if S.key x = S.key r then r :: xs else x :: place S r xs

theorem mem_place {r y : R} {xs : List R} (hn : (xs.map S.key).Nodup) :
    y ∈ place S r xs ↔ y = r ∨ (y ∈ xs ∧ S.key y ≠ S.key r) := by
  induction xs with
  | nil => simp [place]
  | cons x xs ih =>
    simp only [List.map_cons, List.nodup_cons, List.mem_map, not_exists, not_and] at hn
    unfold place
    split
    · rename_i hk
      -- the replaced row had `r`'s key, so by the key no later row has it
      have hlater : ∀ z ∈ xs, S.key z ≠ S.key r := fun z hz e => hn.1 z hz (e.trans hk.symm)
      simp only [List.mem_cons]
      refine ⟨?_, ?_⟩
      · rintro (rfl | hy)
        · exact .inl rfl
        · exact .inr ⟨.inr hy, hlater y hy⟩
      · rintro (rfl | ⟨rfl | hy, hne⟩)
        · exact .inl rfl
        · exact absurd hk hne
        · exact .inr hy
    · rename_i hk
      simp only [List.mem_cons, ih hn.2]
      refine ⟨?_, ?_⟩
      · rintro (rfl | rfl | ⟨hy, hne⟩)
        · exact .inr ⟨.inl rfl, hk⟩
        · exact .inl rfl
        · exact .inr ⟨.inr hy, hne⟩
      · rintro (rfl | ⟨rfl | hy, hne⟩)
        · exact .inr (.inl rfl)
        · exact .inl rfl
        · exact .inr (.inr ⟨hy, hne⟩)

theorem place_pk (r : R) (xs : List R) (hn : (xs.map S.key).Nodup) :
    ((place S r xs).map S.key).Nodup := by
  induction xs with
  | nil => simp [place]
  | cons x xs ih =>
    have hn' := hn
    simp only [List.map_cons, List.nodup_cons] at hn
    unfold place
    split
    · rename_i hk
      simpa only [List.map_cons, ← hk] using hn'
    · rename_i hk
      simp only [List.map_cons, List.nodup_cons, List.mem_map, not_exists, not_and]
      refine ⟨fun y hy e => ?_, ih hn.2⟩
      rcases (mem_place hn.2).1 hy with rfl | ⟨hy, -⟩
      · exact hk e.symm
      · exact hn.1 (List.mem_map.2 ⟨y, hy, e⟩)

/-- A row whose key is there keeps its place. -/
theorem place_keys {r : R} {xs : List R} (hr : S.key r ∈ xs.map S.key) :
    (place S r xs).map S.key = xs.map S.key := by
  induction xs with
  | nil => cases hr
  | cons x xs ih =>
    unfold place
    split
    · rename_i hk
      rw [List.map_cons, List.map_cons, hk]
    · rename_i hk
      rw [List.map_cons, List.map_cons, ih ((List.mem_cons.1 hr).resolve_left fun he => hk he.symm)]

/-- No row with another key clashes with `r`. -/
def Fits (t : Table S) (r : R) : Prop := ∀ x ∈ t.rows, S.key x ≠ S.key r → S.clash x r = false

instance (t : Table S) (r : R) : Decidable (t.Fits r) :=
  inferInstanceAs (Decidable (∀ x ∈ t.rows, S.key x ≠ S.key r → S.clash x r = false))

def upsert (t : Table S) (r : R) : Except String (Table S) :=
  if hc : S.check r = true then
    if hf : t.Fits r then
      .ok {
        rows := place S r t.rows
        pk := place_pk r t.rows t.pk
        unique := by
          intro x hx y hy hne
          rcases (mem_place t.pk).1 hx with hxr | ⟨hx', hxr⟩ <;>
            rcases (mem_place t.pk).1 hy with hyr | ⟨hy', hyr⟩
          · exact absurd (by rw [hxr, hyr]) hne
          · rw [hxr, S.clash_comm]; exact hf y hy' hyr
          · rw [hyr]; exact hf x hx' hxr
          · exact t.unique x hx' y hy' hne
        checked := by
          intro x hx
          rcases (mem_place t.pk).1 hx with rfl | ⟨hx, -⟩
          · exact hc
          · exact t.checked x hx }
    else .error ("UNIQUE constraint failed: " ++ S.name)
  else .error ("CHECK constraint failed: " ++ S.name)

/-- When a statement succeeds, and the rows it leaves. -/
theorem upsert_ok_iff (t : Table S) (r : R) :
    (∃ u, t.upsert r = .ok u) ↔ S.check r = true ∧ t.Fits r := by
  unfold upsert
  split
  · split <;> simp_all
  · simp_all

theorem upsert_rows {t u : Table S} {r : R} (h : t.upsert r = .ok u) :
    u.rows = place S r t.rows := by
  unfold upsert at h
  split at h
  · split at h
    · cases h; rfl
    · cases h
  · cases h

theorem mem_upsert {t u : Table S} {r : R} (h : t.upsert r = .ok u) (y : R) :
    y ∈ u.rows ↔ y = r ∨ (y ∈ t.rows ∧ S.key y ≠ S.key r) := by
  rw [upsert_rows h, mem_place t.pk]

/-! ## A list of upserts -/

def upsertAll (t : Table S) : List R → Except String (Table S)
  | [] => .ok t
  | r :: rs =>
    match t.upsert r with
    | .ok u => upsertAll u rs
    | .error e => .error e

theorem upsertAll_cons {t v : Table S} {r : R} {rs : List R} :
    t.upsertAll (r :: rs) = .ok v ↔ ∃ u, t.upsert r = .ok u ∧ u.upsertAll rs = .ok v := by
  rw [upsertAll]
  cases t.upsert r <;> simp

theorem upsertAll_append {t v : Table S} {rs qs : List R} :
    t.upsertAll (rs ++ qs) = .ok v ↔ ∃ u, t.upsertAll rs = .ok u ∧ u.upsertAll qs = .ok v := by
  induction rs generalizing t with
  | nil => simp [upsertAll]
  | cons r rs ih =>
    simp only [List.cons_append, upsertAll_cons, ih]
    refine ⟨?_, ?_⟩
    · rintro ⟨u, hu, w, hw, hv⟩; exact ⟨w, ⟨u, hu, hw⟩, hv⟩
    · rintro ⟨w, ⟨u, hu, hw⟩, hv⟩; exact ⟨u, hu, w, hw, hv⟩

/-- The row stored under a key. -/
def find (t : Table S) (k : K) : Option R := t.rows.find? fun x => S.key x = k

theorem find_eq_some {t : Table S} {k : K} {x : R} :
    t.find k = some x ↔ x ∈ t.rows ∧ S.key x = k := by
  refine ⟨?_, ?_⟩
  · intro h
    exact ⟨List.mem_of_find?_eq_some h, by simpa using List.find?_some h⟩
  · intro hs
    obtain ⟨hx, rfl⟩ := hs
    cases hf : t.find (S.key x) with
    | none =>
      have := List.find?_eq_none.1 hf x hx
      simp at this
    | some y =>
      have hy := List.mem_of_find?_eq_some hf
      have hk : S.key y = S.key x := by simpa using List.find?_some hf
      rw [t.eq_of_key hy hx hk]

theorem find_update (t : Table S) (f : R → R) (hf : Unconstrained S f) (k : K) :
    (t.update f hf).find k = (t.find k).map f := by
  simp only [find, update_rows, List.find?_map, Function.comp_def, hf.key]

theorem find_upsert {t u : Table S} {r : R} (h : t.upsert r = .ok u) (k : K) :
    u.find k = if S.key r = k then some r else t.find k := by
  apply Option.ext
  intro x
  rw [find_eq_some, mem_upsert h]
  by_cases hk : S.key r = k
  · rw [if_pos hk]
    refine ⟨?_, ?_⟩
    · rintro ⟨rfl | ⟨-, hne⟩, hx⟩
      · rfl
      · exact absurd (hx.trans hk.symm) hne
    · intro e; cases e; exact ⟨.inl rfl, hk⟩
  · rw [if_neg hk, find_eq_some]
    refine ⟨?_, ?_⟩
    · rintro ⟨rfl | ⟨hx, -⟩, hxk⟩
      · exact absurd hxk hk
      · exact ⟨hx, hxk⟩
    · rintro ⟨hx, rfl⟩; exact ⟨.inr ⟨hx, fun e => hk e.symm⟩, rfl⟩

/-- The last of the rows with the given key. -/
def lastRow (S : Schema R K) (k : K) (rs : List R) : Option R :=
  rs.reverse.find? fun x => S.key x = k

/-- **Last write wins.** A key is left with the last row written under it. -/
theorem find_upsertAll {t v : Table S} {rs : List R} (h : t.upsertAll rs = .ok v) (k : K) :
    v.find k = (lastRow S k rs).or (t.find k) := by
  induction rs generalizing t with
  | nil => simp only [upsertAll, Except.ok.injEq] at h; subst h; simp [lastRow]
  | cons r rs ih =>
    obtain ⟨u, hu, hv⟩ := upsertAll_cons.1 h
    rw [ih hv, find_upsert hu]
    simp only [lastRow, List.reverse_cons, List.find?_append, List.find?_cons, List.find?_nil]
    by_cases hk : S.key r = k <;> simp [hk]

/-- With distinct keys the table holds the new rows and the old rows under other keys. -/
theorem mem_upsertAll {t v : Table S} {rs : List R} (h : t.upsertAll rs = .ok v)
    (hn : (rs.map S.key).Nodup) (y : R) :
    y ∈ v.rows ↔ y ∈ rs ∨ (y ∈ t.rows ∧ S.key y ∉ rs.map S.key) := by
  induction rs generalizing t with
  | nil => simp only [upsertAll, Except.ok.injEq] at h; subst h; simp
  | cons r rs ih =>
    obtain ⟨u, hu, hv⟩ := upsertAll_cons.1 h
    simp only [List.map_cons, List.nodup_cons] at hn
    rw [ih hv hn.2, mem_upsert hu]
    simp only [List.mem_cons, List.map_cons, not_or]
    refine ⟨?_, ?_⟩
    · rintro (hy | ⟨rfl | ⟨hy, hne⟩, hk⟩)
      · exact .inl (.inr hy)
      · exact .inl (.inl rfl)
      · exact .inr ⟨hy, hne, hk⟩
    · rintro ((rfl | hy) | ⟨hy, hne, hk⟩)
      · exact .inr ⟨.inl rfl, hn.1⟩
      · exact .inl hy
      · exact .inr ⟨.inr ⟨hy, hne⟩, hk⟩

theorem upsertAll_keys {t v : Table S} {rs : List R} (h : t.upsertAll rs = .ok v)
    (hrs : ∀ r ∈ rs, S.key r ∈ t.rows.map S.key) : v.rows.map S.key = t.rows.map S.key := by
  induction rs generalizing t with
  | nil => cases h; rfl
  | cons r rs ih =>
    obtain ⟨u, hu, hv⟩ := upsertAll_cons.1 h
    have hk : u.rows.map S.key = t.rows.map S.key := by
      rw [upsert_rows hu, place_keys (hrs r List.mem_cons_self)]
    rw [ih hv fun q hq => by rw [hk]; exact hrs q (List.mem_cons_of_mem _ hq), hk]

/-! ## When a list of upserts goes through -/

/-- Going through the new rows in order and striking the old row with the same
key, no old row still standing clashes with the row being written. -/
def OrderSafe {R : Type} (key : R → K) (clash : R → R → Prop) : List R → List R → Prop
  | _, [] => True
  | old, r :: rs =>
    (∀ x ∈ old, key x ≠ key r → ¬ clash x r) ∧
      OrderSafe key clash (old.filter fun x => key x ≠ key r) rs

instance decidableOrderSafe {R : Type} (key : R → K) (clash : R → R → Prop)
    [∀ x y, Decidable (clash x y)] : ∀ old rs : List R, Decidable (OrderSafe key clash old rs)
  | _, [] => inferInstanceAs (Decidable True)
  | old, r :: rs =>
    have := decidableOrderSafe key clash (old.filter fun x => key x ≠ key r) rs
    inferInstanceAs (Decidable (_ ∧ _))

section
variable {R T : Type} {key : R → K} {clash : R → R → Prop}

theorem OrderSafe.of_apart {old rs : List R}
    (h : ∀ r ∈ rs, ∀ x ∈ old, key x ≠ key r → ¬ clash x r) : OrderSafe key clash old rs := by
  induction rs generalizing old with
  | nil => trivial
  | cons r rs ih =>
    exact ⟨h r List.mem_cons_self, ih fun q hq x hx =>
      h q (List.mem_cons_of_mem _ hq) x (List.mem_of_mem_filter hx)⟩

theorem orderSafe_append {old rs qs : List R} :
    OrderSafe key clash old (rs ++ qs) ↔
      OrderSafe key clash old rs ∧
        OrderSafe key clash (old.filter fun x => key x ∉ rs.map key) qs := by
  induction rs generalizing old with
  | nil => simp [OrderSafe]
  | cons r rs ih =>
    rw [List.cons_append, OrderSafe, OrderSafe, ih, and_assoc, List.filter_filter]
    simp only [List.map_cons, List.mem_cons, not_or, Bool.decide_and, Bool.and_comm]

/-- An old row matters only through its key and its clashes. -/
theorem OrderSafe.mono {old old' rs : List R} (h : OrderSafe key clash old' rs)
    (hold : ∀ x ∈ old, (∃ y ∈ old', key y = key x ∧ ∀ r ∈ rs, clash x r → clash y r) ∨
      ∀ r ∈ rs, key x ≠ key r → ¬ clash x r) : OrderSafe key clash old rs := by
  induction rs generalizing old old' with
  | nil => trivial
  | cons r rs ih =>
    refine ⟨fun x hx hne => ?_, ih h.2 fun x hx => ?_⟩
    · rcases hold x hx with ⟨y, hy, hk, hc⟩ | hc
      · exact fun hcl => h.1 y hy (by rwa [hk]) (hc r List.mem_cons_self hcl)
      · exact hc r List.mem_cons_self hne
    · rw [List.mem_filter, decide_eq_true_eq] at hx
      rcases hold x hx.1 with ⟨y, hy, hk, hc⟩ | hc
      · refine .inl ⟨y, ?_, hk, fun q hq => hc q (List.mem_cons_of_mem _ hq)⟩
        rw [List.mem_filter, decide_eq_true_eq, hk]
        exact ⟨hy, hx.2⟩
      · exact .inr fun q hq => hc q (List.mem_cons_of_mem _ hq)

/-- The same walk over rows that correspond one by one. -/
theorem orderSafe_forall₂ {key' : T → K} {clash' : T → T → Prop} {old : List R} {f : R → T}
    (hf : ∀ x, key' (f x) = key x) {rs : List R} {ts : List T} {Q : R → T → Prop}
    (hrs : List.Forall₂ Q rs ts) (hQ : ∀ r t, Q r t → key' t = key r)
    (hc : ∀ x ∈ old, ∀ r ∈ rs, ∀ t, Q r t → key x ≠ key r → (clash x r ↔ clash' (f x) t)) :
    OrderSafe key clash old rs ↔ OrderSafe key' clash' (old.map f) ts := by
  induction hrs generalizing old with
  | nil => exact Iff.rfl
  | @cons r t rs ts hrt _ ih =>
    have hk := hQ r t hrt
    have htail := @ih (old.filter fun x => key x ≠ key r) fun x hx q hq u hqu =>
      hc x (List.mem_of_mem_filter hx) q (List.mem_cons_of_mem _ hq) u hqu
    have hfilter : (old.map f).filter (fun x => key' x ≠ key' t) =
        (old.filter fun x => key x ≠ key r).map f := by
      rw [List.filter_map]
      simp only [Function.comp_def, hf, hk]
    rw [OrderSafe, OrderSafe, htail, hfilter]
    refine and_congr_left fun _ => ?_
    simp only [List.forall_mem_map, hf, hk]
    refine forall₂_congr fun x hx => forall_congr' fun hne => ?_
    rw [hc x hx r List.mem_cons_self t hrt hne]

end

/-- Invariant of the run: every row of the table is an old row still standing
(`old`) or is apart from all rows still to be written. -/
theorem upsertAll_ok_iff_aux (old rs : List R) (t : Table S) (hrs : Coherent S rs)
    (hold : ∀ x ∈ old, x ∈ t.rows)
    (hrest : ∀ x ∈ t.rows, x ∈ old ∨ ∀ r ∈ rs, S.key x ≠ S.key r ∧ S.clash x r = false) :
    (∃ v, t.upsertAll rs = .ok v) ↔ OrderSafe S.key (S.clash · · = true) old rs := by
  induction rs generalizing old t with
  | nil => simp [upsertAll, OrderSafe]
  | cons r rs ih =>
    have hfit : t.Fits r ↔ ∀ x ∈ old, S.key x ≠ S.key r → S.clash x r = false := by
      refine ⟨?_, ?_⟩
      · exact fun h x hx => h x (hold x hx)
      · intro h x hx hne
        rcases hrest x hx with ho | ha
        · exact h x ho hne
        · exact (ha r List.mem_cons_self).2
    have hstep : ∀ u, t.upsert r = .ok u →
        ((∃ v, u.upsertAll rs = .ok v) ↔
          OrderSafe S.key (S.clash · · = true) (old.filter fun x => S.key x ≠ S.key r) rs) := by
      intro u hu
      apply ih _ _ hrs.tail
      · intro x hx
        simp only [List.mem_filter, decide_eq_true_eq] at hx
        exact (mem_upsert hu x).2 (.inr ⟨hold x hx.1, hx.2⟩)
      · intro x hx
        rcases (mem_upsert hu x).1 hx with rfl | ⟨hx, hne⟩
        · exact .inr (List.pairwise_cons.1 hrs.apart).1
        · rcases hrest x hx with ho | ha
          · exact .inl (by simpa using ⟨ho, hne⟩)
          · exact .inr fun q hq => ha q (List.mem_cons_of_mem _ hq)
    rw [OrderSafe]
    simp only [Bool.not_eq_true]
    refine ⟨?_, ?_⟩
    · intro hs
      obtain ⟨v, hv⟩ := hs
      obtain ⟨u, hu, hv⟩ := upsertAll_cons.1 hv
      exact ⟨hfit.1 ((upsert_ok_iff t r).1 ⟨u, hu⟩).2, (hstep u hu).1 ⟨v, hv⟩⟩
    · intro hs
      obtain ⟨h₁, h₂⟩ := hs
      obtain ⟨u, hu⟩ := (upsert_ok_iff t r).2 ⟨hrs.check r List.mem_cons_self, hfit.2 h₁⟩
      obtain ⟨v, hv⟩ := (hstep u hu).2 h₂
      exact ⟨v, upsertAll_cons.2 ⟨u, hu, hv⟩⟩

/-- **Order of writes.** Rows that are fine among themselves go in, one
statement each, exactly when `OrderSafe` holds of the old rows. -/
theorem upsertAll_ok_iff (t : Table S) (rs : List R) (hrs : Coherent S rs) :
    (∃ v, t.upsertAll rs = .ok v) ↔ OrderSafe S.key (S.clash · · = true) t.rows rs :=
  upsertAll_ok_iff_aux t.rows rs t hrs (fun _ hx => hx) fun _ hx => .inl hx

end Table

end OrangeFrp.Core
