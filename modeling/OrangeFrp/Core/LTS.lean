import Mathlib.Logic.Relation

/-!
# Labelled transition systems

A system is a set of initial states and a labelled step relation. `Run`
records the labels of a finite run, `Reachable` forgets them. A predicate that
holds initially and is kept by every step (`Inductive`) holds of every
reachable state (`Inductive.reachable`).

`restrict G` keeps the steps that satisfy `G`: its runs are exactly the runs of
the system all of whose steps meet the condition (`run_restrict_iff`), which
is how a property that holds only under a condition on each step is stated.
-/
namespace OrangeFrp

universe u v

structure LTS (S : Type u) (L : Type v) where
  init : S → Prop
  step : S → L → S → Prop

namespace LTS

variable {S : Type u} {L : Type v}

/-- A run from one state to another with the labels it takes. -/
inductive Run (M : LTS S L) : S → List L → S → Prop
  | nil (s : S) : Run M s [] s
  | cons {s t r : S} {l : L} {ls : List L} : M.step s l t → Run M t ls r → Run M s (l :: ls) r

def Reachable (M : LTS S L) (s : S) : Prop := ∃ s₀ ls, M.init s₀ ∧ M.Run s₀ ls s

structure Inductive (M : LTS S L) (I : S → Prop) : Prop where
  init : ∀ s, M.init s → I s
  step : ∀ s l t, I s → M.step s l t → I t

variable {M : LTS S L} {I : S → Prop}

theorem Run.append {s t r : S} {ls ks : List L} (h₁ : M.Run s ls t) (h₂ : M.Run t ks r) :
    M.Run s (ls ++ ks) r := by
  induction h₁ with
  | nil => exact h₂
  | cons hst _ ih => exact .cons hst (ih h₂)

theorem Run.snoc {s t r : S} {ls : List L} {l : L} (h : M.Run s ls t) (hst : M.step t l r) :
    M.Run s (ls ++ [l]) r :=
  h.append (.cons hst (.nil r))

/-- A run is one of another system that takes its steps. -/
theorem Run.mono {N : LTS S L} {s t : S} {ls : List L} (h : M.Run s ls t)
    (hst : ∀ s l t, l ∈ ls → M.step s l t → N.step s l t) : N.Run s ls t := by
  induction h with
  | nil s => exact .nil s
  | cons hstep _ ih =>
    exact .cons (hst _ _ _ List.mem_cons_self hstep)
      (ih fun s l t hl => hst s l t (List.mem_cons_of_mem _ hl))

/-- What every step keeps, wherever it starts, a run keeps. -/
theorem Run.keeps {s t : S} {ls : List L} (hr : M.Run s ls t) (hstep : ∀ s l t, I s → M.step s l t → I t)
    (hs : I s) : I t := by
  induction hr with
  | nil => exact hs
  | cons hst _ ih => exact ih (hstep _ _ _ hs hst)

/-- What every step of a run keeps of a state together with the labels that led to it. -/
theorem Run.history {Q : List L → S → Prop} {s₀ s : S} {ls : List L} (h : M.Run s₀ ls s) (h₀ : Q [] s₀)
    (hstep : ∀ ks s l t, M.Run s₀ ks s → Q ks s → M.step s l t → Q (ks ++ [l]) t) : Q ls s := by
  have hgoes : ∀ {r s : S} {ks ls : List L}, M.Run r ls s → M.Run s₀ ks r → Q ks r → Q (ks ++ ls) s := by
    intro r s ks ls hrun
    induction hrun generalizing ks with
    | nil => simp
    | cons hst _ ih =>
      intro hbefore hq
      have := ih (hbefore.snoc hst) (hstep _ _ _ _ hbefore hq hst)
      rwa [List.append_assoc] at this
  exact hgoes h (.nil s₀) h₀

theorem Inductive.run (h : M.Inductive I) {s t : S} {ls : List L} (hr : M.Run s ls t) (hs : I s) : I t :=
  hr.keeps h.step hs

theorem Inductive.reachable (h : M.Inductive I) (s : S) (hr : M.Reachable s) : I s := by
  obtain ⟨s₀, ls, h₀, hrun⟩ := hr
  exact h.run hrun (h.init s₀ h₀)

theorem reachable_init {s : S} (h : M.init s) : M.Reachable s := ⟨s, [], h, .nil s⟩

theorem Reachable.step {s t : S} {l : L} (hr : M.Reachable s) (hst : M.step s l t) :
    M.Reachable t := by
  obtain ⟨s₀, ls, h₀, hrun⟩ := hr
  exact ⟨s₀, ls ++ [l], h₀, hrun.snoc hst⟩

/-- The system whose step is a partial function of the state and the label. -/
def ofFn (init : S → Prop) (f : S → L → Option S) : LTS S L where
  init := init
  step s l t := f s l = some t

/-- Folds a partial step function over a list of labels. -/
def exec (f : S → L → Option S) : S → List L → Option S
  | s, [] => some s
  | s, l :: ls => (f s l).bind fun t => exec f t ls

theorem run_of_exec {init : S → Prop} {f : S → L → Option S} {ls : List L} :
    ∀ {s t : S}, exec f s ls = some t → (ofFn init f).Run s ls t := by
  induction ls with
  | nil =>
    intro s t h
    simp only [exec, Option.some.injEq] at h; subst h
    exact .nil s
  | cons l ls ih =>
    intro s t h
    simp only [exec, Option.bind_eq_some_iff] at h
    obtain ⟨r, hr, ht⟩ := h
    exact .cons hr (ih ht)

theorem exec_of_run {init : S → Prop} {f : S → L → Option S} {s t : S} {ls : List L}
    (h : (ofFn init f).Run s ls t) : exec f s ls = some t := by
  induction h with
  | nil => rfl
  | cons hst _ ih => exact Option.bind_eq_some_iff.2 ⟨_, hst, ih⟩

/-- Where every step is seen as a step of another system or not at all, a run is one of what
is seen. -/
theorem Run.seen {T : Type*} {K : Type*} {N : LTS T K} {g : S → T} {view : L → Option K}
    (hstep : ∀ s l t, I s → M.step s l t → I t ∧ N.Run (g s) (view l).toList (g t)) {s t : S} {ls : List L}
    (h : M.Run s ls t) (hs : I s) : N.Run (g s) (ls.filterMap view) (g t) := by
  induction h with
  | nil s => exact .nil (g s)
  | @cons s t r l ls hst _ ih =>
    obtain ⟨ht, hrun⟩ := hstep s l t hs hst
    have := hrun.append (ih ht)
    cases hl : view l with
    | none =>
      rw [hl] at this
      rw [List.filterMap_cons_none hl]
      exact this
    | some k =>
      rw [hl] at this
      rw [List.filterMap_cons_some hl]
      exact this

/-! ## Runs whose steps all meet a condition -/

def restrict (M : LTS S L) (G : S → L → Prop) : LTS S L where
  init := M.init
  step s l t := M.step s l t ∧ G s l

theorem restrict_run_of_exec {init : S → Prop} {f : S → L → Option S} {G : S → L → Prop}
    [∀ s l, Decidable (G s l)] {ls : List L} :
    ∀ {s t : S}, exec (fun s l => if G s l then f s l else none) s ls = some t →
      ((ofFn init f).restrict G).Run s ls t := by
  induction ls with
  | nil =>
    intro s t h
    simp only [exec, Option.some.injEq] at h; subst h
    exact .nil s
  | cons l ls ih =>
    intro s t h
    simp only [exec, Option.bind_eq_some_iff] at h
    obtain ⟨r, hr, ht⟩ := h
    split at hr
    · rename_i hg
      exact .cons ⟨hr, hg⟩ (ih ht)
    · cases hr

/-- The condition `G` holds at every step of the run. -/
inductive Meets (M : LTS S L) (G : S → L → Prop) : S → List L → S → Prop
  | nil (s : S) : Meets M G s [] s
  | cons {s t r : S} {l : L} {ls : List L} :
      M.step s l t → G s l → Meets M G t ls r → Meets M G s (l :: ls) r

theorem run_restrict_iff {G : S → L → Prop} {s t : S} {ls : List L} :
    (M.restrict G).Run s ls t ↔ M.Meets G s ls t := by
  refine ⟨?_, ?_⟩
  · intro h
    induction h with
    | nil s => exact .nil s
    | cons hst _ ih => exact .cons hst.1 hst.2 ih
  · intro h
    induction h with
    | nil s => exact .nil s
    | cons hst hg _ ih => exact .cons ⟨hst, hg⟩ ih

theorem Meets.run {G : S → L → Prop} {s t : S} {ls : List L} (h : M.Meets G s ls t) :
    M.Run s ls t := by
  induction h with
  | nil s => exact .nil s
  | cons hst _ _ ih => exact .cons hst ih

/-- What every step from a state of the invariant meets is met by every run. -/
theorem Inductive.meets (h : M.Inductive I) {G : S → L → Prop}
    (hG : ∀ s l t, I s → M.step s l t → G s l) {s t : S} {ls : List L} (hr : M.Run s ls t) (hs : I s) :
    M.Meets G s ls t := by
  induction hr with
  | nil s => exact .nil s
  | cons hst _ ih => exact .cons hst (hG _ _ _ hs hst) (ih (h.step _ _ _ hs hst))

end LTS

end OrangeFrp
