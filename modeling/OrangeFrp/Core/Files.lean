import Mathlib.Data.List.Basic
import Mathlib.Logic.Function.Basic

/-!
# Files that outlive a loss of power

A directory gives names to files, no file has two names, and a rename happens as a whole. What
was written to a file is sure to be there after a loss of power only if the file was synced
after it; of the directory any state may come back that it had since the last loss.

* `Files.openNew`, `append`, `sync`, `chmod`, `rename`, `remove`, `powerLoss`: the operations.
* `Files.SameAt`: what an operation does not touch.
* `Files.Settled`: the files under the names of a set are synced and good, in the directory and
  in every one that may come back. Work under other names and renames of synced files keep that.
* `Files.Keeps`: of such a file nothing changes, whether or not it still has its name.
-/
namespace OrangeFrp.Core

variable {N : Type*} [DecidableEq N]

/-! ## Directories -/

structure Directory (N : Type*) where
  entry : N → Option Nat
  single : ∀ a b i, entry a = some i → entry b = some i → a = b

namespace Directory

/-- A name for a file that has none. -/
def link (d : Directory N) (n : N) (i : Nat) (h : ∀ a, d.entry a ≠ some i) : Directory N where
  entry := Function.update d.entry n (some i)
  single := by
    intro a b j ha hb
    simp only [Function.update_apply] at ha hb
    split at ha <;> split at hb
    · rename_i ha' hb'
      rw [ha', hb']
    · cases ha
      exact absurd hb (h b)
    · cases hb
      exact absurd ha (h a)
    · exact d.single a b j ha hb

/-- The file of one name gets another, whatever that was before. -/
def move (d : Directory N) (source target : N) : Directory N where
  entry n := if n = target then d.entry source else if n = source then none else d.entry n
  single := by
    intro a b i ha hb
    split at ha <;> split at hb
    · rename_i ha' hb'
      rw [ha', hb']
    · split at hb
      · cases hb
      · rename_i hne
        exact absurd (d.single b source i hb ha) hne
    · split at ha
      · cases ha
      · rename_i hne
        exact absurd (d.single a source i ha hb) hne
    · split at ha <;> split at hb
      · cases ha
      · cases ha
      · cases hb
      · exact d.single a b i ha hb

def unlink (d : Directory N) (n : N) : Directory N where
  entry := Function.update d.entry n none
  single := by
    intro a b i ha hb
    simp only [Function.update_apply] at ha hb
    split at ha <;> split at hb
    · cases ha
    · cases ha
    · cases hb
    · exact d.single a b i ha hb

variable {d : Directory N} {a b n : N} {i : Nat}

@[simp] theorem link_self {h : ∀ a, d.entry a ≠ some i} : (d.link n i h).entry n = some i :=
  Function.update_self ..

theorem link_of_ne {h : ∀ a, d.entry a ≠ some i} (hn : a ≠ n) : (d.link n i h).entry a = d.entry a :=
  Function.update_of_ne hn ..

@[simp] theorem move_target : (d.move a b).entry b = d.entry a := if_pos rfl

theorem move_of_ne (hb : n ≠ b) (ha : n ≠ a) : (d.move a b).entry n = d.entry n := by
  simp only [move, if_neg hb, if_neg ha]

@[simp] theorem unlink_self : (d.unlink n).entry n = none := Function.update_self ..

theorem unlink_of_ne (hn : a ≠ n) : (d.unlink n).entry a = d.entry a := Function.update_of_ne hn ..

end Directory

/-! ## Files -/

structure File where
  bytes : List UInt8
  mode : Nat
  synced : Bool
  deriving DecidableEq

structure Files (N : Type*) where
  dir : Directory N
  /-- the directories since the last loss of power -/
  earlier : List (Directory N)
  file : Nat → File
  next : Nat
  allocated : ∀ d ∈ dir :: earlier, ∀ n i, d.entry n = some i → i < next

namespace Files

/-- What is under a name. -/
def read (s : Files N) (n : N) : Option File := (s.dir.entry n).map s.file

def setFile (s : Files N) (i : Nat) (f : File) : Files N := { s with file := Function.update s.file i f }

/-- The directory changes, and the one there was may come back. -/
def setDir (s : Files N) (d : Directory N) (h : ∀ n i, d.entry n = some i → i < s.next) : Files N where
  dir := d
  earlier := s.dir :: s.earlier
  file := s.file
  next := s.next
  allocated := by
    intro d' hd
    rcases List.mem_cons.1 hd with rfl | hd
    · exact h
    · exact s.allocated d' hd

/-- Room for a new file. -/
def grow (s : Files N) (f : File) : Files N where
  dir := s.dir
  earlier := s.earlier
  file := Function.update s.file s.next f
  next := s.next + 1
  allocated d hd n i hi := Nat.lt_succ_of_lt (s.allocated d hd n i hi)

omit [DecidableEq N] in
theorem fresh (s : Files N) (a : N) : s.dir.entry a ≠ some s.next := by
  intro h
  exact Nat.lt_irrefl _ (s.allocated s.dir List.mem_cons_self a s.next h)

theorem link_lt (s : Files N) {n a : N} {i : Nat} (h : (s.dir.link n s.next s.fresh).entry a = some i) :
    i < s.next + 1 := by
  by_cases ha : a = n
  · rw [ha, Directory.link_self] at h
    cases h
    exact Nat.lt_succ_self _
  · rw [Directory.link_of_ne ha] at h
    exact Nat.lt_succ_of_lt (s.allocated s.dir List.mem_cons_self a i h)

theorem move_lt (s : Files N) {source target n : N} {i : Nat} (h : (s.dir.move source target).entry n = some i) :
    i < s.next := by
  simp only [Directory.move] at h
  split at h
  · exact s.allocated s.dir List.mem_cons_self source i h
  · split at h
    · cases h
    · exact s.allocated s.dir List.mem_cons_self n i h

theorem unlink_lt (s : Files N) {n a : N} {i : Nat} (h : (s.dir.unlink n).entry a = some i) : i < s.next := by
  by_cases ha : a = n
  · rw [ha, Directory.unlink_self] at h
    cases h
  · rw [Directory.unlink_of_ne ha] at h
    exact s.allocated s.dir List.mem_cons_self a i h

/-- Opens for writing with `create` and `truncate`; a new file has the mode of the mask. -/
def openNew (s : Files N) (n : N) (mask : Nat) : Files N × Nat :=
  match s.dir.entry n with
  | some i => (s.setFile i ⟨[], (s.file i).mode, false⟩, i)
  | none => ((s.grow ⟨[], mask, false⟩).setDir (s.dir.link n s.next s.fresh) fun _ _ => s.link_lt, s.next)

def append (s : Files N) (i : Nat) (chunk : List UInt8) : Files N :=
  s.setFile i ⟨(s.file i).bytes ++ chunk, (s.file i).mode, false⟩

def sync (s : Files N) (i : Nat) : Files N := s.setFile i { s.file i with synced := true }

def chmod (s : Files N) (n : N) (mode : Nat) : Option (Files N) :=
  (s.dir.entry n).map fun i => s.setFile i { s.file i with mode := mode }

def rename (s : Files N) (source target : N) : Option (Files N) :=
  if (s.dir.entry source).isSome then some (s.setDir (s.dir.move source target) fun _ _ => s.move_lt) else none

def remove (s : Files N) (n : N) : Option (Files N) :=
  if (s.dir.entry n).isSome then some (s.setDir (s.dir.unlink n) fun _ _ => s.unlink_lt) else none

omit [DecidableEq N] in
theorem back_mem (s : Files N) (back : Nat) : (s.dir :: s.earlier).getD back s.dir ∈ s.dir :: s.earlier := by
  rw [List.getD_eq_getElem?_getD]
  cases h : (s.dir :: s.earlier)[back]? with
  | none => exact List.mem_cons_self
  | some d => exact List.mem_of_getElem? h

/-- The files that were not synced may be anything, and so may all modes.
`back` is the number of the directory that comes back. -/
def powerLoss (s : Files N) (back : Nat) (found : Nat → File) : Files N where
  dir := (s.dir :: s.earlier).getD back s.dir
  earlier := []
  file i := ⟨if (s.file i).synced then (s.file i).bytes else (found i).bytes, (found i).mode, true⟩
  next := s.next
  allocated := by
    intro d hd
    rw [List.mem_singleton.1 hd]
    exact s.allocated _ (s.back_mem back)

/-! ## What an operation is about -/

/-- The name has the same file, and that is as it was. -/
def SameAt (s t : Files N) (n : N) : Prop :=
  t.dir.entry n = s.dir.entry n ∧ ∀ i, s.dir.entry n = some i → t.file i = s.file i

section
variable {s t : Files N} {n a : N} {i : Nat}

omit [DecidableEq N] in
theorem SameAt.read (h : SameAt s t n) : t.read n = s.read n := by
  unfold Files.read
  rw [h.1]
  cases hn : s.dir.entry n with
  | none => rfl
  | some i => simp [h.2 i hn]

omit [DecidableEq N] in
theorem SameAt.refl (s : Files N) (n : N) : SameAt s s n := ⟨rfl, fun _ _ => rfl⟩

omit [DecidableEq N] in
theorem setFile_sameAt (hi : s.dir.entry a = some i) (hn : n ≠ a) (f : File) : SameAt s (s.setFile i f) n := by
  refine ⟨rfl, fun j hj => Function.update_of_ne ?_ ..⟩
  rintro rfl
  exact hn (s.dir.single n a j hj hi)

theorem openNew_sameAt (hn : n ≠ a) (mask : Nat) : SameAt s (s.openNew a mask).1 n := by
  unfold openNew
  split
  · rename_i i hi
    exact setFile_sameAt hi hn _
  · refine ⟨Directory.link_of_ne (h := s.fresh) hn, fun j hj => Function.update_of_ne ?_ ..⟩
    exact Nat.ne_of_lt (s.allocated s.dir List.mem_cons_self n j hj)

theorem openNew_entry (s : Files N) (a : N) (mask : Nat) :
    (s.openNew a mask).1.dir.entry a = some (s.openNew a mask).2 ∧
      ((s.openNew a mask).1.file (s.openNew a mask).2).bytes = [] := by
  unfold openNew
  split
  · rename_i i hi
    refine ⟨hi, ?_⟩
    simp only [setFile, Function.update_self]
  · refine ⟨Directory.link_self (h := s.fresh), ?_⟩
    simp only [setDir, grow, Function.update_self]

theorem rename_sameAt {b : N} (ha : n ≠ a) (hb : n ≠ b) (h : s.rename a b = some t) : SameAt s t n := by
  unfold rename at h
  split at h
  · cases h
    exact ⟨Directory.move_of_ne hb ha, fun _ _ => rfl⟩
  · cases h

theorem rename_read {b : N} (h : s.rename a b = some t) : t.read b = s.read a := by
  unfold rename at h
  split at h
  · cases h
    exact congrArg (Option.map s.file) Directory.move_target
  · cases h

theorem remove_sameAt (hn : n ≠ a) (h : s.remove a = some t) : SameAt s t n := by
  unfold remove at h
  split at h
  · cases h
    exact ⟨Directory.unlink_of_ne hn, fun _ _ => rfl⟩
  · cases h

end

/-! ## Settled names -/

/-- The file has one of the names `T`, or had one since the last loss of power. -/
def Held (T : N → Prop) (s : Files N) (i : Nat) : Prop :=
  ∃ d ∈ s.dir :: s.earlier, ∃ p, T p ∧ d.entry p = some i

/-- The files that have, or had, a name of `T` are synced and good for it, and have no other. -/
structure Settled (T : N → Prop) (G : N → List UInt8 → Prop) (s : Files N) : Prop where
  synced : ∀ i, Held T s i → (s.file i).synced = true
  good : ∀ d ∈ s.dir :: s.earlier, ∀ p i, T p → d.entry p = some i → G p (s.file i).bytes
  apart : ∀ i, Held T s i → ∀ q, ¬ T q → s.dir.entry q ≠ some i

/-- Such a file stays as it is. -/
def Keeps (T : N → Prop) (s t : Files N) : Prop := ∀ i, Held T s i → Held T t i ∧ t.file i = s.file i

section
variable {T : N → Prop} {G : N → List UInt8 → Prop} {s t r : Files N} {n q : N} {i : Nat}

omit [DecidableEq N] in
theorem Held.now (hT : T n) (h : s.dir.entry n = some i) : Held T s i := ⟨s.dir, List.mem_cons_self, n, hT, h⟩

omit [DecidableEq N] in
theorem Held.allocated (h : Held T s i) : i < s.next := by
  obtain ⟨d, hd, p, -, hi⟩ := h
  exact s.allocated d hd p i hi

omit [DecidableEq N] in
theorem Keeps.refl (s : Files N) : Keeps T s s := fun _ h => ⟨h, rfl⟩

omit [DecidableEq N] in
theorem Keeps.trans (h : Keeps T s t) (h' : Keeps T t r) : Keeps T s r := by
  intro i hi
  obtain ⟨ht, hs⟩ := h i hi
  obtain ⟨hr, ht'⟩ := h' i ht
  exact ⟨hr, ht'.trans hs⟩

omit [DecidableEq N] in
/-- A file with another name is none of those that are held. -/
theorem Settled.ne (h : Settled T G s) (hq : ¬ T q) (hi : s.dir.entry q = some i) {k : Nat} (hk : Held T s k) :
    k ≠ i := by
  rintro rfl
  exact h.apart k hk q hq hi

omit [DecidableEq N] in
/-- Work on a file with another name. -/
theorem Settled.setFile (h : Settled T G s) (hq : ¬ T q) (hi : s.dir.entry q = some i) (f : File) :
    Settled T G (s.setFile i f) ∧ Keeps T s (s.setFile i f) := by
  have hsame (k : Nat) (hk : Held T s k) : (s.setFile i f).file k = s.file k :=
    Function.update_of_ne (h.ne hq hi hk) ..
  refine ⟨⟨fun k hk => ?_, fun d hd p k hp hpk => ?_, h.apart⟩, fun k hk => ⟨hk, hsame k hk⟩⟩
  · rw [hsame k hk]
    exact h.synced k hk
  · rw [hsame k ⟨d, hd, p, hp, hpk⟩]
    exact h.good d hd p k hp hpk

omit [DecidableEq N] in
theorem held_setDir {d : Directory N} {hd : ∀ n i, d.entry n = some i → i < s.next} :
    Held T (s.setDir d hd) i ↔ (∃ p, T p ∧ d.entry p = some i) ∨ Held T s i := by
  unfold Held setDir
  simp

omit [DecidableEq N] in
/-- The directory changes. What it gives a name of `T` was held, or is synced and good. -/
theorem Settled.setDir (h : Settled T G s) {d : Directory N} (hd : ∀ n i, d.entry n = some i → i < s.next)
    (hnew : ∀ p i, T p → d.entry p = some i → s.dir.entry p = some i ∨
      (s.file i).synced = true ∧ G p (s.file i).bytes)
    (hapart : ∀ q i, ¬ T q → d.entry q = some i → s.dir.entry q = some i ∨ ¬ Held T s i) :
    Settled T G (s.setDir d hd) ∧ Keeps T s (s.setDir d hd) := by
  refine ⟨⟨fun k hk => ?_, fun d' hd' p k hp hpk => ?_, fun k hk q hq hqk => ?_⟩,
    fun k hk => ⟨held_setDir.2 (.inr hk), rfl⟩⟩
  · rcases held_setDir.1 hk with ⟨p, hp, hpk⟩ | hk
    · rcases hnew p k hp hpk with hold | ⟨hsynced, -⟩
      · exact h.synced k (.now hp hold)
      · exact hsynced
    · exact h.synced k hk
  · rcases List.mem_cons.1 hd' with rfl | hd'
    · rcases hnew p k hp hpk with hold | ⟨-, hgood⟩
      · exact h.good s.dir List.mem_cons_self p k hp hold
      · exact hgood
    · exact h.good d' hd' p k hp hpk
  · rcases held_setDir.1 hk with ⟨p, hp, hpk⟩ | hk
    · -- the directory has one name for a file
      exact hq (d.single p q k hpk hqk ▸ hp)
    · rcases hapart q k hq hqk with hold | hfree
      · exact h.apart k hk q hq hold
      · exact hfree hk

omit [DecidableEq N] in
theorem Settled.grow (h : Settled T G s) (f : File) : Settled T G (s.grow f) ∧ Keeps T s (s.grow f) := by
  have hsame (k : Nat) (hk : Held T s k) : (s.grow f).file k = s.file k :=
    Function.update_of_ne (Nat.ne_of_lt hk.allocated) ..
  refine ⟨⟨fun k hk => ?_, fun d hd p k hp hpk => ?_, h.apart⟩, fun k hk => ⟨hk, hsame k hk⟩⟩
  · rw [hsame k hk]
    exact h.synced k hk
  · rw [hsame k ⟨d, hd, p, hp, hpk⟩]
    exact h.good d hd p k hp hpk

theorem Settled.openNew (h : Settled T G s) (hq : ¬ T q) (mask : Nat) :
    Settled T G (s.openNew q mask).1 ∧ Keeps T s (s.openNew q mask).1 := by
  unfold Files.openNew
  split
  · rename_i i hi
    exact h.setFile hq hi _
  · obtain ⟨hg, hk⟩ := h.grow ⟨[], mask, false⟩
    have hnew (p : N) (i : Nat) (hp : T p) (hpi : (s.dir.link q s.next s.fresh).entry p = some i) :
        s.dir.entry p = some i := by
      rwa [Directory.link_of_ne (by rintro rfl; exact hq hp)] at hpi
    have hapart (a : N) (i : Nat) (hai : (s.dir.link q s.next s.fresh).entry a = some i) :
        s.dir.entry a = some i ∨ ¬ Held T s i := by
      by_cases ha : a = q
      · rw [ha, Directory.link_self] at hai
        cases hai
        exact .inr fun hheld => absurd hheld.allocated (Nat.lt_irrefl _)
      · rw [Directory.link_of_ne ha] at hai
        exact .inl hai
    have hdir := hg.setDir (d := s.dir.link q s.next s.fresh) (fun _ _ => s.link_lt)
      (fun p i hp hpi => .inl (hnew p i hp hpi)) fun a i _ hai => hapart a i hai
    exact ⟨hdir.1, hk.trans hdir.2⟩

theorem Settled.rename (h : Settled T G s) {target : N} (hq : ¬ T q) (ht : T target) (hi : s.dir.entry q = some i)
    (hsynced : (s.file i).synced = true) (hgood : G target (s.file i).bytes) (hr : s.rename q target = some t) :
    Settled T G t ∧ Keeps T s t := by
  simp only [Files.rename, hi, Option.isSome_some, if_true, Option.some.injEq] at hr
  subst hr
  refine h.setDir _ (fun p k hp hpk => ?_) fun a k ha hak => ?_
  · by_cases hpt : p = target
    · rw [hpt, Directory.move_target, hi] at hpk
      cases hpk
      rw [hpt]
      exact .inr ⟨hsynced, hgood⟩
    · rw [Directory.move_of_ne hpt (by rintro rfl; exact hq hp)] at hpk
      exact .inl hpk
  · have hat : a ≠ target := by rintro rfl; exact ha ht
    by_cases haq : a = q
    · simp only [Directory.move, if_neg hat, if_pos haq] at hak
      cases hak
    · rw [Directory.move_of_ne hat haq] at hak
      exact .inl hak

theorem Settled.remove (h : Settled T G s) (hr : s.remove n = some t) : Settled T G t ∧ Keeps T s t := by
  unfold Files.remove at hr
  split at hr
  · cases hr
    have hentry {a : N} {i : Nat} (ha : (s.dir.unlink n).entry a = some i) : s.dir.entry a = some i := by
      by_cases han : a = n
      · rw [han, Directory.unlink_self] at ha
        cases ha
      · rwa [Directory.unlink_of_ne han] at ha
    exact h.setDir _ (fun _ _ _ => fun ha => .inl (hentry ha)) fun _ _ _ ha => .inl (hentry ha)
  · cases hr

omit [DecidableEq N] in
/-- **Loss of power.** A directory of before comes back, with the files that were there. -/
theorem Settled.powerLoss (h : Settled T G s) (back : Nat) (found : Nat → File) :
    Settled T G (s.powerLoss back found) ∧ ∀ p i, T p → (s.powerLoss back found).dir.entry p = some i →
      Held T s i ∧ ((s.powerLoss back found).file i).bytes = (s.file i).bytes := by
  have hdir : (s.powerLoss back found).dir ∈ s.dir :: s.earlier := s.back_mem back
  have hheld {p : N} {i : Nat} (hp : T p) (hi : (s.powerLoss back found).dir.entry p = some i) : Held T s i :=
    ⟨_, hdir, p, hp, hi⟩
  have hbytes {i : Nat} (hi : Held T s i) : ((s.powerLoss back found).file i).bytes = (s.file i).bytes := by
    simp only [Files.powerLoss, h.synced i hi, if_true]
  refine ⟨⟨fun _ _ => rfl, fun d hd p i hp hi => ?_, fun i hi q hq hqi => ?_⟩, fun p i hp hi => ?_⟩
  · rw [List.mem_singleton.1 hd] at hi
    rw [hbytes (hheld hp hi)]
    exact h.good _ hdir p i hp hi
  · obtain ⟨d, hd, p, hp, hpi⟩ := hi
    rw [List.mem_singleton.1 hd] at hpi
    exact hq ((s.powerLoss back found).dir.single p q i hpi hqi ▸ hp)
  · exact ⟨hheld hp hi, hbytes (hheld hp hi)⟩

end

end Files

end OrangeFrp.Core
