import Mathlib.Algebra.Group.Int.Defs
import Mathlib.Algebra.GroupWithZero.Nat
import Mathlib.Data.List.DropRight

/-!
# Rust strings

A Rust `String` is kept as its list of Unicode scalar values. Equality and
ordering are the same on both sides (UTF-8 preserves the order of code
points); `str::len` counts bytes and is `utf8Len` here.

`trim` drops `White_Space` characters on both ends (`str::trim`), `trimBy`
drops any class of characters (`str::trim_matches`). `str::split` is
`List.splitOn`, or `List.splitOnP` for a class of characters.
-/
namespace OrangeFrp

abbrev Str := List Char

instance : LawfulBEq Str := inferInstance

/-- `char::is_whitespace`: the Unicode `White_Space` property. -/
def isWhitespace (c : Char) : Bool :=
  let n := c.toNat
  (0x09 ≤ n && n ≤ 0x0D) || n == 0x20 || n == 0x85 || n == 0xA0 || n == 0x1680 ||
    (0x2000 ≤ n && n ≤ 0x200A) || n == 0x2028 || n == 0x2029 || n == 0x202F || n == 0x205F ||
    n == 0x3000

/-- `str::trim_matches`. -/
def trimBy (p : Char → Bool) (s : Str) : Str := (s.dropWhile p).rdropWhile p

/-- `str::trim`. -/
def trim (s : Str) : Str := trimBy isWhitespace s

/-- `s.trim().is_empty()`. -/
def isBlank (s : Str) : Bool := (trim s).isEmpty

/-- `str::len`. -/
def utf8Len (s : Str) : Nat := (s.map fun c => c.utf8Size).sum

/-- `str::split_whitespace`. -/
def splitWhitespace (s : Str) : List Str := (s.splitOnP isWhitespace).filter (· ≠ [])

/-- `str::to_ascii_uppercase`. -/
def toAsciiUppercase (s : Str) : Str := s.map Char.toUpper

/-! ## Characters -/

theorem isAlphanum_iff (c : Char) : c.isAlphanum = true ↔ 65 ≤ c.toNat ∧ c.toNat ≤ 90 ∨
    97 ≤ c.toNat ∧ c.toNat ≤ 122 ∨ 48 ≤ c.toNat ∧ c.toNat ≤ 57 := by
  have h : c.isAlphanum = ((decide (c.val ≥ 'A'.val ∧ c.val ≤ 'Z'.val) ||
      (decide (c.val ≥ 'a'.val) && decide (c.val ≤ 'z'.val))) ||
      (decide (c.val ≥ '0'.val) && decide (c.val ≤ '9'.val))) := rfl
  simp only [h, Bool.or_eq_true, Bool.and_eq_true, decide_eq_true_eq, ge_iff_le,
    UInt32.le_iff_toNat_le, or_assoc]
  rfl

/-! ## Trimming -/

theorem trimBy_eq_nil_iff (p : Char → Bool) (s : Str) : trimBy p s = [] ↔ ∀ c ∈ s, p c = true := by
  unfold trimBy
  rw [List.rdropWhile_eq_nil_iff]
  refine ⟨?_, ?_⟩
  · intro h
    by_contra hne
    push Not at hne
    obtain ⟨c, hc, hpc⟩ := hne
    have hnil : s.dropWhile p ≠ [] := fun e => hpc (List.dropWhile_eq_nil_iff.1 e c hc)
    have hhead := List.head_dropWhile_not p hnil
    rw [h _ (List.head_mem hnil)] at hhead
    cases hhead
  · exact fun h c hc => h c ((List.dropWhile_sublist p).mem hc)

theorem isBlank_iff (s : Str) : isBlank s = true ↔ ∀ c ∈ s, isWhitespace c = true := by
  rw [isBlank, List.isEmpty_iff, trim, trimBy_eq_nil_iff]

/-- Trimming what was trimmed changes nothing. -/
theorem trimBy_trimBy (p : Char → Bool) (s : Str) : trimBy p (trimBy p s) = trimBy p s := by
  unfold trimBy
  have hd : (List.rdropWhile p (s.dropWhile p)).dropWhile p = List.rdropWhile p (s.dropWhile p) := by
    by_cases hnil : List.rdropWhile p (s.dropWhile p) = []
    · rw [hnil]; rfl
    -- the head survives the right trim, and it is the head `dropWhile` stopped at
    · rw [List.dropWhile_eq_self_iff]
      intro hl
      have hpre := List.rdropWhile_prefix p (l := s.dropWhile p)
      have hs : s.dropWhile p ≠ [] := fun e => by rw [e] at hnil; simp at hnil
      have h0 := List.head_dropWhile_not p hs
      have he := hpre.head hnil
      rw [List.getElem_zero, he]
      simpa using h0
  rw [hd, List.rdropWhile_idempotent]

/-- What has none of the characters stays as it is. -/
theorem trimBy_self {p : Char → Bool} {s : Str} (h : ∀ c ∈ s, p c = false) : trimBy p s = s := by
  have hd : s.dropWhile p = s := List.dropWhile_eq_self_iff.2 fun hl => by simp [h]
  rw [trimBy, hd]
  exact List.rdropWhile_eq_self_iff.2 fun hl => by simp [h]

theorem trim_trim (s : Str) : trim (trim s) = trim s := trimBy_trimBy _ s

/-! ## Splitting -/

/-- The first piece reaches to the first separator. -/
theorem splitOnP_eq_takeWhile (p : Char → Bool) (s : Str) :
    ∃ more, s.splitOnP p = s.takeWhile (fun c => !p c) :: more := by
  induction s with
  | nil => exact ⟨[], by simp⟩
  | cons c s ih =>
    obtain ⟨more, ih⟩ := ih
    rw [List.splitOnP_cons_eq_if_modifyHead, ih]
    cases hc : p c <;> simp [hc]

/-- There is a second piece when there is a separator. -/
theorem splitOn_eq_cons_cons {a : Char} {s x y : Str} {more : List Str} :
    s.splitOn a = x :: y :: more ↔ ∃ rest, s = x ++ a :: rest ∧ a ∉ x ∧ rest.splitOn a = y :: more := by
  refine ⟨?_, ?_⟩
  · intro h
    induction s generalizing x with
    | nil => simp [List.splitOn_eq_splitOnP] at h
    | cons c s ih =>
      rw [List.splitOn_cons_eq_if_modifyHead] at h
      split at h
      · rename_i hc
        simp only [List.cons.injEq] at h
        obtain ⟨rfl, h⟩ := h
        exact ⟨s, by simpa using hc, by simp, h⟩
      · rename_i hc
        obtain ⟨z, zs, hs⟩ := List.exists_cons_of_ne_nil (List.splitOn_ne_nil a s)
        rw [hs, List.modifyHead_cons, List.cons.injEq] at h
        obtain ⟨rfl, rfl⟩ := h
        obtain ⟨rest, rfl, hz, hrest⟩ := ih hs
        have hne : a ≠ c := fun heq => hc (by simp [heq])
        exact ⟨rest, rfl, by simp [hne, hz], hrest⟩
  · intro h
    obtain ⟨rest, rfl, hx, hrest⟩ := h
    rw [List.splitOn_append_cons_self_of_not_mem hx, hrest]

end OrangeFrp
