import OrangeFrp.Common.Text

/-!
# The version in a program's output (`frp-game-common/src/model.rs`)

`parse_frp_version_text` looks for a word of the form `major.minor.patch`. It
asks that the digits of the patch be there, but of the major and the minor only
that they consist of digits: `.52.0` is taken for a version as well.

* `versionOf_eq_some`: the words that are taken.
* `parse_iff_headlessAfter`: the function finds the first version of the text
  unless a word without its major or minor comes first.
-/
namespace OrangeFrp

/-! ## The parser -/

/-- mirrors crates/frp-game-common/src/model.rs:174-176 -/
def isTokenChar (ch : Char) : Bool := ch.isAlphanum || ch == '.' || ch == '-' || ch == '_'

/-- mirrors crates/frp-game-common/src/model.rs:173-177 -/
def versionToken (part : Str) : Str :=
  (trimBy (fun ch => !isTokenChar ch) part).dropWhile fun ch => ch == 'v' || ch == 'V'

/-- What the closure makes of a word; `?` leaves it with `None`.
mirrors crates/frp-game-common/src/model.rs:172-191 -/
def versionOf (part : Str) : Option Str := do
  let token := versionToken part
  let parts := token.splitOn '.'
  let major ← parts[0]?
  let minor ← parts[1]?
  let patch ← parts[2]?
  let patchCore := (patch.splitOnP fun ch => ch == '-' || ch == '_').headD []
  if major.all Char.isDigit && minor.all Char.isDigit && !patchCore.isEmpty && patchCore.all Char.isDigit then
    some token
  else none

/-- mirrors crates/frp-game-common/src/model.rs:171-193 -/
def parseFrpVersionText (text : Str) : Option Str := (splitWhitespace text).findSome? versionOf

/-! ## The grammar -/

def endsDigits (ch : Char) : Bool := ch == '.' || ch == '-' || ch == '_'

/-- What may follow the digits of the patch. -/
def Ends (tail : Str) : Prop := ∀ ch rest, tail = ch :: rest → endsDigits ch = true

/-- Digits, a dot, digits, a dot, and at least one digit. -/
structure Dotted (major minor token : Str) : Prop where
  majorDigits : ∀ ch ∈ major, ch.isDigit = true
  minorDigits : ∀ ch ∈ minor, ch.isDigit = true
  patch : ∃ patch tail, token = major ++ '.' :: (minor ++ '.' :: (patch ++ tail)) ∧ patch ≠ [] ∧
    (∀ ch ∈ patch, ch.isDigit = true) ∧ Ends tail

def IsVersion (token : Str) : Prop := ∃ major minor, major ≠ [] ∧ minor ≠ [] ∧ Dotted major minor token

/-- A version but for its major or its minor. -/
def Headless (token : Str) : Prop := ∃ major minor, (major = [] ∨ minor = []) ∧ Dotted major minor token

/-- `t` is the first version among the words of the text. -/
def FirstVersion (text t : Str) : Prop :=
  ∃ before part after, splitWhitespace text = before ++ part :: after ∧ t = versionToken part ∧ IsVersion t ∧
    ∀ other ∈ before, ¬ IsVersion (versionToken other)

/-! ## What is taken for a version -/

theorem endsDigits_of_digit {ch : Char} (h : ch.isDigit = true) : endsDigits ch = false := by
  refine Bool.eq_false_iff.2 fun hends => ?_
  simp only [endsDigits, Bool.or_eq_true, beq_iff_eq] at hends
  rcases hends with (rfl | rfl) | rfl <;> revert h <;> decide

theorem dot_not_mem {s : Str} (h : ∀ ch ∈ s, ch.isDigit = true) : '.' ∉ s := by
  intro hdot
  have := endsDigits_of_digit (h '.' hdot)
  cases this

theorem ends_dropWhile (s : Str) : Ends (s.dropWhile fun ch => !endsDigits ch) := by
  intro ch rest h
  have hne : s.dropWhile (fun ch => !endsDigits ch) ≠ [] := by rw [h]; simp
  have hhead := List.head_dropWhile_not (fun ch => !endsDigits ch) hne
  simpa only [h, List.head_cons, Bool.not_eq_false'] using hhead

theorem takeWhile_digits {patch tail : Str} (h : ∀ ch ∈ patch, ch.isDigit = true) (ht : Ends tail) :
    (patch ++ tail).takeWhile (fun ch => !endsDigits ch) = patch := by
  rw [List.takeWhile_append_of_pos fun ch hch => by simp [endsDigits_of_digit (h ch hch)]]
  cases tail with
  | nil => simp
  | cons ch rest => simp [ht ch rest rfl]

/-- The core of the third part are the characters before the first that ends digits. -/
theorem core_eq_takeWhile (s : Str) : ∃ more, s.splitOn '.' = s.takeWhile (fun ch => !(ch == '.')) :: more ∧
    ((s.takeWhile fun ch => !(ch == '.')).splitOnP fun ch => ch == '-' || ch == '_').headD [] =
      s.takeWhile fun ch => !endsDigits ch := by
  obtain ⟨more, hs⟩ := splitOnP_eq_takeWhile (· == '.') s
  obtain ⟨rest, hcore⟩ := splitOnP_eq_takeWhile (fun ch => ch == '-' || ch == '_')
    (s.takeWhile fun ch => !(ch == '.'))
  refine ⟨more, by rw [List.splitOn_eq_splitOnP, hs], ?_⟩
  rw [hcore, List.headD_cons, List.takeWhile_takeWhile]
  congr 1
  funext ch
  cases h₁ : ch == '.' <;> cases h₂ : ch == '-' <;> cases h₃ : ch == '_' <;> simp_all [endsDigits]

/-- **A word is taken** when digits, perhaps none, stand before the first two dots. -/
theorem versionOf_eq_some {part t : Str} :
    versionOf part = some t ↔ t = versionToken part ∧ ∃ major minor, Dotted major minor t := by
  refine ⟨?_, ?_⟩
  · intro h
    simp only [versionOf, bind, Option.bind_eq_some_iff] at h
    obtain ⟨major, h₀, minor, h₁, patch, h₂, h⟩ := h
    split at h
    · rename_i hdigits
      cases h
      refine ⟨rfl, major, minor, ?_⟩
      obtain ⟨more, hparts⟩ : ∃ more, (versionToken part).splitOn '.' = major :: minor :: patch :: more := by
        rcases hs : (versionToken part).splitOn '.' with _ | ⟨a, _ | ⟨b, _ | ⟨c, more⟩⟩⟩ <;>
          simp_all
      obtain ⟨s, hs, -, hs'⟩ := splitOn_eq_cons_cons.1 hparts
      obtain ⟨rest, hrest, -, hrest'⟩ := splitOn_eq_cons_cons.1 hs'
      obtain ⟨more', htake, hcore⟩ := core_eq_takeWhile rest
      rw [hrest', List.cons.injEq] at htake
      rw [← htake.1] at hcore
      rw [hcore] at hdigits
      simp only [Bool.and_eq_true, List.all_eq_true, Bool.not_eq_true', List.isEmpty_eq_false_iff] at hdigits
      refine ⟨hdigits.1.1.1, hdigits.1.1.2, _, rest.dropWhile fun ch => !endsDigits ch,
        ?_, hdigits.1.2, hdigits.2, ends_dropWhile rest⟩
      rw [List.takeWhile_append_dropWhile, ← hrest]
      exact hs
    · cases h
  · intro h
    obtain ⟨rfl, major, minor, hmajor, hminor, patch, tail, ht, hne, hpatch, hends⟩ := h
    obtain ⟨more, htake, hcore⟩ := core_eq_takeWhile (patch ++ tail)
    rw [takeWhile_digits hpatch hends] at hcore
    have hparts : (versionToken part).splitOn '.' =
        major :: minor :: (patch ++ tail).takeWhile (fun ch => !(ch == '.')) :: more := by
      rw [ht, List.splitOn_append_cons_self_of_not_mem (dot_not_mem hmajor),
        List.splitOn_append_cons_self_of_not_mem (dot_not_mem hminor), htake]
    simp only [versionOf, bind, hparts, List.getElem?_cons_zero, List.getElem?_cons_succ, Option.bind_some, hcore]
    rw [if_pos]
    simpa [hne] using ⟨⟨hmajor, hminor⟩, hpatch⟩

/-- The major and the minor are the text before the first dot and between the first two. -/
theorem Dotted.unique {major minor major' minor' token : Str} (h : Dotted major minor token)
    (h' : Dotted major' minor' token) : major = major' ∧ minor = minor' := by
  obtain ⟨patch, tail, ht, -⟩ := h.patch
  obtain ⟨patch', tail', ht', -⟩ := h'.patch
  have hparts {major minor rest : Str} (hm : ∀ ch ∈ major, ch.isDigit = true)
      (hn : ∀ ch ∈ minor, ch.isDigit = true) : (major ++ '.' :: (minor ++ '.' :: rest)).splitOn '.' =
        major :: minor :: rest.splitOn '.' := by
    rw [List.splitOn_append_cons_self_of_not_mem (dot_not_mem hm),
      List.splitOn_append_cons_self_of_not_mem (dot_not_mem hn)]
  have heq := congrArg (List.splitOn '.') (ht.symm.trans ht')
  rw [hparts h.majorDigits h.minorDigits, hparts h'.majorDigits h'.minorDigits] at heq
  simp only [List.cons.injEq] at heq
  exact ⟨heq.1, heq.2.1⟩

theorem IsVersion.not_headless {token : Str} (h : IsVersion token) : ¬ Headless token := by
  intro hless
  obtain ⟨major, minor, hmajor, hminor, hd⟩ := h
  obtain ⟨major', minor', hnil, hd'⟩ := hless
  obtain ⟨rfl, rfl⟩ := hd.unique hd'
  rcases hnil with hnil | hnil
  · exact hmajor hnil
  · exact hminor hnil

theorem versionOf_isSome_iff {part : Str} :
    versionOf part = some (versionToken part) ↔ IsVersion (versionToken part) ∨ Headless (versionToken part) := by
  rw [versionOf_eq_some, and_iff_right rfl]
  refine ⟨?_, ?_⟩
  · intro h
    obtain ⟨major, minor, hd⟩ := h
    by_cases hnil : major = [] ∨ minor = []
    · exact .inr ⟨major, minor, hnil, hd⟩
    · push Not at hnil
      exact .inl ⟨major, minor, hnil.1, hnil.2, hd⟩
  · intro h
    rcases h with ⟨major, minor, -, -, hd⟩ | ⟨major, minor, -, hd⟩
    · exact ⟨major, minor, hd⟩
    · exact ⟨major, minor, hd⟩

/-! ## The first version of a text -/

/-- Before a word without its major or minor there is a version. -/
def HeadlessAfter (text : Str) : Prop :=
  ∀ before part after, splitWhitespace text = before ++ part :: after → Headless (versionToken part) →
    ∃ other ∈ before, IsVersion (versionToken other)

theorem versionOf_eq_none {part : Str} (h : versionOf part = none) :
    ¬ IsVersion (versionToken part) ∧ ¬ Headless (versionToken part) := by
  rw [← not_or, ← versionOf_isSome_iff, h]
  nofun

theorem versionOf_some_token {part t : Str} (h : versionOf part = some t) : t = versionToken part :=
  (versionOf_eq_some.1 h).1

/-- **What is found** is the first version, for every word before it is refused. -/
theorem parse_of_headlessAfter {text : Str} (h : HeadlessAfter text) (t : Str) :
    parseFrpVersionText text = some t ↔ FirstVersion text t := by
  rw [parseFrpVersionText, List.findSome?_eq_some_iff]
  refine ⟨?_, ?_⟩
  · intro hfound
    obtain ⟨before, part, after, hwords, hpart, hbefore⟩ := hfound
    obtain rfl := versionOf_some_token hpart
    refine ⟨before, part, after, hwords, rfl, ?_, fun other hother => (versionOf_eq_none (hbefore other hother)).1⟩
    refine (versionOf_isSome_iff.1 hpart).resolve_right fun hless => ?_
    obtain ⟨other, hother, hversion⟩ := h before part after hwords hless
    exact (versionOf_eq_none (hbefore other hother)).1 hversion
  · intro hfirst
    obtain ⟨before, part, after, hwords, rfl, hversion, hbefore⟩ := hfirst
    refine ⟨before, part, after, hwords, versionOf_isSome_iff.2 (.inl hversion), fun other hother => ?_⟩
    cases hother' : versionOf other with
    | none => rfl
    | some t =>
      obtain rfl := versionOf_some_token hother'
      obtain ⟨first, last, rfl⟩ := List.append_of_mem hother
      have hless := (versionOf_isSome_iff.1 hother').resolve_left (hbefore other hother)
      obtain ⟨earlier, hearlier, hversion'⟩ := h first other (last ++ part :: after) (by simp [hwords]) hless
      exact (hbefore earlier (by simp [hearlier]) hversion').elim

/-- **`parse_frp_version_text` finds the first version of a text** if and only if no word that
lacks its major or its minor comes before it. -/
theorem parse_iff_headlessAfter (text : Str) :
    (∀ t, parseFrpVersionText text = some t ↔ FirstVersion text t) ↔ HeadlessAfter text := by
  refine ⟨fun h before part after hwords hless => ?_, parse_of_headlessAfter⟩
  by_contra hno
  push Not at hno
  -- the first word that is taken stands at or before this one
  obtain ⟨t, ht⟩ : ∃ t, (before ++ [part]).findSome? versionOf = some t := by
    rw [← Option.isSome_iff_exists, List.findSome?_isSome_iff]
    exact ⟨part, by simp, by rw [versionOf_isSome_iff.2 (.inr hless)]; rfl⟩
  have hparse : parseFrpVersionText text = some t := by
    rw [parseFrpVersionText, hwords, List.append_cons, List.findSome?_append, ht, Option.some_or]
  obtain ⟨-, -, -, -, -, hversion, -⟩ := (h t).1 hparse
  obtain ⟨other, hother, hfound⟩ := List.exists_of_findSome?_eq_some ht
  obtain rfl := versionOf_some_token hfound
  rcases List.mem_append.1 hother with hother | hother
  · exact hno other hother hversion
  · obtain rfl := List.mem_singleton.1 hother
    exact hversion.not_headless hless

/-- The output `frps .52.0`. -/
def headlessOutput : Str := ['f', 'r', 'p', 's', ' ', '.', '5', '2', '.', '0']

/-- The word without a major is found, and the text has no version. -/
theorem headless_accepted : ¬ ∀ text t, parseFrpVersionText text = some t ↔ FirstVersion text t := by
  intro h
  have hparse : parseFrpVersionText headlessOutput = some ['.', '5', '2', '.', '0'] := by decide +kernel
  obtain ⟨-, -, -, -, -, hversion, -⟩ := (h headlessOutput ['.', '5', '2', '.', '0']).1 hparse
  have hdigits (s : Str) (hs : s.all Char.isDigit = true) : ∀ ch ∈ s, ch.isDigit = true := List.all_eq_true.1 hs
  exact hversion.not_headless ⟨[], ['5', '2'], .inl rfl, hdigits _ (by decide), hdigits _ (by decide), ['0'], [],
    by decide, by decide, hdigits _ (by decide), nofun⟩

end OrangeFrp
