import Mathlib.Data.Char
import Mathlib.Data.List.Nodup

/-!
# Escaped strings

A text is written with the characters that may stand as they are and with
escapes for the others; `Escaped mark plain escape` relates what is written to
the text. JSON strings (RFC 8259) and the basic strings of TOML 1.0 are two such
grammars over the same short escapes.

* `Escaped.unique`: what is written stands for at most one text.
* `Escaped.mono`: a text written in one grammar is written in a larger one.
* `Escaped.mem`: a character that has no escape stands in what is written.
* `jsonString_quoted`: an encoder of JSON strings, for every text.
* `JsonBody.toml_iff`: a JSON encoding reads in TOML, and as the same text, exactly when
  the text has no U+007F.
-/
namespace OrangeFrp.Core

/-! ## Written texts -/

section

variable {α : Type*}

/-- `Escaped mark plain escape written text` -/
inductive Escaped (mark : α) (plain : α → Prop) (escape : List α → α → Prop) : List α → List α → Prop
  | nil : Escaped mark plain escape [] []
  | plain {a written text} : plain a → Escaped mark plain escape written text →
    Escaped mark plain escape (a :: written) (a :: text)
  | escape {e a written text} : escape e a → Escaped mark plain escape written text →
    Escaped mark plain escape (mark :: (e ++ written)) (a :: text)

variable {mark : α} {plain plain' : α → Prop} {escape escape' : List α → α → Prop} {written text : List α}

/-- Every escape can be told from what follows it. -/
def UniqueEscapes (escape : List α → α → Prop) : Prop :=
  ∀ e a e' a' s s', escape e a → escape e' a' → e ++ s = e' ++ s' → a = a' ∧ s = s'

/-- **What is written stands for one text.** -/
theorem Escaped.unique (hmark : ¬ plain mark) (hescape : UniqueEscapes escape)
    (h : Escaped mark plain escape written text) {text' : List α}
    (h' : Escaped mark plain escape written text') : text = text' := by
  induction h generalizing text' with
  | nil => cases h'; rfl
  | plain ha _ ih =>
    cases h' with
    | plain _ h' => rw [ih h']
    | escape _ _ => exact absurd ha hmark
  | @escape e a s t ha _ ih =>
    generalize hw : mark :: (e ++ s) = w at h'
    cases h' with
    | nil => cases hw
    | plain hb _ =>
      obtain ⟨rfl, -⟩ := List.cons.inj hw
      exact absurd hb hmark
    | escape hb h' =>
      obtain ⟨rfl, rfl⟩ := hescape _ _ _ _ _ _ ha hb (List.cons.inj hw).2
      rw [ih h']

/-- The characters of the text decide whether a larger grammar reads it. -/
theorem Escaped.mono (h : Escaped mark plain escape written text)
    (hplain : ∀ a ∈ text, plain a → plain' a) (hescape : ∀ e a, escape e a → escape' e a) :
    Escaped mark plain' escape' written text := by
  induction h with
  | nil => exact .nil
  | plain ha _ ih =>
    refine .plain (hplain _ (by simp) ha) (ih fun b hb => hplain b (by simp [hb]))
  | escape ha _ ih => exact .escape (hescape _ _ ha) (ih fun b hb => hplain b (by simp [hb]))

/-- What holds of every way to write a character holds of what is written. -/
theorem Escaped.forall_written (h : Escaped mark plain escape written text) {Q : α → Prop} (hmark : Q mark)
    (hplain : ∀ a, plain a → Q a) (hescape : ∀ e a, escape e a → ∀ b ∈ e, Q b) : ∀ b ∈ written, Q b := by
  induction h with
  | nil => simp
  | plain ha _ ih =>
    intro b hb
    rcases List.mem_cons.1 hb with rfl | hb
    · exact hplain _ ha
    · exact ih b hb
  | escape ha _ ih =>
    intro b hb
    rcases List.mem_cons.1 hb with rfl | hb
    · exact hmark
    rcases List.mem_append.1 hb with hb | hb
    · exact hescape _ _ ha b hb
    · exact ih b hb

theorem Escaped.mem (h : Escaped mark plain escape written text) {a : α} (ha : a ∈ text)
    (hnone : ∀ e, ¬ escape e a) : a ∈ written := by
  induction h with
  | nil => cases ha
  | plain _ _ ih =>
    rcases List.mem_cons.1 ha with rfl | ha
    · simp
    · simp [ih ha]
  | escape hb _ ih =>
    rcases List.mem_cons.1 ha with rfl | ha
    · exact absurd hb (hnone _)
    · simp [ih ha]

end

/-- A body between quotation marks. -/
def Quoted (body : List Char → List Char → Prop) (written text : List Char) : Prop :=
  ∃ inner, written = '"' :: (inner ++ ['"']) ∧ body inner text

theorem quoted_iff {body : List Char → List Char → Prop} {inner text : List Char} :
    Quoted body ('"' :: (inner ++ ['"'])) text ↔ body inner text := by
  refine ⟨?_, ?_⟩
  · intro h
    obtain ⟨inner', heq, hbody⟩ := h
    obtain rfl := List.append_cancel_right (List.cons.inj heq).2
    exact hbody
  · intro h
    exact ⟨inner, rfl, h⟩

/-! ## Hexadecimal digits -/

def hexDigitValue (ch : Char) : Option Nat :=
  if '0' ≤ ch ∧ ch ≤ '9' then some (ch.toNat - 48)
  else if 'a' ≤ ch ∧ ch ≤ 'f' then some (ch.toNat - 87)
  else if 'A' ≤ ch ∧ ch ≤ 'F' then some (ch.toNat - 55)
  else none

/-- The digits after those of `n`. -/
def hexValueFrom (n : Nat) : List Char → Option Nat
  | [] => some n
  | ch :: digits => do
    let d ← hexDigitValue ch
    hexValueFrom (16 * n + d) digits

def hexValue (digits : List Char) : Option Nat := hexValueFrom 0 digits

theorem hexDigitValue_range {ch : Char} {d : Nat} (h : hexDigitValue ch = some d) :
    48 ≤ ch.toNat ∧ ch.toNat ≤ 102 := by
  unfold hexDigitValue at h
  simp only [Char.le_def, UInt32.le_iff_toNat_le] at h
  split at h
  · rename_i hr
    have hn : 48 ≤ ch.toNat ∧ ch.toNat ≤ 57 := hr
    omega
  split at h
  · rename_i hr
    have hn : 97 ≤ ch.toNat ∧ ch.toNat ≤ 102 := hr
    omega
  split at h
  · rename_i hr
    have hn : 65 ≤ ch.toNat ∧ ch.toNat ≤ 70 := hr
    omega
  · cases h

theorem hexValueFrom_range {digits : List Char} {n v : Nat} (h : hexValueFrom n digits = some v) :
    ∀ ch ∈ digits, 48 ≤ ch.toNat ∧ ch.toNat ≤ 102 := by
  induction digits generalizing n with
  | nil => simp
  | cons c digits ih =>
    obtain ⟨d, hd, hrest⟩ := Option.bind_eq_some_iff.1 h
    intro ch hch
    rcases List.mem_cons.1 hch with rfl | hch
    · exact hexDigitValue_range hd
    · exact ih hrest ch hch

/-! ## JSON and TOML -/

/-- The escapes of one character. -/
def shortEscapes : List (Char × Char) :=
  [('"', '"'), ('\\', '\\'), ('b', '\x08'), ('f', '\x0c'), ('n', '\n'), ('r', '\r'), ('t', '\t')]

/-- Those with a code point, and the number of its digits. -/
def longEscapes : List (Char × Nat) := [('u', 4), ('U', 8)]

/-- `"`, `\` and the control characters below U+0020. -/
def JsonSpecial (ch : Char) : Prop := ch = '"' ∨ ch = '\\' ∨ ch.toNat < 0x20

/-- How JSON escapes a character that it must escape. -/
inductive JsonEscape : List Char → Char → Prop
  | short {e ch} : JsonSpecial ch → (e, ch) ∈ shortEscapes → JsonEscape [e] ch
  | unicode {digits : List Char} {ch : Char} : JsonSpecial ch → digits.length = 4 →
    hexValue digits = some ch.toNat → JsonEscape ('u' :: digits) ch

/-- The body of a JSON string in which nothing is escaped that need not be. -/
def JsonBody : List Char → List Char → Prop := Escaped '\\' (fun ch => ¬ JsonSpecial ch) JsonEscape

/-- `basic-unescaped` -/
def TomlPlain (ch : Char) : Prop :=
  ch = '\t' ∨ (0x20 ≤ ch.toNat ∧ ch ≠ '"' ∧ ch ≠ '\\' ∧ ch.toNat ≠ 0x7F)

/-- `escape-seq-char` -/
inductive TomlEscape : List Char → Char → Prop
  | short {e ch} : (e, ch) ∈ shortEscapes → TomlEscape [e] ch
  | unicode {mark : Char} {digits : List Char} {ch : Char} : (mark, digits.length) ∈ longEscapes →
    hexValue digits = some ch.toNat → TomlEscape (mark :: digits) ch

def TomlBody : List Char → List Char → Prop := Escaped '\\' TomlPlain TomlEscape

/-- An encoder with the short escapes where there are any. -/
def jsonChar (ch : Char) : List Char :=
  match shortEscapes.find? fun p => p.2 == ch with
  | some p => ['\\', p.1]
  | none =>
    if ch.toNat < 0x20 then
      ['\\', 'u', '0', '0', Nat.digitChar (ch.toNat / 16), Nat.digitChar (ch.toNat % 16)]
    else [ch]

def jsonString (text : List Char) : List Char := '"' :: (text.flatMap jsonChar ++ ['"'])

/-! ### What is written -/

/-- The characters that may follow the backslash. -/
def escapeMarks : List Char := shortEscapes.map Prod.fst ++ longEscapes.map Prod.fst

theorem escapeMarks_nodup : escapeMarks.Nodup := by decide

theorem escapeMarks_range {e : Char} (h : e ∈ escapeMarks) : 0x20 ≤ e.toNat ∧ e.toNat ≠ 0x7F := by
  have hall : (escapeMarks.all fun e => 0x20 ≤ e.toNat && e.toNat != 0x7F) = true := by decide
  simpa using List.all_eq_true.1 hall e h

theorem mem_marks_of_short {e a : Char} (h : (e, a) ∈ shortEscapes) : e ∈ escapeMarks :=
  List.mem_append_left _ (List.mem_map_of_mem h)

theorem mem_marks_of_long {e : Char} {n : Nat} (h : (e, n) ∈ longEscapes) : e ∈ escapeMarks :=
  List.mem_append_right _ (List.mem_map_of_mem h)

theorem shortEscapes_special {p : Char × Char} (hp : p ∈ shortEscapes) : JsonSpecial p.2 := by
  have hall : (shortEscapes.all fun p => p.2 == '"' || p.2 == '\\' || p.2.toNat < 0x20) = true := by decide
  simpa [JsonSpecial, or_assoc] using List.all_eq_true.1 hall p hp

/-- A key stands for one value. -/
theorem value_unique {α β : Type*} {table : List (α × β)} (hkeys : (table.map Prod.fst).Nodup) {e : α} {b b' : β}
    (h : (e, b) ∈ table) (h' : (e, b') ∈ table) : b = b' :=
  congrArg Prod.snd (List.inj_on_of_nodup_map hkeys h h' rfl)

theorem not_short_of_long {e a : Char} {n : Nat} (h : (e, n) ∈ longEscapes) : (e, a) ∉ shortEscapes := by
  intro h'
  have hapart := (List.nodup_append.1 escapeMarks_nodup).2.2
  exact hapart e (List.mem_map_of_mem h') e (List.mem_map_of_mem h) rfl

theorem TomlEscape.range {e : List Char} {ch : Char} (h : TomlEscape e ch) :
    ∀ c ∈ e, 0x20 ≤ c.toNat ∧ c.toNat ≠ 0x7F := by
  cases h with
  | short hshort =>
    intro c hc
    rw [List.mem_singleton.1 hc]
    exact escapeMarks_range (mem_marks_of_short hshort)
  | @unicode mark digits ch hmark hvalue =>
    intro c hc
    rcases List.mem_cons.1 hc with rfl | hc
    · exact escapeMarks_range (mem_marks_of_long hmark)
    · have hrange := hexValueFrom_range hvalue c hc
      omega

theorem JsonEscape.toml {e : List Char} {ch : Char} (h : JsonEscape e ch) : TomlEscape e ch := by
  cases h with
  | short _ hshort => exact .short hshort
  | unicode _ hlen hvalue => exact .unicode (by rw [hlen]; decide) hvalue

theorem JsonEscape.special {e : List Char} {ch : Char} (h : JsonEscape e ch) : JsonSpecial ch := by
  cases h <;> assumption

/-- An escape ends where its first character says. -/
theorem tomlEscape_unique : UniqueEscapes TomlEscape := by
  intro e a e' a' s s' h h' heq
  cases h with
  | short hshort =>
    cases h' with
    | short hshort' =>
      obtain ⟨rfl, rfl⟩ := List.cons.inj heq
      exact ⟨value_unique (List.nodup_append.1 escapeMarks_nodup).1 hshort hshort', rfl⟩
    | unicode hlong' _ =>
      obtain ⟨rfl, -⟩ := List.cons.inj heq
      exact absurd hshort (not_short_of_long hlong')
  | unicode hlong hvalue =>
    cases h' with
    | short hshort' =>
      obtain ⟨rfl, -⟩ := List.cons.inj heq
      exact absurd hshort' (not_short_of_long hlong)
    | unicode hlong' hvalue' =>
      obtain ⟨rfl, hrest⟩ := List.cons.inj heq
      have hlen := value_unique (List.nodup_append.1 escapeMarks_nodup).2.1 hlong hlong'
      obtain ⟨rfl, rfl⟩ := List.append_inj hrest hlen
      rw [hvalue] at hvalue'
      exact ⟨Char.toNat_inj.1 (Option.some.inj hvalue'), rfl⟩

theorem TomlBody.unique {written text text' : List Char} (h : TomlBody written text) (h' : TomlBody written text') :
    text = text' :=
  Escaped.unique (by simp [TomlPlain]) tomlEscape_unique h h'

theorem hexValue_control : ∀ n < 32,
    hexValue ['0', '0', Nat.digitChar (n / 16), Nat.digitChar (n % 16)] = some n := by
  decide

theorem jsonChar_append {ch : Char} {written text : List Char} (h : JsonBody written text) :
    JsonBody (jsonChar ch ++ written) (ch :: text) := by
  unfold jsonChar
  split
  · rename_i p hfind
    have hmem := List.mem_of_find?_eq_some hfind
    have hfound := @List.find?_some _ (fun q : Char × Char => q.2 == ch) _ _ hfind
    obtain rfl := beq_iff_eq.1 hfound
    exact Escaped.escape (.short (shortEscapes_special hmem) hmem) h
  · rename_i hfind
    split
    · rename_i hlt
      exact Escaped.escape (.unicode (.inr (.inr hlt)) rfl (hexValue_control _ hlt)) h
    · rename_i hlt
      refine Escaped.plain (fun hspecial => ?_) h
      rcases hspecial with rfl | rfl | hlt'
      · exact absurd hfind (by decide)
      · exact absurd hfind (by decide)
      · exact hlt hlt'

theorem jsonString_quoted (text : List Char) : Quoted JsonBody (jsonString text) text := by
  refine quoted_iff.2 ?_
  induction text with
  | nil => exact .nil
  | cons ch text ih => exact jsonChar_append ih

/-- A JSON string is on one line. -/
theorem JsonBody.one_line {written text : List Char} (h : JsonBody written text) : '\n' ∉ written := by
  intro hmem
  have hrange := Escaped.forall_written (Q := fun ch => 0x20 ≤ ch.toNat) h (by decide) (fun ch hch => ?_)
    (fun e ch he c hc => (he.toml.range c hc).1) _ hmem
  · revert hrange
    decide
  · simp only [JsonSpecial, not_or] at hch
    omega

/-- No TOML string holds U+007F. -/
theorem TomlBody.no_delete {written text : List Char} (h : TomlBody written text) : '\x7f' ∉ written := by
  intro hmem
  have hrange := Escaped.forall_written (Q := fun ch => ch.toNat ≠ 0x7F) h (by decide) (fun ch hch => ?_)
    (fun e ch he c hc => (he.range c hc).2) _ hmem
  · exact hrange rfl
  · rcases hch with rfl | hch
    · decide
    · exact hch.2.2.2

/-- **Where the two grammars differ.** U+007F may stand in a JSON string, and in no TOML string. -/
theorem JsonBody.toml_iff {written text : List Char} (h : JsonBody written text) :
    TomlBody written text ↔ '\x7f' ∉ text := by
  refine ⟨?_, ?_⟩
  · intro htoml hdel
    have hnot : ∀ e, ¬ JsonEscape e '\x7f' := by
      intro e he
      have hspecial := he.special
      simp only [JsonSpecial] at hspecial
      revert hspecial
      decide
    exact htoml.no_delete (Escaped.mem h hdel hnot)
  · intro hdel
    refine Escaped.mono h (fun ch hmem hch => ?_) fun e ch he => he.toml
    simp only [JsonSpecial, not_or, Nat.not_lt] at hch
    have hne : ch.toNat ≠ 0x7F := by
      intro heq
      obtain rfl : ch = '\x7f' := Char.toNat_inj.1 heq
      exact hdel hmem
    exact .inr ⟨hch.2.2, hch.1, hch.2.1, hne⟩

end OrangeFrp.Core
