import Mathlib.Data.Set.Finite.Range
import OrangeFrp.Common.Server
import OrangeFrp.Core.Dialog
import OrangeFrp.App.Counters

/-!
# The administrator's terminal (`frp-game-server/src/app.rs`)

A command asks for what its options leave open: a user by account or by number, an account that is
free, a password twice, numbers, and YES before what cannot be undone. `Commands.dialog` is what
comes after the configuration has been read and before it is saved; what is printed is left out.
`parseF64` stands for `str::parse::<f64>`.

* `select_types`: every user can be selected, also one whose account is the number of another.
* `dialog_sound`, `dialog_complete`: the commands that come out of a dialogue.
* `typed_commands`: both, with what has to be confirmed.
-/
namespace OrangeFrp.App

open OrangeFrp.Core OrangeFrp.Storage

/-! ## What is typed -/

/-- A line without its end. -/
structure Line where
  text : Str
  single : '\n' ∉ text

/-- What is typed at the standard input and what `rpassword` reads; a read can fail. -/
structure Typed where
  lines : List (Option Line)
  passwords : List (Option Line)

instance : Append Typed := ⟨fun s t => ⟨s.lines ++ t.lines, s.passwords ++ t.passwords⟩⟩

@[simp] theorem Typed.append_lines (s t : Typed) : (s ++ t).lines = s.lines ++ t.lines := rfl

@[simp] theorem Typed.append_passwords (s t : Typed) : (s ++ t).passwords = s.passwords ++ t.passwords := rfl

instance : Std.Associative (α := Typed) (· ++ ·) :=
  ⟨fun _ _ _ => congrArg₂ Typed.mk (List.append_assoc ..) (List.append_assoc ..)⟩

/-- `from_str_radix` of an unsigned integer. -/
def parseUnsigned (bound : Nat) (s : Str) : Option (Fin bound) :=
  let digits := if s.head? = some '+' then s.tail else s
  if digits ≠ [] ∧ digits.all Char.isDigit = true then
    let n := Nat.ofDigitChars 10 digits 0
    if h : n < bound then some ⟨n, h⟩ else none
  else none

abbrev U32 := Fin (2 ^ 32)

/-! ## Prompts -/

def lineAnswer {α : Type} (accept : Str → Option α) : Option Line → Except String (Option α)
  | none => .error "stream did not contain valid UTF-8"
  | some line => .ok (accept (trim line.text))

/-- A prompt for a line, until an answer is accepted. -/
def askLine {α : Type} (accept : Str → Option α) : Dialog Typed String α :=
  .of fun typed =>
    let (result, lines) := Dialog.ask "输入已结束。" (lineAnswer accept) typed.lines
    (result, { typed with lines := lines })

/-- mirrors crates/frp-game-server/src/app.rs:428-442 -/
def promptNonEmpty : Dialog Typed String Str := askLine fun value => if value = [] then none else some value

/-- mirrors crates/frp-game-server/src/app.rs:481-498 -/
def u32Answer (default : U32) (value : Str) : Option U32 :=
  if value = [] then some default else parseUnsigned (2 ^ 32) value

def promptU32 (default : U32) : Dialog Typed String U32 := askLine (u32Answer default)

/-- mirrors crates/frp-game-server/src/app.rs:462-479 -/
def f64Answer (parseF64 : Str → Option Float) (default : Float) (value : Str) : Option Float :=
  if value = [] then some default else (parseF64 value).filter fun number => number.isFinite && number ≥ 0.0

def promptF64 (parseF64 : Str → Option Float) (default : Float) : Dialog Typed String Float :=
  askLine (f64Answer parseF64 default)

/-- The loop of `prompt_u32` and the one around it are one.
mirrors crates/frp-game-server/src/app.rs:855-864 -/
def promptTunnelLimit (default : U32) : Dialog Typed String U32 :=
  askLine fun value => (u32Answer default value).filter fun limit => (validateTunnelLimit limit).isOk

/-- mirrors crates/frp-game-server/src/app.rs:444-460 -/
def passwordFrom (confirm : Bool) : List (Option Line) → Except String Str × List (Option Line)
  | [] => (.error "unexpected end of file", [])
  | none :: rest => (.error "stream did not contain valid UTF-8", rest)
  | some line :: rest =>
    if line.text = [] then passwordFrom confirm rest
    else if confirm = false then (.ok line.text, rest)
    else
      match rest with
      | [] => (.error "unexpected end of file", [])
      | none :: rest => (.error "stream did not contain valid UTF-8", rest)
      | some repeated :: rest => if line.text = repeated.text then (.ok line.text, rest) else passwordFrom confirm rest

def promptPassword (confirm : Bool) : Dialog Typed String Str :=
  .of fun typed =>
    let (result, passwords) := passwordFrom confirm typed.passwords
    (result, { typed with passwords := passwords })

/-- An account that `validate_account` accepts and nobody has.
mirrors crates/frp-game-server/src/app.rs:957-966,1267-1281 -/
def promptAccount (taken : Str → Bool) : Dialog Typed String Str :=
  askLine fun value =>
    if value = [] ∨ (validateAccount value).isOk = false ∨ taken value = true then none else some value

def YES : Str := ['Y', 'E', 'S']

/-- `prompt_non_empty(..)? == "YES"`. -/
def confirmed : Dialog Typed String Bool := do
  let answer ← promptNonEmpty
  return answer = YES

/-- What an option gives, or the answer of its prompt. -/
def orAsk {α : Type} (given : Option α) (prompt : Dialog Typed String α) : Dialog Typed String α :=
  match given with
  | some value => pure value
  | none => prompt

section
variable (c : ServerConfig)

/-- mirrors crates/frp-game-server/src/app.rs:901-921 -/
def selectUserIndex : Dialog Typed String (Option Nat) :=
  if c.users.isEmpty then pure none
  else do
    let choice ← promptNonEmpty
    match c.users.findIdx? fun u => u.account = choice with
    | some index => return some index
    | none =>
      match parseUnsigned (2 ^ 64) choice with
      | some index => return if 1 ≤ index.1 ∧ index.1 ≤ c.users.length then some (index.1 - 1) else none
      | none => return none

/-- mirrors crates/frp-game-server/src/app.rs:923-937 -/
def resolveUserIndex (account : Option Str) : Dialog Typed String (Option Nat) :=
  match account with
  | some account => pure (c.users.findIdx? fun u => u.account = account)
  | none => selectUserIndex c

end

/-! ## The commands -/

/-- The commands that read the configuration and may save it, with their options.
mirrors crates/frp-game-server/src/app.rs:79-171 -/
inductive Commands where
  | setup (apiBind : Str) (apiPort frpsPort : Port) (frpsBinary : Str)
  | addUser (account password : Option Str) (trafficLimitGb : Option Float) (speedLimitMbps tunnelLimit : Option U32)
  | viewUsers
  | deleteUser
  | viewTraffic (account : Option Str)
  | setTrafficLimit (account : Option Str) (gb : Option Float)
  | setTrafficUsed (account : Option Str) (gb : Option Float)
  | setSpeedLimit (account : Option Str) (mbps : Option U32)
  | setTunnelLimit (account : Option Str) (limit : Option U32)
  | changeAccount
  | changePassword
  | rotateKey (yes : Bool)

/-- What is asked before the configuration is read.
mirrors crates/frp-game-server/src/app.rs:1314-1318 -/
def Commands.before : Commands → Dialog Typed String Bool
  | .rotateKey yes => if yes then pure true else confirmed
  | _ => pure true

/-- Goes on for the user that has been selected. -/
def forUser (select : Dialog Typed String (Option Nat)) (f : Nat → Dialog Typed String (Option Command)) :
    Dialog Typed String (Option Command) := do
  match ← select with
  | none => return none
  | some index => f index

section
variable (parseF64 : Str → Option Float) (c : ServerConfig) (secret : Str)

/-- mirrors crates/frp-game-server/src/app.rs:949-967 -/
def newAccount : Option Str → Dialog Typed String Str
  | some account => do
    let account := trim account
    validateAccount account
    bailIf (accountExists c account = true) ("账号已存在：" ++ String.ofList account)
    return account
  | none => promptAccount (accountExists c)

/-- mirrors crates/frp-game-server/src/app.rs:968-972 -/
def givenPassword : Option Str → Dialog Typed String Str
  | some password => do
    bailIf (password = []) "密码不能为空。"
    return password
  | none => promptPassword true

/-- mirrors crates/frp-game-server/src/app.rs:968-973,1299-1300 -/
def newPassword (password : Option Str) : Dialog Typed String Str := do
  let password ← givenPassword password
  validatePassword password
  return password

/-- mirrors crates/frp-game-server/src/app.rs:982-991,1220-1229 -/
def newTunnelLimit (default : U32) : Option U32 → Dialog Typed String U32
  | some limit => do
    validateTunnelLimit limit
    return limit
  | none => promptTunnelLimit default

/-- mirrors crates/frp-game-server/src/app.rs:974-977,1002,1142-1146 -/
def newAmount (gb : Option Float) : Dialog Typed String Nat := do
  let gb ← orAsk gb (promptF64 parseF64 0.0)
  gbToBytes gb

/-- mirrors crates/frp-game-server/src/app.rs:939-1010 -/
def addUserDialog (account password : Option Str) (trafficLimitGb : Option Float)
    (speedLimitMbps tunnelLimit : Option U32) : Dialog Typed String (Option Command) := do
  let account ← newAccount c account
  let password ← newPassword password
  let gb ← orAsk trafficLimitGb (promptF64 parseF64 0.0)
  let mbps ← orAsk speedLimitMbps (promptU32 0)
  let limit ← newTunnelLimit 5 tunnelLimit
  let bytes ← gbToBytes gb
  return some (.addUser ⟨account, password, bytes, mbps, limit, secret⟩)

/-- From the configuration that has been read to the change of it that is saved, if any.
mirrors crates/frp-game-server/src/app.rs:1026-1034,1116-1343 -/
def Commands.dialog : Commands → Dialog Typed String (Option Command)
  | .setup apiBind apiPort frpsPort frpsBinary => return some (.setup apiBind apiPort frpsPort frpsBinary)
  | .addUser account password gb mbps limit => addUserDialog parseF64 c secret account password gb mbps limit
  | .viewUsers => forUser (selectUserIndex c) fun _ => pure none
  | .deleteUser => forUser (selectUserIndex c) fun index => do
    let yes ← confirmed
    return if yes then some (.deleteUser index) else none
  | .viewTraffic account => forUser (resolveUserIndex c account) fun _ => pure none
  | .setTrafficLimit account gb => forUser (resolveUserIndex c account) fun index => do
    let bytes ← newAmount parseF64 gb
    return some (.setTrafficLimit index bytes)
  | .setTrafficUsed account gb => forUser (resolveUserIndex c account) fun index => do
    let bytes ← newAmount parseF64 gb
    return some (.setTrafficUsed index bytes)
  | .setSpeedLimit account mbps => forUser (resolveUserIndex c account) fun index => do
    let mbps ← orAsk mbps (promptU32 0)
    return some (.setSpeedLimit index mbps)
  | .setTunnelLimit account limit => forUser (resolveUserIndex c account) fun index => do
    let current := ((c.users[index]?.map (·.tunnelLimit)).getD 0)
    let limit ← newTunnelLimit (Fin.ofNat (2 ^ 32) current) limit
    return some (.setTunnelLimit index limit)
  | .changeAccount => forUser (selectUserIndex c) fun index => do
    let account ← promptAccount fun value => (c.users.eraseIdx index).any fun u => u.account = value
    return some (.changeAccount index account)
  | .changePassword => forUser (selectUserIndex c) fun index => do
    let password ← newPassword none
    return some (.changePassword index password)
  | .rotateKey _ => forUser (selectUserIndex c) fun index => return some (.rotateKey index secret)

end

/-! ## What the prompts take -/

section
variable {α : Type} {accept : Str → Option α} {typed rest : Typed} {a : α}

/-- One line. -/
def Line.once (line : Line) : Typed := ⟨[some line], []⟩

/-- A password, and again. -/
def Line.twice (line : Line) : Typed := ⟨[], [some line, some line]⟩

def nothing : Typed := ⟨[], []⟩

theorem nothing_append (r : Typed) : nothing ++ r = r := rfl

theorem types_pure (a : α) : Dialog.Types (pure a : Dialog Typed String α) nothing a := Dialog.Types.pure nothing_append

/-- A check that is passed. -/
theorem types_lift {x : Except String α} (h : x = .ok a) :
    Dialog.Types (liftM x : Dialog Typed String α) nothing a := by
  intro r
  rw [h]
  rfl

theorem lift_ok {x : Except String α} (h : (liftM x : Dialog Typed String α).on typed = (.ok a, rest)) :
    x = .ok a ∧ rest = typed := by
  have heq : (x, typed) = (.ok a, rest) := h
  cases heq
  exact ⟨rfl, rfl⟩

theorem pure_ok {b : α} (h : (pure b : Dialog Typed String α).on typed = (.ok a, rest)) : b = a ∧ rest = typed := by
  cases h
  exact ⟨rfl, rfl⟩

theorem askLine_types {line : Line} (h : accept (trim line.text) = some a) :
    Dialog.Types (askLine accept) line.once a := by
  intro r
  have hask : Dialog.ask "输入已结束。" (lineAnswer accept) (some line :: r.lines) = (.ok a, r.lines) :=
    Dialog.ask_reads (congrArg Except.ok h)
  simp only [askLine, Dialog.on_of, Line.once, Typed.append_lines, Typed.append_passwords, List.cons_append,
    List.nil_append, hask]

/-- The answer is a line that was typed, and so is every line that is left. -/
theorem askLine_ok (h : (askLine accept).on typed = (.ok a, rest)) :
    ∃ line : Line, accept (trim line.text) = some a ∧ some line ∈ typed.lines ∧ rest.lines ⊆ typed.lines := by
  simp only [askLine, Dialog.on_of, Prod.mk.injEq] at h
  obtain ⟨hresult, rfl⟩ := h
  obtain ⟨refused, line, hlines, hline, -⟩ := Dialog.ask_ok (Prod.ext hresult rfl)
  cases line with
  | none => cases hline
  | some line =>
    refine ⟨line, by simpa [lineAnswer] using hline, ?_, ?_⟩
    · rw [hlines]
      simp
    · intro l hl
      rw [hlines]
      exact List.mem_append_right _ (List.mem_cons_of_mem _ hl)

theorem promptPassword_types {line : Line} (h : line.text ≠ []) :
    Dialog.Types (promptPassword true) line.twice line.text := by
  intro r
  simp [promptPassword, Line.twice, passwordFrom, h]

theorem orAsk_types {given : Option α} {prompt : Dialog Typed String α}
    (hprompt : given = none → ∃ s, Dialog.Types prompt s a) (hgiven : ∀ value ∈ given, value = a) :
    ∃ s, Dialog.Types (orAsk given prompt) s a := by
  cases given with
  | none => exact hprompt rfl
  | some value =>
    obtain rfl := hgiven value rfl
    exact ⟨nothing, types_pure value⟩

theorem orAsk_ok {given : Option α} {prompt : Dialog Typed String α}
    (h : (orAsk given prompt).on typed = (.ok a, rest)) :
    (∀ value ∈ given, value = a) ∧ (given = none → prompt.on typed = (.ok a, rest)) := by
  cases given with
  | none => exact ⟨by simp, fun _ => h⟩
  | some value =>
    refine ⟨fun v hv => ?_, by simp⟩
    cases hv
    exact (pure_ok h).1

end

/-! ## Numbers -/

section
variable {bound n : Nat} {s : Str}

/-- A number in decimal, with zeros before it. -/
def zeroPadded (k n : Nat) : Str := List.replicate k '0' ++ Nat.toDigits 10 n

theorem zeroPadded_digits (k n : Nat) : ∀ ch ∈ zeroPadded k n, ch.isDigit = true := by
  intro ch hch
  rcases List.mem_append.1 hch with hzero | hdigit
  · rw [List.eq_of_mem_replicate hzero]
    rfl
  · exact Nat.isDigit_of_mem_toDigits (by decide) (by decide) hdigit

theorem zeroPadded_ne (k n : Nat) : zeroPadded k n ≠ [] := by
  simp [zeroPadded, Nat.toDigits_ne_nil]

theorem parseUnsigned_zeroPadded (k : Nat) (h : n < bound) : parseUnsigned bound (zeroPadded k n) = some ⟨n, h⟩ := by
  have hall := zeroPadded_digits k n
  have hplus : (zeroPadded k n).head? ≠ some '+' := by
    intro hhead
    have := hall '+' (List.mem_of_mem_head? hhead)
    exact absurd this (by decide)
  have hvalue : Nat.ofDigitChars 10 (zeroPadded k n) 0 = n := by
    rw [zeroPadded, Nat.ofDigitChars_append, Nat.ofDigitChars_replicate_zero, Nat.mul_zero,
      Nat.ofDigitChars_ten_toDigits]
  simp only [parseUnsigned, hplus, if_false, hvalue, h, dif_pos]
  rw [if_pos ⟨zeroPadded_ne k n, List.all_eq_true.2 hall⟩]

theorem digit_visible {ch : Char} (h : ch.isDigit = true) : isWhitespace ch = false ∧ ch ≠ '\n' :=
  ⟨(plain_of_alphanum (by simp [Char.isAlphanum, h])).1, by rintro rfl; exact absurd h (by decide)⟩

/-- The number as a line. -/
def Line.number (k n : Nat) : Line :=
  ⟨zeroPadded k n, fun h => (digit_visible (zeroPadded_digits k n _ h)).2 rfl⟩

theorem Line.number_trim (k n : Nat) : trim (Line.number k n).text = zeroPadded k n :=
  trimBy_self fun ch hch => (digit_visible (zeroPadded_digits k n ch hch)).1

theorem zeroPadded_injective (n : Nat) : Function.Injective fun k => zeroPadded k n := by
  intro j k h
  have hlen := congrArg List.length h
  simpa [zeroPadded] using hlen

end

/-! ## Selecting a user -/

section
variable {c : ServerConfig} {typed rest : Typed} {index : Nat}

theorem findIdx_lt {account : Str} (h : c.users.findIdx? (fun u => u.account = account) = some index) :
    index < c.users.length :=
  (List.findIdx?_eq_some_iff_getElem.1 h).1

theorem select_ok (h : (selectUserIndex c).on typed = (.ok (some index), rest)) :
    index < c.users.length ∧ rest.lines ⊆ typed.lines := by
  unfold selectUserIndex at h
  split at h
  · cases (pure_ok h).1
  · obtain ⟨choice, r, hchoice, h⟩ := Dialog.bind_ok.1 h
    obtain ⟨-, -, -, hsub⟩ := askLine_ok hchoice
    split at h
    · rename_i i hfind
      obtain ⟨heq, rfl⟩ := pure_ok h
      cases heq
      exact ⟨findIdx_lt hfind, hsub⟩
    · split at h
      · obtain ⟨hvalue, rfl⟩ := pure_ok h
        split at hvalue
        · cases hvalue
          exact ⟨by omega, hsub⟩
        · cases hvalue
      · cases (pure_ok h).1

theorem resolve_ok {account : Option Str} (h : (resolveUserIndex c account).on typed = (.ok (some index), rest)) :
    index < c.users.length ∧ ∀ a ∈ account, c.users.findIdx? (fun u => u.account = a) = some index := by
  cases account with
  | none => exact ⟨(select_ok h).1, by simp⟩
  | some account =>
    obtain ⟨hfind, -⟩ := pure_ok h
    refine ⟨findIdx_lt hfind, fun a ha => ?_⟩
    cases ha
    exact hfind

/-- **Any user** can be selected by number: with enough zeros before it, it is nobody's account. -/
theorem select_types (hlen : c.users.length < 2 ^ 64) (h : index < c.users.length) :
    ∃ s, Dialog.Types (selectUserIndex c) s (some index) := by
  have hinfinite : (Set.range fun k => zeroPadded k (index + 1)).Infinite :=
    Set.infinite_range_of_injective (zeroPadded_injective (index + 1))
  obtain ⟨_, ⟨k, rfl⟩, hfree⟩ := hinfinite.exists_notMem_finset (c.users.map (·.account)).toFinset
  have hnone : c.users.findIdx? (fun u => u.account = zeroPadded k (index + 1)) = none := by
    refine List.findIdx?_eq_none_iff.2 fun u hu => ?_
    simp only [List.mem_toFinset, List.mem_map, not_exists, not_and] at hfree
    simpa using hfree u hu
  have hempty : c.users.isEmpty = false := by
    rw [List.isEmpty_eq_false_iff]
    rintro hnil
    simp [hnil] at h
  have hchoice : Dialog.Types promptNonEmpty (Line.number k (index + 1)).once (zeroPadded k (index + 1)) :=
    askLine_types (by rw [Line.number_trim, if_neg (zeroPadded_ne k (index + 1))])
  have hbound : index + 1 < 2 ^ 64 := by omega
  refine ⟨(Line.number k (index + 1)).once ++ nothing, ?_⟩
  unfold selectUserIndex
  rw [hempty, if_neg (by simp)]
  refine hchoice.bind ?_
  rw [hnone]
  dsimp only
  rw [parseUnsigned_zeroPadded k hbound]
  have hrange : 1 ≤ index + 1 ∧ index + 1 ≤ c.users.length := by omega
  dsimp only
  rw [if_pos hrange, Nat.add_sub_cancel]
  exact types_pure (some index)

theorem resolve_types (hlen : c.users.length < 2 ^ 64) {account : Option Str} (h : index < c.users.length)
    (haccount : ∀ a ∈ account, c.users.findIdx? (fun u => u.account = a) = some index) :
    ∃ s, Dialog.Types (resolveUserIndex c account) s (some index) := by
  cases account with
  | none => exact select_types hlen h
  | some account =>
    refine ⟨nothing, ?_⟩
    simp only [resolveUserIndex]
    rw [haccount account rfl]
    exact types_pure (some index)

theorem forUser_ok {select : Dialog Typed String (Option Nat)} {f : Nat → Dialog Typed String (Option Command)}
    {command : Command} (h : (forUser select f).on typed = (.ok (some command), rest)) :
    ∃ index r, select.on typed = (.ok (some index), r) ∧ (f index).on r = (.ok (some command), rest) := by
  obtain ⟨selected, r, hselect, h⟩ := Dialog.bind_ok.1 h
  cases selected with
  | none => cases (pure_ok h).1
  | some index => exact ⟨index, r, hselect, h⟩

theorem forUser_types {select : Dialog Typed String (Option Nat)} {f : Nat → Dialog Typed String (Option Command)}
    {command : Command} (hselect : ∃ s, Dialog.Types select s (some index))
    (hf : ∃ s, Dialog.Types (f index) s (some command)) : ∃ s, Dialog.Types (forUser select f) s (some command) := by
  obtain ⟨s, hs⟩ := hselect
  obtain ⟨t, ht⟩ := hf
  exact ⟨s ++ t, hs.bind ht⟩

end

/-! ## Answers -/

/-- An account that can be given to a user when `taken` are those of the others. -/
structure GoodAccount (taken : Str → Bool) (account : Str) : Prop where
  trimmed : trim account = account
  valid : validateAccount account = .ok ()
  free : taken account = false

/-- An amount of gigabytes from an option or a prompt. -/
def Amount (parseF64 : Str → Option Float) (given : Option Float) (bytes : Nat) : Prop :=
  ∃ gb, (∀ value ∈ given, value = gb) ∧
    (given = none → ∃ line : Line, f64Answer parseF64 0.0 (trim line.text) = some gb) ∧ gbToBytes gb = .ok bytes

/-- A number from an option or a prompt. -/
def Number (given : Option U32) (n : Nat) : Prop := n < 2 ^ 32 ∧ ∀ value ∈ given, value.1 = n

section
variable (parseF64 : Str → Option Float) (c : ServerConfig) (secret : Str)

/-- The user an option names, or any that is selected. -/
def Chosen (account : Option Str) (index : Nat) : Prop :=
  index < c.users.length ∧ ∀ a ∈ account, c.users.findIdx? (fun u => u.account = a) = some index

/-- What a command can be made to change in the configuration it has read. -/
inductive Answers : Commands → Command → Prop
  | setup (apiBind : Str) (apiPort frpsPort : Port) (frpsBinary : Str) :
    Answers (.setup apiBind apiPort frpsPort frpsBinary) (.setup apiBind apiPort frpsPort frpsBinary)
  | addUser {account password : Option Str} {gb : Option Float} {mbps limit : Option U32} {new : NewUser}
      (haccount : GoodAccount (accountExists c) new.account) (hnamed : ∀ a ∈ account, trim a = new.account)
      (hpassword : validatePassword new.password = .ok ()) (hgiven : ∀ p ∈ password, p = new.password)
      (hamount : Amount parseF64 gb new.trafficLimitBytes) (hmbps : Number mbps new.speedLimitMbps)
      (hlimit : Number limit new.tunnelLimit) (hmax : new.tunnelLimit ≤ MAX_TUNNEL_LIMIT)
      (hsecret : new.secret = secret) : Answers (.addUser account password gb mbps limit) (.addUser new)
  | deleteUser {index : Nat} (h : index < c.users.length) : Answers .deleteUser (.deleteUser index)
  | setTrafficLimit {account : Option Str} {gb : Option Float} {index bytes : Nat} (h : Chosen c account index)
      (hamount : Amount parseF64 gb bytes) : Answers (.setTrafficLimit account gb) (.setTrafficLimit index bytes)
  | setTrafficUsed {account : Option Str} {gb : Option Float} {index bytes : Nat} (h : Chosen c account index)
      (hamount : Amount parseF64 gb bytes) : Answers (.setTrafficUsed account gb) (.setTrafficUsed index bytes)
  | setSpeedLimit {account : Option Str} {mbps : Option U32} {index n : Nat} (h : Chosen c account index)
      (hmbps : Number mbps n) : Answers (.setSpeedLimit account mbps) (.setSpeedLimit index n)
  | setTunnelLimit {account : Option Str} {limit : Option U32} {index n : Nat} (h : Chosen c account index)
      (hlimit : Number limit n) (hmax : n ≤ MAX_TUNNEL_LIMIT) :
    Answers (.setTunnelLimit account limit) (.setTunnelLimit index n)
  | changeAccount {index : Nat} {account : Str} (h : index < c.users.length)
      (haccount : GoodAccount (fun value => (c.users.eraseIdx index).any fun u => u.account = value) account) :
    Answers .changeAccount (.changeAccount index account)
  | changePassword {index : Nat} {password : Str} (h : index < c.users.length)
      (hpassword : validatePassword password = .ok ()) : Answers .changePassword (.changePassword index password)
  | rotateKey {yes : Bool} {index : Nat} (h : index < c.users.length) :
    Answers (.rotateKey yes) (.rotateKey index secret)

end

/-! ## What comes out -/

section
variable {parseF64 : Str → Option Float} {c : ServerConfig} {secret : Str} {typed rest : Typed} {taken : Str → Bool}

theorem no_newline {s : Str} (h : s.any isControl = false) : '\n' ∉ s := by
  intro hmem
  have := List.any_eq_false.1 h '\n' hmem
  exact this (by decide)

theorem isOk_unit {x : Except String Unit} (h : x.isOk = true) : x = .ok () := by
  cases x with
  | error e => cases h
  | ok u => rfl

theorem validateAccount_clean {account : Str} (h : validateAccount account = .ok ()) :
    account ≠ [] ∧ '\n' ∉ account := by
  have hchecked := bailIf_eq_ok.1 h
  push Not at hchecked
  obtain ⟨⟨hpos, -⟩, hclean⟩ := hchecked
  refine ⟨?_, no_newline (by simpa using hclean)⟩
  rintro rfl
  simp at hpos

theorem validatePassword_clean {password : Str} (h : validatePassword password = .ok ()) :
    password ≠ [] ∧ '\n' ∉ password := by
  have hchecked := bailIf_eq_ok.1 h
  push Not at hchecked
  obtain ⟨⟨hpos, -⟩, hclean⟩ := hchecked
  refine ⟨?_, no_newline (by simpa using hclean)⟩
  rintro rfl
  simp at hpos

theorem promptAccount_ok {account : Str} (h : (promptAccount taken).on typed = (.ok account, rest)) :
    GoodAccount taken account := by
  obtain ⟨line, hline, -, -⟩ := askLine_ok h
  split at hline
  · cases hline
  · rename_i hgood
    cases hline
    push Not at hgood
    obtain ⟨-, hvalid, hfree⟩ := hgood
    exact ⟨trim_trim _, isOk_unit (by simpa using hvalid), by simpa using hfree⟩

theorem promptAccount_types {account : Str} (h : GoodAccount taken account) :
    ∃ s, Dialog.Types (promptAccount taken) s account := by
  obtain ⟨hne, hsingle⟩ := validateAccount_clean h.valid
  refine ⟨Line.once ⟨account, hsingle⟩, askLine_types ?_⟩
  rw [h.trimmed, if_neg]
  rw [h.valid, h.free]
  simp [hne, Except.isOk, Except.toBool]

theorem u32Answer_types {default : U32} (n : U32) :
    ∃ line : Line, u32Answer default (trim line.text) = some n := by
  refine ⟨Line.number 0 n.1, ?_⟩
  rw [Line.number_trim, u32Answer, if_neg (zeroPadded_ne 0 n.1), parseUnsigned_zeroPadded 0 n.2]

theorem promptU32_types (default n : U32) : ∃ s, Dialog.Types (promptU32 default) s n := by
  obtain ⟨line, hline⟩ := u32Answer_types n
  exact ⟨line.once, askLine_types hline⟩

theorem promptTunnelLimit_ok {default n : U32} (h : (promptTunnelLimit default).on typed = (.ok n, rest)) :
    n.1 ≤ MAX_TUNNEL_LIMIT := by
  obtain ⟨line, hline, -, -⟩ := askLine_ok h
  have hvalid := isOk_unit (Option.filter_eq_some_iff.1 hline).2
  exact Nat.le_of_not_lt (bailIf_eq_ok.1 hvalid)

theorem promptTunnelLimit_types (default : U32) {n : U32} (h : n.1 ≤ MAX_TUNNEL_LIMIT) :
    ∃ s, Dialog.Types (promptTunnelLimit default) s n := by
  obtain ⟨line, hline⟩ := u32Answer_types n
  refine ⟨line.once, askLine_types ?_⟩
  have hvalid : validateTunnelLimit n = .ok () := bailIf_eq_ok.2 (Nat.not_lt.2 h)
  rw [hline]
  refine Option.filter_eq_some_iff.2 ⟨rfl, ?_⟩
  rw [hvalid]
  rfl

/-- YES has been typed. -/
def Typed.Confirmed (typed : Typed) : Prop := ∃ line : Line, trim line.text = YES ∧ some line ∈ typed.lines

theorem confirmed_ok (h : confirmed.on typed = (.ok true, rest)) : typed.Confirmed := by
  obtain ⟨answer, r, hanswer, h⟩ := Dialog.bind_ok.1 h
  obtain ⟨line, hline, hmem, -⟩ := askLine_ok hanswer
  obtain ⟨hsame, -⟩ := pure_ok h
  split at hline
  · cases hline
  · cases hline
    exact ⟨line, by simpa using hsame, hmem⟩

/-- YES. -/
def Line.yes : Line := ⟨YES, by decide⟩

theorem confirmed_types : Dialog.Types confirmed (Line.yes.once ++ nothing) true := by
  have hline : Dialog.Types promptNonEmpty Line.yes.once YES := askLine_types (by decide)
  exact hline.bind (types_pure true)

theorem newAccount_ok {given : Option Str} {account : Str}
    (h : (newAccount c given).on typed = (.ok account, rest)) :
    GoodAccount (accountExists c) account ∧ ∀ a ∈ given, trim a = account := by
  cases given with
  | none => exact ⟨promptAccount_ok h, by simp⟩
  | some a =>
    obtain ⟨_, _, hchecked, h⟩ := Dialog.bind_ok.1 h
    obtain ⟨_, _, hfree, h⟩ := Dialog.bind_ok.1 h
    obtain ⟨rfl, -⟩ := pure_ok h
    refine ⟨⟨trim_trim a, (lift_ok hchecked).1, ?_⟩, fun b hb => ?_⟩
    · simpa using bailIf_eq_ok.1 (lift_ok hfree).1
    · cases hb
      rfl

theorem newAccount_types {given : Option Str} {account : Str} (h : GoodAccount (accountExists c) account)
    (hgiven : ∀ a ∈ given, trim a = account) : ∃ s, Dialog.Types (newAccount c given) s account := by
  cases given with
  | none => exact promptAccount_types h
  | some a =>
    have hname := hgiven a rfl
    subst hname
    have hfree : bailIf (accountExists c (trim a) = true) ("账号已存在：" ++ String.ofList (trim a)) = .ok () :=
      bailIf_eq_ok.2 (by simpa using h.free)
    exact ⟨nothing ++ (nothing ++ nothing),
      (types_lift h.valid).bind ((types_lift hfree).bind (types_pure (trim a)))⟩

theorem newPassword_ok {given : Option Str} {password : Str}
    (h : (newPassword given).on typed = (.ok password, rest)) :
    validatePassword password = .ok () ∧ ∀ p ∈ given, p = password := by
  obtain ⟨word, r, hword, h⟩ := Dialog.bind_ok.1 h
  obtain ⟨_, _, hvalid, h⟩ := Dialog.bind_ok.1 h
  obtain ⟨rfl, -⟩ := pure_ok h
  refine ⟨(lift_ok hvalid).1, fun p hp => ?_⟩
  cases hp
  obtain ⟨_, _, -, hword⟩ := Dialog.bind_ok.1 hword
  exact (pure_ok hword).1

theorem newPassword_types {given : Option Str} {password : Str} (h : validatePassword password = .ok ())
    (hgiven : ∀ p ∈ given, p = password) : ∃ s, Dialog.Types (newPassword given) s password := by
  obtain ⟨hne, hsingle⟩ := validatePassword_clean h
  have hrest := (types_lift h).bind (f := fun _ => pure password) (types_pure password)
  cases given with
  | none =>
    have hword : Dialog.Types (givenPassword none) (Line.twice ⟨password, hsingle⟩) password := promptPassword_types hne
    exact ⟨Line.twice ⟨password, hsingle⟩ ++ (nothing ++ nothing), hword.bind hrest⟩
  | some p =>
    have hword := hgiven p rfl
    subst hword
    have hfilled : bailIf (p = []) "密码不能为空。" = .ok () := bailIf_eq_ok.2 hne
    have hword : Dialog.Types (givenPassword (some p)) (nothing ++ nothing) p :=
      (types_lift hfilled).bind (types_pure p)
    exact ⟨(nothing ++ nothing) ++ (nothing ++ nothing), hword.bind hrest⟩

theorem newTunnelLimit_ok {given : Option U32} {default n : U32}
    (h : (newTunnelLimit default given).on typed = (.ok n, rest)) : Number given n ∧ n.1 ≤ MAX_TUNNEL_LIMIT := by
  cases given with
  | none => exact ⟨⟨n.2, by simp⟩, promptTunnelLimit_ok h⟩
  | some value =>
    obtain ⟨_, _, hchecked, h⟩ := Dialog.bind_ok.1 h
    obtain ⟨rfl, -⟩ := pure_ok h
    refine ⟨⟨value.2, fun v hv => ?_⟩, Nat.le_of_not_lt (bailIf_eq_ok.1 (lift_ok hchecked).1)⟩
    cases hv
    rfl

theorem newTunnelLimit_types {given : Option U32} {n : Nat} (default : U32) (h : Number given n)
    (hmax : n ≤ MAX_TUNNEL_LIMIT) : ∃ s, Dialog.Types (newTunnelLimit default given) s ⟨n, h.1⟩ := by
  cases given with
  | none => exact promptTunnelLimit_types default hmax
  | some value =>
    have hsame : value = ⟨n, h.1⟩ := Fin.ext (h.2 value rfl)
    have hvalid : validateTunnelLimit value = .ok () := bailIf_eq_ok.2 (by rw [hsame]; exact Nat.not_lt.2 hmax)
    rw [← hsame]
    exact ⟨nothing ++ nothing, (types_lift hvalid).bind (types_pure value)⟩

theorem askAmount_ok {given : Option Float} {gb : Float} {bytes : Nat}
    (h : (orAsk given (promptF64 parseF64 0.0)).on typed = (.ok gb, rest)) (hbytes : gbToBytes gb = .ok bytes) :
    Amount parseF64 given bytes := by
  obtain ⟨hgiven, hprompt⟩ := orAsk_ok h
  refine ⟨gb, hgiven, fun hnone => ?_, hbytes⟩
  obtain ⟨line, hline, -, -⟩ := askLine_ok (hprompt hnone)
  exact ⟨line, hline⟩

theorem askAmount_types {given : Option Float} {bytes : Nat} (h : Amount parseF64 given bytes) :
    ∃ gb s, Dialog.Types (orAsk given (promptF64 parseF64 0.0)) s gb ∧ gbToBytes gb = .ok bytes := by
  obtain ⟨gb, hgiven, hprompt, hbytes⟩ := h
  have hasked (hnone : given = none) : ∃ s, Dialog.Types (promptF64 parseF64 0.0) s gb := by
    obtain ⟨line, hline⟩ := hprompt hnone
    exact ⟨line.once, askLine_types hline⟩
  obtain ⟨s, hs⟩ := orAsk_types hasked hgiven
  exact ⟨gb, s, hs, hbytes⟩

theorem newAmount_ok {given : Option Float} {bytes : Nat}
    (h : (newAmount parseF64 given).on typed = (.ok bytes, rest)) : Amount parseF64 given bytes := by
  obtain ⟨gb, r, hgb, h⟩ := Dialog.bind_ok.1 h
  exact askAmount_ok hgb (lift_ok h).1

theorem newAmount_types {given : Option Float} {bytes : Nat} (h : Amount parseF64 given bytes) :
    ∃ s, Dialog.Types (newAmount parseF64 given) s bytes := by
  obtain ⟨gb, s, hs, hbytes⟩ := askAmount_types h
  exact ⟨s ++ nothing, hs.bind (types_lift hbytes)⟩

theorem askNumber_ok {given : Option U32} {default n : U32}
    (h : (orAsk given (promptU32 default)).on typed = (.ok n, rest)) : Number given n :=
  ⟨n.2, fun value hvalue => congrArg Fin.val ((orAsk_ok h).1 value hvalue)⟩

theorem askNumber_types {given : Option U32} {n : Nat} (default : U32) (h : Number given n) :
    ∃ s, Dialog.Types (orAsk given (promptU32 default)) s ⟨n, h.1⟩ :=
  orAsk_types (fun _ => promptU32_types default ⟨n, h.1⟩) fun value hvalue => Fin.ext (h.2 value hvalue)

theorem addUserDialog_ok {account password : Option Str} {gb : Option Float} {mbps limit : Option U32}
    {command : Command}
    (h : (addUserDialog parseF64 c secret account password gb mbps limit).on typed = (.ok (some command), rest)) :
    Answers parseF64 c secret (.addUser account password gb mbps limit) command := by
  obtain ⟨name, r₁, hname, h⟩ := Dialog.bind_ok.1 h
  obtain ⟨word, r₂, hword, h⟩ := Dialog.bind_ok.1 h
  obtain ⟨amount, r₃, hamount, h⟩ := Dialog.bind_ok.1 h
  obtain ⟨n, r₄, hn, h⟩ := Dialog.bind_ok.1 h
  obtain ⟨m, r₅, hm, h⟩ := Dialog.bind_ok.1 h
  obtain ⟨bytes, r₆, hbytes, h⟩ := Dialog.bind_ok.1 h
  obtain ⟨heq, -⟩ := pure_ok h
  cases heq
  obtain ⟨haccount, hnamed⟩ := newAccount_ok hname
  obtain ⟨hvalid, hgiven⟩ := newPassword_ok hword
  obtain ⟨hlimit, hmax⟩ := newTunnelLimit_ok hm
  have hamount := askAmount_ok hamount (lift_ok hbytes).1
  exact .addUser haccount hnamed hvalid hgiven hamount (askNumber_ok hn) hlimit hmax rfl

theorem addUserDialog_types {account password : Option Str} {gb : Option Float} {mbps limit : Option U32}
    {new : NewUser} (haccount : GoodAccount (accountExists c) new.account) (hnamed : ∀ a ∈ account, trim a = new.account)
    (hpassword : validatePassword new.password = .ok ()) (hgiven : ∀ p ∈ password, p = new.password)
    (hamount : Amount parseF64 gb new.trafficLimitBytes) (hmbps : Number mbps new.speedLimitMbps)
    (hlimit : Number limit new.tunnelLimit) (hmax : new.tunnelLimit ≤ MAX_TUNNEL_LIMIT) (hsecret : new.secret = secret) :
    ∃ s, Dialog.Types (addUserDialog parseF64 c secret account password gb mbps limit) s (some (.addUser new)) := by
  subst hsecret
  obtain ⟨s₁, h₁⟩ := newAccount_types haccount hnamed
  obtain ⟨s₂, h₂⟩ := newPassword_types hpassword hgiven
  obtain ⟨amount, s₃, h₃, hbytes⟩ := askAmount_types hamount
  obtain ⟨s₄, h₄⟩ := askNumber_types 0 hmbps
  obtain ⟨s₅, h₅⟩ := newTunnelLimit_types 5 hlimit hmax
  refine ⟨s₁ ++ (s₂ ++ (s₃ ++ (s₄ ++ (s₅ ++ (nothing ++ nothing))))), ?_⟩
  exact h₁.bind (h₂.bind (h₃.bind (h₄.bind (h₅.bind ((types_lift hbytes).bind (types_pure _))))))

/-- **What comes out has been answered.** -/
theorem dialog_sound {cli : Commands} {command : Command}
    (h : (cli.dialog parseF64 c secret).on typed = (.ok (some command), rest)) :
    Answers parseF64 c secret cli command := by
  cases cli with
  | setup apiBind apiPort frpsPort frpsBinary =>
    obtain ⟨heq, -⟩ := pure_ok h
    cases heq
    exact .setup ..
  | addUser account password gb mbps limit => exact addUserDialog_ok h
  | viewUsers =>
    obtain ⟨index, r, -, h⟩ := forUser_ok h
    cases (pure_ok h).1
  | deleteUser =>
    obtain ⟨index, r, hselect, h⟩ := forUser_ok h
    obtain ⟨yes, r', -, h⟩ := Dialog.bind_ok.1 h
    obtain ⟨heq, -⟩ := pure_ok h
    cases yes with
    | true =>
      cases heq
      exact .deleteUser (select_ok hselect).1
    | false => cases heq
  | viewTraffic account =>
    obtain ⟨index, r, -, h⟩ := forUser_ok h
    cases (pure_ok h).1
  | setTrafficLimit account gb =>
    obtain ⟨index, r, hselect, h⟩ := forUser_ok h
    obtain ⟨bytes, r', hbytes, h⟩ := Dialog.bind_ok.1 h
    cases (pure_ok h).1
    exact .setTrafficLimit (resolve_ok hselect) (newAmount_ok hbytes)
  | setTrafficUsed account gb =>
    obtain ⟨index, r, hselect, h⟩ := forUser_ok h
    obtain ⟨bytes, r', hbytes, h⟩ := Dialog.bind_ok.1 h
    cases (pure_ok h).1
    exact .setTrafficUsed (resolve_ok hselect) (newAmount_ok hbytes)
  | setSpeedLimit account mbps =>
    obtain ⟨index, r, hselect, h⟩ := forUser_ok h
    obtain ⟨n, r', hn, h⟩ := Dialog.bind_ok.1 h
    cases (pure_ok h).1
    exact .setSpeedLimit (resolve_ok hselect) (askNumber_ok hn)
  | setTunnelLimit account limit =>
    obtain ⟨index, r, hselect, h⟩ := forUser_ok h
    obtain ⟨n, r', hn, h⟩ := Dialog.bind_ok.1 h
    cases (pure_ok h).1
    obtain ⟨hlimit, hmax⟩ := newTunnelLimit_ok hn
    exact .setTunnelLimit (resolve_ok hselect) hlimit hmax
  | changeAccount =>
    obtain ⟨index, r, hselect, h⟩ := forUser_ok h
    obtain ⟨account, r', haccount, h⟩ := Dialog.bind_ok.1 h
    cases (pure_ok h).1
    exact .changeAccount (select_ok hselect).1 (promptAccount_ok haccount)
  | changePassword =>
    obtain ⟨index, r, hselect, h⟩ := forUser_ok h
    obtain ⟨password, r', hpassword, h⟩ := Dialog.bind_ok.1 h
    cases (pure_ok h).1
    exact .changePassword (select_ok hselect).1 (newPassword_ok hpassword).1
  | rotateKey yes =>
    obtain ⟨index, r, hselect, h⟩ := forUser_ok h
    cases (pure_ok h).1
    exact .rotateKey (select_ok hselect).1

/-- **What is an answer can be typed.** -/
theorem dialog_complete (hlen : c.users.length < 2 ^ 64) {cli : Commands} {command : Command}
    (h : Answers parseF64 c secret cli command) :
    ∃ s, Dialog.Types (cli.dialog parseF64 c secret) s (some command) := by
  have hthen {α : Type} {ask : Dialog Typed String α} {a : α} (f : α → Command) (hask : ∃ s, Dialog.Types ask s a) :
      ∃ s, Dialog.Types (ask >>= fun a => pure (some (f a))) s (some (f a)) := by
    obtain ⟨s, hs⟩ := hask
    exact ⟨s ++ nothing, hs.bind (types_pure _)⟩
  cases h with
  | setup apiBind apiPort frpsPort frpsBinary => exact ⟨nothing, types_pure _⟩
  | addUser haccount hnamed hpassword hgiven hamount hmbps hlimit hmax hsecret =>
    exact addUserDialog_types haccount hnamed hpassword hgiven hamount hmbps hlimit hmax hsecret
  | deleteUser hindex =>
    exact forUser_types (select_types hlen hindex)
      ⟨(Line.yes.once ++ nothing) ++ nothing, confirmed_types.bind (types_pure _)⟩
  | setTrafficLimit hchosen hamount =>
    exact forUser_types (resolve_types hlen hchosen.1 hchosen.2) (hthen _ (newAmount_types hamount))
  | setTrafficUsed hchosen hamount =>
    exact forUser_types (resolve_types hlen hchosen.1 hchosen.2) (hthen _ (newAmount_types hamount))
  | setSpeedLimit hchosen hmbps =>
    exact forUser_types (resolve_types hlen hchosen.1 hchosen.2)
      (hthen (fun n : U32 => .setSpeedLimit _ n) (askNumber_types 0 hmbps))
  | setTunnelLimit hchosen hlimit hmax =>
    exact forUser_types (resolve_types hlen hchosen.1 hchosen.2)
      (hthen (fun n : U32 => .setTunnelLimit _ n) (newTunnelLimit_types _ hlimit hmax))
  | changeAccount hindex haccount =>
    exact forUser_types (select_types hlen hindex) (hthen _ (promptAccount_types haccount))
  | changePassword hindex hpassword =>
    exact forUser_types (select_types hlen hindex) (hthen _ (newPassword_types hpassword (by simp)))
  | rotateKey hindex => exact forUser_types (select_types hlen hindex) ⟨nothing, types_pure _⟩

theorem before_types (cli : Commands) : ∃ s, Dialog.Types cli.before s true := by
  cases cli with
  | rotateKey yes =>
    cases yes with
    | true => exact ⟨nothing, types_pure true⟩
    | false => exact ⟨Line.yes.once ++ nothing, confirmed_types⟩
  | _ => exact ⟨nothing, types_pure true⟩

/-- **A user is deleted** only after YES. -/
theorem delete_confirmed {command : Command}
    (h : (Commands.deleteUser.dialog parseF64 c secret).on typed = (.ok (some command), rest)) : typed.Confirmed := by
  obtain ⟨index, r, hselect, h⟩ := forUser_ok h
  obtain ⟨yes, r', hyes, h⟩ := Dialog.bind_ok.1 h
  obtain ⟨heq, -⟩ := pure_ok h
  cases yes with
  | true =>
    obtain ⟨line, hline, hmem⟩ := confirmed_ok hyes
    exact ⟨line, hline, (select_ok hselect).2 hmem⟩
  | false => cases heq

/-- **What can be typed** at a command's prompts is exactly what its options leave open and the
configuration it has read allows; and neither a user is deleted nor, without `--yes`, a key given
up where YES has not been typed. -/
theorem typed_commands (hlen : c.users.length < 2 ^ 64) (cli : Commands) (command : Command) :
    (Answers parseF64 c secret cli command ↔
      ∃ s t, Dialog.Types cli.before s true ∧ Dialog.Types (cli.dialog parseF64 c secret) t (some command)) ∧
    (∀ typed rest, (cli.dialog parseF64 c secret).on typed = (.ok (some command), rest) →
      Answers parseF64 c secret cli command ∧ (cli = .deleteUser → typed.Confirmed)) ∧
    ∀ typed rest, cli.before.on typed = (.ok true, rest) → cli = .rotateKey false → typed.Confirmed := by
  refine ⟨⟨fun h => ?_, fun ⟨_, _, _, ht⟩ => ?_⟩, fun typed rest h => ⟨dialog_sound h, ?_⟩, fun typed rest h hcli => ?_⟩
  · obtain ⟨s, hs⟩ := before_types cli
    obtain ⟨t, ht⟩ := dialog_complete hlen h
    exact ⟨s, t, hs, ht⟩
  · exact dialog_sound (ht nothing)
  · rintro rfl
    exact delete_confirmed h
  · subst hcli
    exact confirmed_ok h

end

/-- The account of the first user is the number of the second. -/
def numbered : ServerConfig := sampleConfig [sampleUser '2' [], sampleUser 'b' []]

theorem second_deleted : ∃ s t, Dialog.Types Commands.deleteUser.before s true ∧
    Dialog.Types (Commands.deleteUser.dialog (fun _ => none) numbered []) t (some (.deleteUser 1)) :=
  (typed_commands (by decide) .deleteUser (.deleteUser 1)).1.1 (.deleteUser (by decide))

end OrangeFrp.App
