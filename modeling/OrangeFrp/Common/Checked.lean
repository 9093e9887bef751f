import OrangeFrp.Common.Crypto

/-!
# Decoding on a machine (`frp-game-common/src/crypto.rs`)

The two decoding functions once more, with what the machine does where Rust can panic:
slices have bounds, `Nonce::from_slice` wants twelve bytes, and `-` and `abs` on an `i64`
trap on overflow in a debug build and wrap in a release build, which aborts on a panic.

* `decryptPayloadOn_release`, `decryptStoredTextOn_eq`: no slice is out of range, and a
  release build computes `decryptPayload` and `decryptStoredText`.
* `Build.distance_eq`, `Build.debug_overflow`: the freshness test is exact up to a distance of
  `i64::MAX`, and traps beyond it.
* `decoding_safe_iff`: which calls neither panic nor accept a stale timestamp.
-/
namespace OrangeFrp

open OrangeFrp.Core

inductive Fault where
  | overflow
  | outOfRange
  deriving DecidableEq

/-- How a function ends without a value: it returns an error, or panics. -/
inductive Halt where
  | error (e : CryptoError)
  | panic (fault : Fault)
  deriving DecidableEq

/-- `xs[i..j]`. -/
def slice (xs : Bytes) (i j : Nat) : Except Halt Bytes :=
  if i ≤ j ∧ j ≤ xs.length then .ok ((xs.take j).drop i) else .error (.panic .outOfRange)

theorem slice_ok {xs : Bytes} {i j : Nat} (hij : i ≤ j) (hj : j ≤ xs.length) :
    slice xs i j = .ok ((xs.take j).drop i) := if_pos ⟨hij, hj⟩

/-- `Nonce::from_slice`. -/
def nonceFromSlice (xs : Bytes) : Except Halt Bytes :=
  if xs.length = NONCE_LENGTH then .ok xs else .error (.panic .outOfRange)

inductive Build where
  | debug
  | release
  deriving DecidableEq

def fitsI64 (n : Int) : Bool := I64_MIN ≤ n && n ≤ I64_MAX

def orOverflow (n : Int) : Except Halt Int := if fitsI64 n then .ok n else .error (.panic .overflow)

/-- `-` on `i64`. -/
def Build.sub (a b : Int) : Build → Except Halt Int
  | .debug => orOverflow (a - b)
  | .release => .ok (i64Sub a b)

/-- `i64::abs`. -/
def Build.abs (a : Int) : Build → Except Halt Int
  | .debug => orOverflow a.natAbs
  | .release => .ok (i64Abs a)

section
variable (P : Primitives)

/-- From the version to the parsed payload.
mirrors crates/frp-game-common/src/crypto.rs:112-131 -/
def openEnvelope (secret saltB64 : Str) (envelope : Envelope) : Except Halt Value := do
  bailIf (envelope.version ≠ PROTOCOL_VERSION) (.error .unsupportedVersion)
  let salt ← (b64decode P saltB64).mapError .error
  let nonce ← (b64decode P envelope.nonce).mapError .error
  let ciphertext ← (b64decode P envelope.payload).mapError .error
  bailIf (nonce.length ≠ NONCE_LENGTH) (.error .invalidNonce)
  bailIf (ciphertext.length < AUTH_TAG_LENGTH) (.error .invalidCiphertext)
  let key ← (deriveKey P secret salt API_HKDF_INFO).mapError .error
  let nonce ← nonceFromSlice nonce
  let plaintext ← (orPayloadError (P.aeadDecrypt key nonce ciphertext)).mapError .error
  (orPayloadError (P.parseJson plaintext)).mapError .error

/-- mirrors crates/frp-game-common/src/crypto.rs:107-142 -/
def decryptPayloadOn (build : Build) (secret saltB64 : Str) (envelope : Envelope) (now : Int) :
    Except Halt Value := do
  let data ← openEnvelope P secret saltB64 envelope
  match (data.get "ts".toList).bind Value.asI64 with
  | none => .error (.error .missingTimestamp)
  | some timestamp => do
    let difference ← build.sub now timestamp
    let distance ← build.abs difference
    if distance > MAX_CLOCK_SKEW_SECONDS then .error (.error .expiredTimestamp) else .ok data

/-- mirrors crates/frp-game-common/src/crypto.rs:165-186 -/
def decryptStoredTextOn (secret saltB64 storedB64 : Str) : Except Halt Str := do
  let stored ← (b64decode P storedB64).mapError .error
  bailIf (stored.head? ≠ some STORED_TEXT_VERSION) (.error .unsupportedVersion)
  bailIf (stored.length < 1 + NONCE_LENGTH + AUTH_TAG_LENGTH) (.error .invalidCiphertext)
  let nonce ← slice stored 1 (1 + NONCE_LENGTH)
  let ciphertext ← slice stored (1 + NONCE_LENGTH) stored.length
  let salt ← (b64decode P saltB64).mapError .error
  let key ← (deriveKey P secret salt STORAGE_HKDF_INFO).mapError .error
  let nonce ← nonceFromSlice nonce
  let plaintext ← (orPayloadError (P.aeadDecrypt key nonce ciphertext)).mapError .error
  (orPayloadError (fromUtf8 plaintext)).mapError .error

end

/-! ## No slice is out of range -/

variable {P : Primitives} {secret saltB64 : Str} {envelope : Envelope} {now : Int}

/-- Both sides of a step that may return an error. -/
theorem mapError_bind {α β : Type} (x : Except CryptoError α) {f : α → Except Halt β}
    {g : α → Except CryptoError β} (h : ∀ a, x = .ok a → f a = (g a).mapError .error) :
    (x.mapError Halt.error >>= f) = (x >>= g).mapError .error := by
  cases x with
  | error e => rfl
  | ok a => exact h a rfl

theorem bailIf_bind {α : Type} (p : Prop) [Decidable p] (e : CryptoError) {x : Except Halt α}
    {y : Except CryptoError α} (h : ¬ p → x = y.mapError .error) :
    (bailIf p (.error e) >>= fun _ => x) = (bailIf p e >>= fun _ => y).mapError .error := by
  unfold bailIf
  split
  · rfl
  · rename_i hp
    exact h hp

theorem mapError_ne_panic {α : Type} (x : Except CryptoError α) (fault : Fault) :
    x.mapError Halt.error ≠ .error (.panic fault) := by
  cases x <;> simp [Except.mapError]

/-- **No slice of the stored text is out of range.** -/
theorem decryptStoredTextOn_eq (storedB64 : Str) : decryptStoredTextOn P secret saltB64 storedB64 =
    (decryptStoredText P secret saltB64 storedB64).mapError .error := by
  unfold decryptStoredTextOn decryptStoredText
  refine mapError_bind _ fun stored _ => ?_
  refine bailIf_bind _ _ fun _ => bailIf_bind _ _ fun hlen => ?_
  have hslices : slice stored 1 (1 + NONCE_LENGTH) = .ok ((stored.drop 1).take NONCE_LENGTH) ∧
      slice stored (1 + NONCE_LENGTH) stored.length = .ok (stored.drop (1 + NONCE_LENGTH)) := by
    rw [slice_ok (by omega) (by omega), slice_ok (by omega) le_rfl, List.take_length, List.drop_take]
    exact ⟨rfl, rfl⟩
  have hnonce : nonceFromSlice ((stored.drop 1).take NONCE_LENGTH) = .ok ((stored.drop 1).take NONCE_LENGTH) := by
    refine if_pos ?_
    rw [List.length_take, List.length_drop]
    omega
  rw [hslices.1, hslices.2]
  refine mapError_bind _ fun salt _ => mapError_bind _ fun key _ => ?_
  show (nonceFromSlice ((stored.drop 1).take NONCE_LENGTH) >>= _) = _
  rw [hnonce]
  exact mapError_bind _ fun plaintext _ => rfl

/-- What `decryptPayload` decodes before it looks at the clock. -/
def payloadOf (P : Primitives) (secret saltB64 : Str) (envelope : Envelope) : Except CryptoError Value := do
  bailIf (envelope.version ≠ PROTOCOL_VERSION) .unsupportedVersion
  let salt ← b64decode P saltB64
  let nonce ← b64decode P envelope.nonce
  let ciphertext ← b64decode P envelope.payload
  bailIf (nonce.length ≠ NONCE_LENGTH) .invalidNonce
  bailIf (ciphertext.length < AUTH_TAG_LENGTH) .invalidCiphertext
  let key ← deriveKey P secret salt API_HKDF_INFO
  let plaintext ← orPayloadError (P.aeadDecrypt key nonce ciphertext)
  orPayloadError (P.parseJson plaintext)

theorem openEnvelope_eq : openEnvelope P secret saltB64 envelope =
    (payloadOf P secret saltB64 envelope).mapError .error := by
  unfold openEnvelope payloadOf
  refine bailIf_bind _ _ fun _ => mapError_bind _ fun salt _ => mapError_bind _ fun nonce _ =>
    mapError_bind _ fun ciphertext _ => bailIf_bind _ _ fun hlen => bailIf_bind _ _ fun _ =>
    mapError_bind _ fun key _ => ?_
  have hnonce : nonceFromSlice nonce = .ok nonce := if_pos (not_not.1 hlen)
  rw [hnonce]
  exact mapError_bind _ fun plaintext _ => rfl

theorem decryptPayload_eq_bind : decryptPayload P secret saltB64 envelope now =
    payloadOf P secret saltB64 envelope >>= fun data =>
      match (data.get "ts".toList).bind Value.asI64 with
      | none => .error .missingTimestamp
      | some timestamp => if expired now timestamp then .error .expiredTimestamp else .ok data := by
  unfold payloadOf
  simp only [bind_assoc]
  rfl

/-- **A release build computes `decryptPayload`.** -/
theorem decryptPayloadOn_release : decryptPayloadOn P .release secret saltB64 envelope now =
    (decryptPayload P secret saltB64 envelope now).mapError .error := by
  rw [decryptPayloadOn, openEnvelope_eq, decryptPayload_eq_bind]
  refine mapError_bind _ fun data _ => ?_
  split
  · rfl
  · simp only [Build.sub, Build.abs, expired, decide_eq_true_eq]
    show (if _ then _ else _) = _
    split <;> rfl

/-! ## The freshness test -/

theorem i64Wrap_eq {n : Int} (hlow : I64_MIN ≤ n) (hhigh : n ≤ I64_MAX) : i64Wrap n = n := by
  unfold I64_MIN at hlow
  unfold I64_MAX at hhigh
  unfold i64Wrap
  omega

/-- **Up to a distance of `i64::MAX` both builds compute the distance.** -/
theorem Build.distance_eq {timestamp : Int} (h : (now - timestamp).natAbs ≤ I64_MAX) (build : Build) :
    build.sub now timestamp = .ok (now - timestamp) ∧
      build.abs (now - timestamp) = .ok (now - timestamp).natAbs := by
  have hlow : I64_MIN ≤ now - timestamp := by
    unfold I64_MIN
    unfold I64_MAX at h
    omega
  have hhigh : now - timestamp ≤ I64_MAX := by omega
  have hpos : I64_MIN ≤ ((now - timestamp).natAbs : Int) := by
    unfold I64_MIN
    omega
  cases build with
  | debug =>
    simp only [Build.sub, Build.abs, orOverflow, fitsI64, hlow, hhigh, h, hpos, decide_true,
      Bool.and_self, if_true, and_self]
  | release =>
    have habs : i64Abs (now - timestamp) = (now - timestamp).natAbs := by
      unfold i64Abs
      split
      · rw [i64Wrap_eq (by omega) (by omega)]
        omega
      · omega
    exact ⟨congrArg Except.ok (i64Wrap_eq hlow hhigh), congrArg Except.ok habs⟩

theorem Build.debug_overflow {timestamp : Int} (h : ¬ ((now - timestamp).natAbs : Int) ≤ I64_MAX) :
    (Build.debug.sub now timestamp >>= fun difference => Build.debug.abs difference) =
      .error (.panic .overflow) := by
  simp only [Build.sub, Build.abs, orOverflow]
  split
  · show (if _ then _ else _) = _
    rw [if_neg]
    simp only [fitsI64, h, decide_false, Bool.and_false]
    exact Bool.false_ne_true
  · rfl

/-- The test on a decoded payload that has a timestamp. -/
theorem decryptPayloadOn_of_payload {data : Value} {timestamp : Int}
    (hdata : payloadOf P secret saltB64 envelope = .ok data)
    (hts : (data.get "ts".toList).bind Value.asI64 = some timestamp) (build : Build) :
    decryptPayloadOn P build secret saltB64 envelope now =
      (build.sub now timestamp >>= fun difference => build.abs difference) >>= fun distance =>
        if distance > MAX_CLOCK_SKEW_SECONDS then .error (.error .expiredTimestamp) else .ok data := by
  rw [decryptPayloadOn, openEnvelope_eq, hdata]
  show (match (data.get "ts".toList).bind Value.asI64 with | none => _ | some _ => _) = _
  rw [hts, bind_assoc]

/-! ## Hostile input -/

/-- What the envelope carries under the session's secret and salt. -/
def Carries (P : Primitives) (secret saltB64 : Str) (envelope : Envelope) (data : Value) : Prop :=
  envelope.version = PROTOCOL_VERSION ∧ ∃ salt nonce ciphertext key plaintext,
    b64decode P saltB64 = .ok salt ∧ b64decode P envelope.nonce = .ok nonce ∧
    b64decode P envelope.payload = .ok ciphertext ∧ nonce.length = NONCE_LENGTH ∧
    AUTH_TAG_LENGTH ≤ ciphertext.length ∧ deriveKey P secret salt API_HKDF_INFO = .ok key ∧
    P.aeadDecrypt key nonce ciphertext = some plaintext ∧ P.parseJson plaintext = some data

theorem payloadOf_eq_ok {data : Value} :
    payloadOf P secret saltB64 envelope = .ok data ↔ Carries P secret saltB64 envelope data := by
  unfold payloadOf
  refine ⟨?_, ?_⟩
  · intro h
    obtain ⟨hversion, h⟩ := bailIf_bind_eq_ok.1 h
    obtain ⟨salt, hsalt, h⟩ := bind_eq_ok.1 h
    obtain ⟨nonce, hnonce, h⟩ := bind_eq_ok.1 h
    obtain ⟨ciphertext, hciphertext, h⟩ := bind_eq_ok.1 h
    obtain ⟨hlen, h⟩ := bailIf_bind_eq_ok.1 h
    obtain ⟨htag, h⟩ := bailIf_bind_eq_ok.1 h
    obtain ⟨key, hkey, h⟩ := bind_eq_ok.1 h
    obtain ⟨plaintext, hplain, h⟩ := bind_eq_ok.1 h
    exact ⟨not_not.1 hversion, salt, nonce, ciphertext, key, plaintext, hsalt, hnonce, hciphertext,
      not_not.1 hlen, Nat.not_lt.1 htag, hkey, orPayloadError_eq_ok.1 hplain, orPayloadError_eq_ok.1 h⟩
  · intro h
    obtain ⟨hversion, salt, nonce, ciphertext, key, plaintext, hsalt, hnonce, hciphertext, hlen, htag,
      hkey, hplain, hdata⟩ := h
    refine bailIf_bind_eq_ok.2 ⟨not_not.2 hversion, bind_eq_ok.2 ⟨salt, hsalt, bind_eq_ok.2 ⟨nonce, hnonce,
      bind_eq_ok.2 ⟨ciphertext, hciphertext, bailIf_bind_eq_ok.2 ⟨not_not.2 hlen,
      bailIf_bind_eq_ok.2 ⟨Nat.not_lt.2 htag, bind_eq_ok.2 ⟨key, hkey, bind_eq_ok.2 ⟨plaintext,
      orPayloadError_eq_ok.2 hplain, orPayloadError_eq_ok.2 hdata⟩⟩⟩⟩⟩⟩⟩⟩

/-- Neither function panics in either build, and an accepted payload is of version 1, has a
nonce of twelve bytes and a timestamp at most 300 seconds away. -/
structure Safe (P : Primitives) (secret saltB64 storedB64 : Str) (envelope : Envelope) (now : Int) :
    Prop where
  payload : ∀ build fault,
    decryptPayloadOn P build secret saltB64 envelope now ≠ .error (.panic fault)
  stored : ∀ fault, decryptStoredTextOn P secret saltB64 storedB64 ≠ .error (.panic fault)
  fresh : ∀ build data, decryptPayloadOn P build secret saltB64 envelope now = .ok data →
    envelope.version = PROTOCOL_VERSION ∧
    (∃ nonce, b64decode P envelope.nonce = .ok nonce ∧ nonce.length = NONCE_LENGTH) ∧
    ∃ timestamp, (data.get "ts".toList).bind Value.asI64 = some timestamp ∧
      (now - timestamp).natAbs ≤ MAX_CLOCK_SKEW_SECONDS

/-- Without a payload, or a timestamp in it, the clock does not matter. -/
theorem decryptPayloadOn_eq_error (h : ∀ data timestamp, payloadOf P secret saltB64 envelope = .ok data →
      (data.get "ts".toList).bind Value.asI64 ≠ some timestamp) :
    ∃ e, ∀ build, decryptPayloadOn P build secret saltB64 envelope now = .error (.error e) := by
  cases hp : payloadOf P secret saltB64 envelope with
  | error e =>
    refine ⟨e, fun build => ?_⟩
    rw [decryptPayloadOn, openEnvelope_eq, hp]
    rfl
  | ok data =>
    refine ⟨.missingTimestamp, fun build => ?_⟩
    rw [decryptPayloadOn, openEnvelope_eq, hp]
    show (match (data.get "ts".toList).bind Value.asI64 with | none => _ | some _ => _) = _
    rw [Option.eq_none_iff_forall_ne_some.2 fun timestamp => h data timestamp hp]

/-- **Decoding hostile input is safe, and the freshness test exact**, unless the envelope
carries a timestamp more than `i64::MAX` away from the clock. -/
theorem decoding_safe_iff (P : Primitives) (secret saltB64 storedB64 : Str) (envelope : Envelope)
    (now : Int) : Safe P secret saltB64 storedB64 envelope now ↔
      ∀ data timestamp, Carries P secret saltB64 envelope data →
        (data.get "ts".toList).bind Value.asI64 = some timestamp →
        (now - timestamp).natAbs ≤ I64_MAX := by
  refine ⟨?_, ?_⟩
  · intro hsafe data timestamp hcarries hts
    by_contra hfar
    apply hsafe.payload .debug .overflow
    rw [decryptPayloadOn_of_payload (payloadOf_eq_ok.2 hcarries) hts, Build.debug_overflow hfar]
    rfl
  · intro hnear
    have hstored : ∀ fault, decryptStoredTextOn P secret saltB64 storedB64 ≠ .error (.panic fault) := by
      rw [decryptStoredTextOn_eq]
      exact mapError_ne_panic _
    by_cases hnone : ∀ data timestamp, payloadOf P secret saltB64 envelope = .ok data →
        (data.get "ts".toList).bind Value.asI64 ≠ some timestamp
    · obtain ⟨e, he⟩ := @decryptPayloadOn_eq_error _ _ _ _ now hnone
      refine ⟨fun build fault h => ?_, hstored, fun build data h => ?_⟩ <;> rw [he] at h <;> cases h
    · push Not at hnone
      obtain ⟨data, timestamp, hdata, hts⟩ := hnone
      have hcarries := payloadOf_eq_ok.1 hdata
      have hon (build : Build) : decryptPayloadOn P build secret saltB64 envelope now =
          if ((now - timestamp).natAbs : Int) > MAX_CLOCK_SKEW_SECONDS
          then .error (.error .expiredTimestamp) else .ok data := by
        obtain ⟨hsub, habs⟩ := Build.distance_eq (hnear data timestamp hcarries hts) build
        rw [decryptPayloadOn_of_payload hdata hts, hsub]
        show (build.abs (now - timestamp) >>= _) = _
        rw [habs]
        rfl
      refine ⟨fun build fault h => ?_, hstored, fun build accepted h => ?_⟩
      · rw [hon] at h
        split at h <;> cases h
      · rw [hon] at h
        split at h
        · cases h
        rename_i hskew
        cases h
        obtain ⟨hversion, _, nonce, _, _, _, -, hnonce, -, hlen, -⟩ := hcarries
        exact ⟨hversion, ⟨nonce, hnonce, hlen⟩, timestamp, hts, Int.not_lt.1 hskew⟩

/-! An authenticated client sends a timestamp 2⁶³ seconds before the clock. -/

def farClock : Int := 1700000000
def farTimestamp : Int := farClock - 2 ^ 63

def farPayload : Value := .obj [("ts".toList, .int farTimestamp)]

def farText : Str := "\x7b\"ts\":-9223372035154775808\x7d".toList

/-- Base64 and the cipher copy their input, with a tag of zeros; the parser knows one text. -/
def Primitives.far : Primitives :=
  { Primitives.plain with
    b64decode := fun s => some (s.map fun c => UInt8.ofNat c.toNat)
    aeadEncrypt := fun _ _ text => some (text ++ List.replicate AUTH_TAG_LENGTH 0)
    aeadDecrypt := fun _ _ text => some (text.take (text.length - AUTH_TAG_LENGTH))
    parseJson := fun text => if text = utf8 farText then some farPayload else none }

def farEnvelope : Envelope :=
  ⟨PROTOCOL_VERSION, List.replicate NONCE_LENGTH 'n', farText ++ List.replicate AUTH_TAG_LENGTH (Char.ofNat 0)⟩

theorem farEnvelope_unsafe :
    decryptPayloadOn Primitives.far .debug ['s'] (List.replicate 16 'x') farEnvelope farClock =
      .error (.panic .overflow) ∧
    decryptPayloadOn Primitives.far .release ['s'] (List.replicate 16 'x') farEnvelope farClock =
      .ok farPayload ∧
    ¬ Safe Primitives.far ['s'] (List.replicate 16 'x') [] farEnvelope farClock := by
  have hdebug : decryptPayloadOn Primitives.far .debug ['s'] (List.replicate 16 'x') farEnvelope
      farClock = .error (.panic .overflow) := by rfl
  exact ⟨hdebug, rfl, fun hsafe => hsafe.payload _ _ hdebug⟩

end OrangeFrp
