import OrangeFrp.Common.Text
import OrangeFrp.Core.Except

/-!
# Envelopes and stored text (`frp-game-common/src/crypto.rs`)

The ciphers, base64, HKDF, Argon2 and `serde_json` are third-party code; they
are the fields of `Primitives`. What is modelled is what the crate does with
them: the order of the decodings and length checks, the key derivation guard,
and the clock-skew test on `ts`.

The subtraction and `abs` of that test are `i64` operations of a release build
and wrap (`i64Sub`, `i64Abs`).
-/
namespace OrangeFrp

open OrangeFrp.Core

abbrev Bytes := List UInt8

def I64_MAX : Int := 2 ^ 63 - 1
def I64_MIN : Int := -2 ^ 63
def U64_MAX : Nat := 2 ^ 64 - 1

def i64Wrap (n : Int) : Int := (n + 2 ^ 63) % 2 ^ 64 - 2 ^ 63
def i64Sub (a b : Int) : Int := i64Wrap (a - b)
def i64Abs (a : Int) : Int := if a < 0 then i64Wrap (-a) else a

/-- `serde_json::Value`; a number is an integer or some float. -/
inductive Value where
  | null
  | bool (b : Bool)
  | int (n : Int)
  | float
  | str (s : Str)
  | arr (items : List Value)
  | obj (fields : List (Str × Value))

namespace Value

def get (key : Str) : Value → Option Value
  | .obj fields => (fields.find? fun f => f.1 = key).map (·.2)
  | _ => none

def asStr : Value → Option Str
  | .str s => some s
  | _ => none

def asArray : Value → Option (List Value)
  | .arr items => some items
  | _ => none

def asI64 : Value → Option Int
  | .int n => if I64_MIN ≤ n ∧ n ≤ I64_MAX then some n else none
  | _ => none

def asU64 : Value → Option Nat
  | .int n => if 0 ≤ n ∧ n ≤ U64_MAX then some n.toNat else none
  | _ => none

end Value

/-- The third-party functions the program calls. -/
structure Primitives where
  b64decode : Str → Option Bytes
  b64encode : Bytes → Str
  /-- HKDF-SHA256 of salt, secret and info, expanded to a 32-byte key -/
  hkdf : Bytes → Bytes → Bytes → Bytes
  /-- AES-256-GCM of key, nonce and plaintext -/
  aeadEncrypt : Bytes → Bytes → Bytes → Option Bytes
  aeadDecrypt : Bytes → Bytes → Bytes → Option Bytes
  parseJson : Bytes → Option Value
  sha256 : Bytes → Bytes
  argon2Hash : Bytes → Str → Str
  /-- `PasswordHash::new` and `Argon2::verify_password` -/
  argon2Verify : Str → Str → Bool

/-- Documented behaviour the results rely on: AES-GCM encrypts every message
of a length that occurs. -/
structure Primitives.Lawful (P : Primitives) : Prop where
  aead_total : ∀ key nonce text, (P.aeadEncrypt key nonce text).isSome = true

/-- Documented behaviour of the third-party functions: decoding, decryption and
verification accept what encoding, encryption and hashing have made. -/
structure Primitives.Inverse (P : Primitives) : Prop where
  base64 : ∀ bytes, P.b64decode (P.b64encode bytes) = some bytes
  base64_visible : ∀ bytes, bytes ≠ [] → isBlank (P.b64encode bytes) = false
  aead : ∀ key nonce text ciphertext, P.aeadEncrypt key nonce text = some ciphertext →
    P.aeadDecrypt key nonce ciphertext = some text
  aead_tag : ∀ key nonce text ciphertext, P.aeadEncrypt key nonce text = some ciphertext →
    16 ≤ ciphertext.length
  argon2 : ∀ salt password, P.argon2Verify (P.argon2Hash salt password) password = true

/-- An instance without any cryptography, to run the model on. -/
def Primitives.plain : Primitives where
  b64decode _ := some (List.replicate 32 0)
  b64encode bytes := bytes.map fun b => Char.ofNat b.toNat
  hkdf _ secret _ := secret
  aeadEncrypt _ _ text := some text
  aeadDecrypt _ _ text := some text
  parseJson _ := none
  sha256 bytes := bytes
  argon2Hash _ password := password
  argon2Verify hash password := hash = password

theorem Primitives.plain_lawful : Primitives.plain.Lawful := ⟨fun _ _ _ => rfl⟩

def PROTOCOL_VERSION : Nat := 1
def MAX_CLOCK_SKEW_SECONDS : Int := 300
def STORED_TEXT_VERSION : UInt8 := 1
def NONCE_LENGTH : Nat := 12
def AUTH_TAG_LENGTH : Nat := 16

/-- Base64 and the cipher as plain copies, with room for the tag. -/
def Primitives.copying : Primitives :=
  { Primitives.plain with
    b64decode := fun s => some (s.map fun c => UInt8.ofNat c.toNat)
    aeadEncrypt := fun _ _ text => some (text ++ List.replicate AUTH_TAG_LENGTH 0)
    aeadDecrypt := fun _ _ text => some (text.take (text.length - AUTH_TAG_LENGTH)) }

/-- Base64 as visible copies, and a cipher that adds a tag. -/
def Primitives.tagging : Primitives :=
  { Primitives.copying with
    b64encode := fun bytes => bytes.map fun b => Char.ofNat (b.toNat + 256) }

theorem tagging_bytes : ∀ b : Fin 256,
    UInt8.ofNat (Char.ofNat (b.1 + 256)).toNat = UInt8.ofNat b.1 ∧
      isWhitespace (Char.ofNat (b.1 + 256)) = false := by decide +kernel

theorem tagging_inverse : Primitives.tagging.Inverse := by
  refine ⟨fun bytes => ?_, fun bytes hne => ?_, fun _ _ text c h => ?_, fun _ _ text c h => ?_,
    fun _ p => ?_⟩
  · show some ((bytes.map _).map _) = some bytes
    rw [List.map_map]
    refine congrArg some ((List.map_congr_left fun b _ => ?_).trans (List.map_id bytes))
    exact ((tagging_bytes ⟨b.toNat, b.toNat_lt⟩).1).trans UInt8.ofNat_toNat
  · obtain ⟨b, bs, rfl⟩ := List.exists_cons_of_ne_nil hne
    rw [Bool.eq_false_iff, ne_eq, isBlank_iff]
    intro hall
    have := hall _ List.mem_cons_self
    rw [(tagging_bytes ⟨b.toNat, b.toNat_lt⟩).2] at this
    cases this
  · cases h; simp [Primitives.tagging, Primitives.copying]
  · cases h; simp [AUTH_TAG_LENGTH]
  · simp [Primitives.tagging, Primitives.copying, Primitives.plain]

def utf8 (s : Str) : Bytes := s.flatMap String.utf8EncodeChar

/-- `String::from_utf8`. -/
def fromUtf8 (bytes : Bytes) : Option Str := (String.fromUTF8? ⟨bytes.toArray⟩).map String.toList

def API_HKDF_INFO : Bytes := utf8 "frp-game-tool-api-v1".toList
def STORAGE_HKDF_INFO : Bytes := utf8 "frp-game-tool-storage-v1".toList

/-- mirrors crates/frp-game-common/src/crypto.rs:21-39 -/
inductive CryptoError where
  | unsupportedVersion
  | invalidBase64
  | invalidPayload
  | invalidSalt
  | invalidNonce
  | invalidCiphertext
  | missingTimestamp
  | expiredTimestamp
  deriving DecidableEq

def CryptoError.text : CryptoError → String
  | .unsupportedVersion => "unsupported protocol version"
  | .invalidBase64 => "invalid base64 field"
  | .invalidPayload => "invalid encrypted payload"
  | .invalidSalt => "invalid encryption salt"
  | .invalidNonce => "invalid nonce length"
  | .invalidCiphertext => "invalid ciphertext length"
  | .missingTimestamp => "missing timestamp"
  | .expiredTimestamp => "request timestamp expired"

/-- mirrors crates/frp-game-common/src/crypto.rs:41-46 -/
structure Envelope where
  version : Nat
  nonce : Str
  payload : Str
  deriving DecidableEq

section
variable (P : Primitives)

/-- mirrors crates/frp-game-common/src/crypto.rs:59-63 -/
def b64decode (value : Str) : Except CryptoError Bytes :=
  match P.b64decode value with
  | some bytes => .ok bytes
  | none => .error .invalidBase64

/-- mirrors crates/frp-game-common/src/crypto.rs:65-74; expanding HKDF-SHA256
to 32 bytes never fails. -/
def deriveKey (secret : Str) (salt info : Bytes) : Except CryptoError Bytes :=
  if ¬ (16 ≤ salt.length ∧ salt.length ≤ 64) ∨ secret = [] then .error .invalidSalt
  else .ok (P.hkdf salt (utf8 secret) info)

def orPayloadError {α : Type} : Option α → Except CryptoError α
  | some a => .ok a
  | none => .error .invalidPayload

/-- The clock-skew test; `now` is `now_unix()`.
mirrors crates/frp-game-common/src/crypto.rs:137 -/
def expired (now timestamp : Int) : Bool := i64Abs (i64Sub now timestamp) > MAX_CLOCK_SKEW_SECONDS

/-- mirrors crates/frp-game-common/src/crypto.rs:107-142 -/
def decryptPayload (secret saltB64 : Str) (envelope : Envelope) (now : Int) :
    Except CryptoError Value := do
  bailIf (envelope.version ≠ PROTOCOL_VERSION) .unsupportedVersion
  let salt ← b64decode P saltB64
  let nonce ← b64decode P envelope.nonce
  let ciphertext ← b64decode P envelope.payload
  bailIf (nonce.length ≠ NONCE_LENGTH) .invalidNonce
  bailIf (ciphertext.length < AUTH_TAG_LENGTH) .invalidCiphertext
  let key ← deriveKey P secret salt API_HKDF_INFO
  let plaintext ← orPayloadError (P.aeadDecrypt key nonce ciphertext)
  let data ← orPayloadError (P.parseJson plaintext)
  match (data.get "ts".toList).bind Value.asI64 with
  | none => .error .missingTimestamp
  | some timestamp => if expired now timestamp then .error .expiredTimestamp else .ok data

/-- mirrors crates/frp-game-common/src/crypto.rs:144-163; `nonce` is the
12 bytes drawn from `OsRng`. -/
def encryptStoredText (secret saltB64 plaintext : Str) (nonce : Bytes) : Except CryptoError Str := do
  let salt ← b64decode P saltB64
  let key ← deriveKey P secret salt STORAGE_HKDF_INFO
  let ciphertext ← orPayloadError (P.aeadEncrypt key nonce (utf8 plaintext))
  return P.b64encode (STORED_TEXT_VERSION :: (nonce ++ ciphertext))

/-- mirrors crates/frp-game-common/src/crypto.rs:165-186 -/
def decryptStoredText (secret saltB64 storedB64 : Str) : Except CryptoError Str := do
  let stored ← b64decode P storedB64
  bailIf (stored.head? ≠ some STORED_TEXT_VERSION) .unsupportedVersion
  bailIf (stored.length < 1 + NONCE_LENGTH + AUTH_TAG_LENGTH) .invalidCiphertext
  let nonce := (stored.drop 1).take NONCE_LENGTH
  let ciphertext := stored.drop (1 + NONCE_LENGTH)
  let salt ← b64decode P saltB64
  let key ← deriveKey P secret salt STORAGE_HKDF_INFO
  let plaintext ← orPayloadError (P.aeadDecrypt key nonce ciphertext)
  orPayloadError (fromUtf8 plaintext)

end

/-! ## Which stored texts can be written and read, which envelopes are fresh -/

/-- With a usable salt and a nonempty secret encryption succeeds. -/
theorem encryptStoredText_ok {P : Primitives} (hP : P.Lawful) {secret saltB64 : Str} {salt : Bytes}
    (hs : P.b64decode saltB64 = some salt) (hl : 16 ≤ salt.length ∧ salt.length ≤ 64)
    (hne : secret ≠ []) (plaintext : Str) (nonce : Bytes) :
    ∃ stored, encryptStoredText P secret saltB64 plaintext nonce = .ok stored := by
  obtain ⟨c, hc⟩ := Option.isSome_iff_exists.1
    (hP.aead_total (P.hkdf salt (utf8 secret) STORAGE_HKDF_INFO) nonce (utf8 plaintext))
  refine ⟨P.b64encode (STORED_TEXT_VERSION :: (nonce ++ c)), ?_⟩
  have hk : deriveKey P secret salt STORAGE_HKDF_INFO =
      .ok (P.hkdf salt (utf8 secret) STORAGE_HKDF_INFO) := if_neg (by tauto)
  simp only [encryptStoredText, b64decode, hs, hk, hc, orPayloadError, bind, Except.bind, pure,
    Except.pure]

theorem fromUtf8_utf8 (s : Str) : fromUtf8 (utf8 s) = some s := by
  have hbytes : (⟨(utf8 s).toArray⟩ : ByteArray) = (String.ofList s).toByteArray := by
    apply ByteArray.ext
    rw [String.toByteArray_ofList]
    exact List.data_toByteArray.symm
  have hdecoded : String.fromUTF8? (String.ofList s).toByteArray = some (String.ofList s) :=
    dif_pos (String.ofList s).isValidUTF8
  rw [fromUtf8, hbytes, hdecoded, Option.map_some, String.toList_ofList]

theorem orPayloadError_eq_ok {α : Type} {x : Option α} {a : α} :
    orPayloadError x = .ok a ↔ x = some a := by
  cases x <;> simp [orPayloadError]

/-- **A stored text can be read again** with the salt and the secret it was written with. -/
theorem decryptStoredText_encrypt {P : Primitives} (hP : P.Inverse)
    {secret saltB64 plaintext stored : Str} {nonce : Bytes} (hn : nonce.length = NONCE_LENGTH)
    (h : encryptStoredText P secret saltB64 plaintext nonce = .ok stored) :
    decryptStoredText P secret saltB64 stored = .ok plaintext ∧ isBlank stored = false := by
  obtain ⟨salt, hsalt, h⟩ := bind_eq_ok.1 h
  obtain ⟨key, hkey, h⟩ := bind_eq_ok.1 h
  obtain ⟨ciphertext, hc, h⟩ := bind_eq_ok.1 h
  cases h
  rw [orPayloadError_eq_ok] at hc
  have htag := hP.aead_tag _ _ _ _ hc
  have hplain := hP.aead _ _ _ _ hc
  have hdecode : b64decode P (P.b64encode (STORED_TEXT_VERSION :: (nonce ++ ciphertext))) =
      .ok (STORED_TEXT_VERSION :: (nonce ++ ciphertext)) := by rw [b64decode, hP.base64]
  refine ⟨bind_eq_ok.2 ⟨_, hdecode, ?_⟩, hP.base64_visible _ (List.cons_ne_nil _ _)⟩
  have hlen : 1 + NONCE_LENGTH + AUTH_TAG_LENGTH ≤
      (STORED_TEXT_VERSION :: (nonce ++ ciphertext)).length := by
    rw [List.length_cons, List.length_append]
    unfold AUTH_TAG_LENGTH
    omega
  have hnonce : ((STORED_TEXT_VERSION :: (nonce ++ ciphertext)).drop 1).take NONCE_LENGTH = nonce := by
    rw [← hn]; simp
  have hrest : (STORED_TEXT_VERSION :: (nonce ++ ciphertext)).drop (1 + NONCE_LENGTH) = ciphertext := by
    rw [← hn, Nat.add_comm]; simp
  refine bailIf_bind_eq_ok.2 ⟨by simp, bailIf_bind_eq_ok.2 ⟨Nat.not_lt.2 hlen, ?_⟩⟩
  refine bind_eq_ok.2 ⟨salt, hsalt, bind_eq_ok.2 ⟨key, hkey, bind_eq_ok.2 ⟨utf8 plaintext, ?_, ?_⟩⟩⟩
  · rw [hnonce, hrest, orPayloadError_eq_ok]; exact hplain
  · rw [orPayloadError_eq_ok]; exact fromUtf8_utf8 plaintext

/-- When an envelope is accepted, step by step. -/
theorem decryptPayload_eq_ok {P : Primitives} {secret saltB64 : Str} {envelope : Envelope} {now : Int}
    {data : Value} : decryptPayload P secret saltB64 envelope now = .ok data ↔
      envelope.version = PROTOCOL_VERSION ∧ ∃ salt nonce ciphertext key plaintext timestamp,
        b64decode P saltB64 = .ok salt ∧ b64decode P envelope.nonce = .ok nonce ∧
        b64decode P envelope.payload = .ok ciphertext ∧ nonce.length = NONCE_LENGTH ∧
        AUTH_TAG_LENGTH ≤ ciphertext.length ∧ deriveKey P secret salt API_HKDF_INFO = .ok key ∧
        P.aeadDecrypt key nonce ciphertext = some plaintext ∧ P.parseJson plaintext = some data ∧
        (data.get "ts".toList).bind Value.asI64 = some timestamp ∧ expired now timestamp = false := by
  unfold decryptPayload
  refine ⟨?_, ?_⟩
  · intro h
    obtain ⟨hversion, h⟩ := bailIf_bind_eq_ok.1 h
    obtain ⟨salt, hsalt, h⟩ := bind_eq_ok.1 h
    obtain ⟨nonce, hnonce, h⟩ := bind_eq_ok.1 h
    obtain ⟨ciphertext, hciphertext, h⟩ := bind_eq_ok.1 h
    obtain ⟨hlen, h⟩ := bailIf_bind_eq_ok.1 h
    obtain ⟨htag, h⟩ := bailIf_bind_eq_ok.1 h
    obtain ⟨key, hkey, h⟩ := bind_eq_ok.1 h
    obtain ⟨plaintext, hplain, h⟩ := bind_eq_ok.1 h
    obtain ⟨v, hv, h⟩ := bind_eq_ok.1 h
    split at h
    · cases h
    rename_i timestamp hts
    split at h
    · cases h
    rename_i hexp
    cases h
    exact ⟨not_not.1 hversion, salt, nonce, ciphertext, key, plaintext, timestamp, hsalt, hnonce,
      hciphertext, not_not.1 hlen, Nat.not_lt.1 htag, hkey, orPayloadError_eq_ok.1 hplain,
      orPayloadError_eq_ok.1 hv, hts, by simpa using hexp⟩
  · rintro ⟨hversion, salt, nonce, ciphertext, key, plaintext, timestamp, hsalt, hnonce, hciphertext,
      hlen, htag, hkey, hplain, hdata, hts, hexp⟩
    refine bailIf_bind_eq_ok.2 ⟨not_not.2 hversion, bind_eq_ok.2 ⟨salt, hsalt, bind_eq_ok.2 ⟨nonce, hnonce,
      bind_eq_ok.2 ⟨ciphertext, hciphertext, bailIf_bind_eq_ok.2 ⟨not_not.2 hlen,
      bailIf_bind_eq_ok.2 ⟨Nat.not_lt.2 htag, bind_eq_ok.2 ⟨key, hkey, bind_eq_ok.2 ⟨plaintext,
      orPayloadError_eq_ok.2 hplain, bind_eq_ok.2 ⟨data, orPayloadError_eq_ok.2 hdata, ?_⟩⟩⟩⟩⟩⟩⟩⟩⟩
    simp only [hts, hexp, Bool.false_eq_true, if_false]

end OrangeFrp
