import OrangeFrp.Common.Envelopes
import OrangeFrp.Common.Model

/-!
# Records in JSON (`frp-game-common/src/model.rs`)

What the derived `Serialize` and `Deserialize` of the records do. A record is written as an
object. It is read from an object, whatever else that has, or from an array of its fields
in order, from whose end fields with a default may be missing.

* `Tunnel.ofValue_toValue`: a tunnel is read as it was written.
* `Tunnel.listOfValue_toValue`: so is a list of them.
-/
namespace OrangeFrp

open OrangeFrp.Core

namespace Value

/-! ## Equality -/

mutual

def same : Value → Value → Bool
  | .null, .null => true
  | .bool a, .bool b => decide (a = b)
  | .int n, .int m => decide (n = m)
  | .float, .float => true
  | .str s, .str t => decide (s = t)
  | .arr vs, .arr ws => sameItems vs ws
  | .obj fs, .obj gs => sameFields fs gs
  | _, _ => false
termination_by structural v => v

def sameItems : List Value → List Value → Bool
  | [], [] => true
  | v :: vs, w :: ws => same v w && sameItems vs ws
  | _, _ => false
termination_by structural v => v

def sameField : Str × Value → Str × Value → Bool
  | (k, v), (l, w) => decide (k = l) && same v w
termination_by structural v => v

def sameFields : List (Str × Value) → List (Str × Value) → Bool
  | [], [] => true
  | f :: fs, g :: gs => sameField f g && sameFields fs gs
  | _, _ => false
termination_by structural v => v

end

mutual

theorem same_iff : (v w : Value) → (same v w = true ↔ v = w)
  | .null, w => by cases w <;> simp [same]
  | .bool b, w => by cases w <;> simp [same]
  | .int n, w => by cases w <;> simp [same]
  | .float, w => by cases w <;> simp [same]
  | .str s, w => by cases w <;> simp [same]
  | .arr vs, w => by cases w <;> simp [same, sameItems_iff vs]
  | .obj fs, w => by cases w <;> simp [same, sameFields_iff fs]

theorem sameItems_iff : (vs ws : List Value) → (sameItems vs ws = true ↔ vs = ws)
  | [], ws => by cases ws <;> simp [sameItems]
  | v :: vs, ws => by cases ws <;> simp [sameItems, same_iff v, sameItems_iff vs]

theorem sameField_iff : (f g : Str × Value) → (sameField f g = true ↔ f = g)
  | (k, v), (l, w) => by simp [sameField, same_iff v]

theorem sameFields_iff : (fs gs : List (Str × Value)) → (sameFields fs gs = true ↔ fs = gs)
  | [], gs => by cases gs <;> simp [sameFields]
  | f :: fs, gs => by cases gs <;> simp [sameFields, sameField_iff f, sameFields_iff fs]

end

instance : DecidableEq Value := fun v w => decidable_of_iff (v.same w = true) (same_iff v w)

/-! ## Fields -/

/-- The value is an object, or an array of at most so many fields. -/
def isRecord (count : Nat) : Value → Bool
  | .obj _ => true
  | .arr items => items.length ≤ count
  | _ => false

/-- A field, by its name in an object and by its place in an array. -/
def field (index : Nat) (key : Str) : Value → Option Value
  | .obj fields => (Value.obj fields).get key
  | .arr items => items[index]?
  | _ => none

def asBool : Value → Option Bool
  | .bool b => some b
  | _ => none

/-- An unsigned number of at most `max`. -/
def asUint (max : Nat) : Value → Option Nat
  | .int n => if 0 ≤ n ∧ n ≤ max then some n.toNat else none
  | _ => none

def asPort (v : Value) : Option Port := (v.asUint 65535).map UInt16.ofNat

def asList {α : Type} (decode : Value → Option α) : Value → Option (List α)
  | .arr items => items.mapM decode
  | _ => none

/-- A field without a default. -/
def required {α : Type} (v : Value) (index : Nat) (key : Str) (decode : Value → Option α) : Option α :=
  (v.field index key).bind decode

/-- A field with a default. -/
def defaulted {α : Type} (v : Value) (index : Nat) (key : Str) (default : α) (decode : Value → Option α) : Option α :=
  match v.field index key with
  | none => some default
  | some w => decode w

def ofNat (n : Nat) : Value := .int n

def ofPort (port : Port) : Value := ofNat port.toNat

section
variable {α : Type} {fields : List (Str × Value)} {index i : Nat} {key : Str} {v : Value} {decode : Value → Option α}
  {a : α}

theorem field_object (hn : (fields.map Prod.fst).Nodup) (hi : fields[i]? = some (key, v)) :
    (object fields).field index key = some v := by
  show (Value.obj (Members.ofList fields)).get key = some v
  rw [get_obj, Members.find_of_mem hn (List.mem_of_getElem? hi)]

/-- A field is read back, from its place among the members that were written. -/
theorem required_object (hn : (fields.map Prod.fst).Nodup) (i : Nat) (hi : fields[i]? = some (key, v))
    (hd : decode v = some a) : (object fields).required index key decode = some a := by
  rw [required, field_object hn hi, Option.bind_some, hd]

theorem defaulted_object (hn : (fields.map Prod.fst).Nodup) (i : Nat) (hi : fields[i]? = some (key, v))
    (hd : decode v = some a) {default : α} : (object fields).defaulted index key default decode = some a := by
  rw [defaulted, field_object hn hi]
  exact hd

end

theorem asUint_ofNat {max n : Nat} (h : n ≤ max) : (ofNat n).asUint max = some n := by
  have hrange : (0 : Int) ≤ (n : Int) ∧ (n : Int) ≤ (max : Int) := ⟨by omega, by omega⟩
  simp [ofNat, asUint, hrange]

theorem asPort_ofPort (port : Port) : (ofPort port).asPort = some port := by
  rw [asPort, ofPort, asUint_ofNat (Nat.le_of_lt_succ port.toNat_lt), Option.map_some, UInt16.ofNat_toNat]

theorem asList_map {α : Type} {encode : α → Value} {decode : Value → Option α} {as : List α}
    (h : ∀ a ∈ as, decode (encode a) = some a) : (Value.arr (as.map encode)).asList decode = some as := by
  show (as.map encode).mapM decode = some as
  induction as with
  | nil => rfl
  | cons a as ih =>
    rw [List.map_cons, List.mapM_cons, h a List.mem_cons_self, ih fun b hb => h b (List.mem_cons_of_mem a hb)]
    rfl

end Value

/-! ## Tunnels -/

/-- mirrors crates/frp-game-common/src/model.rs:35-47 -/
def Tunnel.fields (t : Tunnel) : List (Str × Value) := [
  ("id".toList, .str t.id),
  ("proxy_name".toList, .str t.proxyName),
  ("protocol".toList, .str t.protocol),
  ("name".toList, .str t.name),
  ("remark".toList, .str t.remark),
  ("local_ip".toList, .str t.localIp),
  ("local_port".toList, .ofPort t.localPort),
  ("remote_port".toList, .ofPort t.remotePort),
  ("backend_port".toList, .ofPort t.backendPort)]

def Tunnel.toValue (t : Tunnel) : Value := .object t.fields

/-- mirrors crates/frp-game-common/src/model.rs:35-47 -/
def Tunnel.ofValue (v : Value) : Option Tunnel := do
  guard (v.isRecord 9)
  let id ← v.required 0 "id".toList Value.asStr
  let proxyName ← v.required 1 "proxy_name".toList Value.asStr
  let protocol ← v.required 2 "protocol".toList Value.asStr
  let name ← v.required 3 "name".toList Value.asStr
  let remark ← v.required 4 "remark".toList Value.asStr
  let localIp ← v.required 5 "local_ip".toList Value.asStr
  let localPort ← v.required 6 "local_port".toList Value.asPort
  let remotePort ← v.required 7 "remote_port".toList Value.asPort
  let backendPort ← v.defaulted 8 "backend_port".toList 0 Value.asPort
  return ⟨id, proxyName, protocol, name, remark, localIp, localPort, remotePort, backendPort⟩

theorem Tunnel.fields_nodup (t : Tunnel) : (t.fields.map Prod.fst).Nodup := by
  show (["id", "proxy_name", "protocol", "name", "remark", "local_ip", "local_port", "remote_port",
    "backend_port"].map String.toList).Nodup
  decide +kernel

/-- **A tunnel is read as it was written.** -/
theorem Tunnel.ofValue_toValue (t : Tunnel) : Tunnel.ofValue t.toValue = some t := by
  have hn := t.fields_nodup
  have hstr (s : Str) : (Value.str s).asStr = some s := rfl
  unfold Tunnel.ofValue Tunnel.toValue
  rw [Value.required_object hn 0 rfl (hstr _), Value.required_object hn 1 rfl (hstr _),
    Value.required_object hn 2 rfl (hstr _), Value.required_object hn 3 rfl (hstr _),
    Value.required_object hn 4 rfl (hstr _), Value.required_object hn 5 rfl (hstr _),
    Value.required_object hn 6 rfl (Value.asPort_ofPort _), Value.required_object hn 7 rfl (Value.asPort_ofPort _),
    Value.defaulted_object hn 8 rfl (Value.asPort_ofPort _)]
  rfl

def Tunnel.listToValue (ts : List Tunnel) : Value := .arr (ts.map Tunnel.toValue)

def Tunnel.listOfValue (v : Value) : Option (List Tunnel) := v.asList Tunnel.ofValue

theorem Tunnel.listOfValue_toValue (ts : List Tunnel) : Tunnel.listOfValue (Tunnel.listToValue ts) = some ts :=
  Value.asList_map fun t _ => t.ofValue_toValue

end OrangeFrp
