import OrangeFrp.Storage.Store

/-!
# Legacy files (`frp-game-server/src/storage.rs`)

What the derived `Deserialize` of the legacy structs and of `Tunnel` makes of a
JSON value. A struct is read from an object by the names of its fields, or from
an array by their positions; a field with `#[serde(default)]` may be missing.
The message `serde_json` has for a value it rejects is a parameter (`reject`).

* `multiUser_document`: the file of one user and the file of several users that
  lists this user alone, with zero counters, are the same configuration.
-/
namespace OrangeFrp.Storage

open OrangeFrp.Core

/-! ## Structs -/

/-- The fields of a struct with the given names. -/
def structFields (names : List String) : Value → Option (String → Option Value)
  | .obj fields => some fun name => (Value.obj fields).get name.toList
  | .arr items => if items.length ≤ names.length then some fun name => (names.zip items).lookup name else none
  | _ => none

/-- A field without a default. -/
def required {α : Type} (fields : String → Option Value) (name : String) (parse : Value → Option α) : Option α :=
  (fields name).bind parse

/-- A field with `#[serde(default)]`. -/
def optional {α : Type} (fields : String → Option Value) (name : String) (default : α)
    (parse : Value → Option α) : Option α :=
  match fields name with
  | none => some default
  | some value => parse value

def asU16 (value : Value) : Option Port :=
  value.asU64.bind fun n => if n < UInt16.size then some (UInt16.ofNat n) else none

def asU32 (value : Value) : Option Nat :=
  value.asU64.bind fun n => if n < UInt32.size then some n else none

def asVec {α : Type} (parse : Value → Option α) : Value → Option (List α)
  | .arr items => items.mapM parse
  | _ => none

def asMap {α : Type} (parse : Value → Option α) : Value → Option (Assoc Str α)
  | .obj fields => (fields.mapM fun field => (parse field.2).map (Sigma.mk field.1)).map List.toAList
  | _ => none

/-- mirrors crates/frp-game-common/src/model.rs:35-47 -/
def asTunnel (value : Value) : Option Tunnel := do
  let fields ← structFields ["id", "proxy_name", "protocol", "name", "remark", "local_ip", "local_port",
    "remote_port", "backend_port"] value
  return {
    id := ← required fields "id" Value.asStr
    proxyName := ← required fields "proxy_name" Value.asStr
    protocol := ← required fields "protocol" Value.asStr
    name := ← required fields "name" Value.asStr
    remark := ← required fields "remark" Value.asStr
    localIp := ← required fields "local_ip" Value.asStr
    localPort := ← required fields "local_port" asU16
    remotePort := ← required fields "remote_port" asU16
    backendPort := ← optional fields "backend_port" 0 asU16 }

/-- mirrors crates/frp-game-server/src/storage.rs:1057-1067 -/
def asLegacyTrafficRecord (value : Value) : Option LegacyTrafficRecord := do
  let fields ← structFields ["protocol", "remote_port", "traffic_in_bytes", "traffic_out_bytes"] value
  return {
    protocol := ← optional fields "protocol" [] Value.asStr
    remotePort := ← optional fields "remote_port" 0 asU16
    trafficInBytes := ← optional fields "traffic_in_bytes" 0 Value.asU64
    trafficOutBytes := ← optional fields "traffic_out_bytes" 0 Value.asU64 }

def userNames : List String := ["account", "password", "secret", "tunnels", "tunnel_limit",
  "traffic_limit_bytes", "traffic_used_bytes", "speed_limit_mbps", "traffic_by_proxy", "created_at", "updated_at"]

/-- mirrors crates/frp-game-server/src/storage.rs:1034-1055,1090-1092 -/
def asLegacyUser (value : Value) : Option LegacyUser := do
  let fields ← structFields userNames value
  return {
    account := ← required fields "account" Value.asStr
    password := ← required fields "password" Value.asStr
    secret := ← required fields "secret" Value.asStr
    tunnels := ← optional fields "tunnels" [] (asVec asTunnel)
    tunnelLimit := ← optional fields "tunnel_limit" DEFAULT_TUNNEL_LIMIT asU32
    trafficLimitBytes := ← optional fields "traffic_limit_bytes" 0 Value.asU64
    trafficUsedBytes := ← optional fields "traffic_used_bytes" 0 Value.asU64
    speedLimitMbps := ← optional fields "speed_limit_mbps" 0 asU32
    trafficByProxy := ← optional fields "traffic_by_proxy" ∅ (asMap asLegacyTrafficRecord)
    createdAt := ← optional fields "created_at" 0 Value.asI64
    updatedAt := ← optional fields "updated_at" 0 Value.asI64 }

def serverNames : List String := ["api_salt", "api_bind", "api_port", "frps_bind_port", "frps_token",
  "frps_binary", "users", "created_at", "updated_at"]

/-- mirrors crates/frp-game-server/src/storage.rs:1018-1032 -/
def asLegacyServerConfig (value : Value) : Option LegacyServerConfig := do
  let fields ← structFields serverNames value
  return {
    apiSalt := ← required fields "api_salt" Value.asStr
    apiBind := ← required fields "api_bind" Value.asStr
    apiPort := ← required fields "api_port" asU16
    frpsBindPort := ← required fields "frps_bind_port" asU16
    frpsToken := ← required fields "frps_token" Value.asStr
    frpsBinary := ← required fields "frps_binary" Value.asStr
    users := ← optional fields "users" [] (asVec asLegacyUser)
    createdAt := ← optional fields "created_at" 0 Value.asI64
    updatedAt := ← optional fields "updated_at" 0 Value.asI64 }

def singleNames : List String := ["account", "password", "secret", "api_salt", "api_bind", "api_port",
  "frps_bind_port", "frps_token", "frps_binary", "tunnels", "tunnel_limit", "created_at", "updated_at"]

/-- mirrors crates/frp-game-server/src/storage.rs:1069-1088 -/
def asLegacySingleConfig (value : Value) : Option LegacySingleConfig := do
  let fields ← structFields singleNames value
  return {
    account := ← required fields "account" Value.asStr
    password := ← required fields "password" Value.asStr
    secret := ← required fields "secret" Value.asStr
    apiSalt := ← required fields "api_salt" Value.asStr
    apiBind := ← required fields "api_bind" Value.asStr
    apiPort := ← required fields "api_port" asU16
    frpsBindPort := ← required fields "frps_bind_port" asU16
    frpsToken := ← required fields "frps_token" Value.asStr
    frpsBinary := ← required fields "frps_binary" Value.asStr
    tunnels := ← optional fields "tunnels" [] (asVec asTunnel)
    tunnelLimit := ← optional fields "tunnel_limit" DEFAULT_TUNNEL_LIMIT asU32
    createdAt := ← optional fields "created_at" 0 Value.asI64
    updatedAt := ← optional fields "updated_at" 0 Value.asI64 }

/-- mirrors crates/frp-game-server/src/storage.rs:872-876 -/
def legacyDocument (reject : Value → String) (value : Value) : LegacyDocument :=
  if (value.get "users".toList).isSome then
    match asLegacyServerConfig value with
    | some config => .server config
    | none => .invalid (reject value)
  else
    match asLegacySingleConfig value with
    | some config => .single config
    | none => .invalid (reject value)

/-! ## One user, in a file of several -/

/-- An object with the fields that are there. -/
def objectOf (names : List String) (fields : String → Option Value) : Value :=
  .obj (names.filterMap fun name => (fields name).map (name.toList, ·))

/-- The fields with one of the names. -/
def listed (names : List String) (fields : String → Option Value) (name : String) : Option Value :=
  if name ∈ names then fields name else none

def counterNames : List String := ["traffic_limit_bytes", "traffic_used_bytes", "speed_limit_mbps"]

/-- A user without counters. -/
def userFields (fields : String → Option Value) (name : String) : Option Value :=
  if name ∈ counterNames then some (.int 0)
  else if name = "traffic_by_proxy" then some (.obj [])
  else fields name

def serverFields (fields : String → Option Value) (name : String) : Option Value :=
  if name = "users" then some (.arr [objectOf userNames (userFields fields)]) else fields name

/-- The file of several users that lists the user of a file of one. -/
def multiUser (value : Value) : Value :=
  match structFields singleNames value with
  | some fields => objectOf serverNames (serverFields fields)
  | none => value

theorem get_objectOf (names : List String) (fields : String → Option Value) (name : String) :
    (objectOf names fields).get name.toList = listed names fields name := by
  unfold listed
  induction names with
  | nil => rfl
  | cons n names ih =>
    unfold objectOf Value.get at ih ⊢
    simp only at ih ⊢
    cases hf : fields n with
    | none =>
      rw [List.filterMap_cons_none (by rw [hf]; rfl), ih]
      by_cases hn : name = n
      · subst hn
        simp [hf]
      · simp [hn]
    | some value =>
      rw [List.filterMap_cons_some (by rw [hf]; rfl), List.find?_cons]
      by_cases hn : name = n
      · subst hn
        simp [hf]
      · have hkey : n.toList ≠ name.toList := fun h => hn (String.toList_inj.1 h).symm
        simp only [decide_eq_false hkey, ih, List.mem_cons, hn, false_or]

theorem structFields_objectOf (names : List String) (fields : String → Option Value) :
    structFields names (objectOf names fields) = some (listed names fields) :=
  congrArg some (funext (get_objectOf names fields))

section
variable {α : Type} {names : List String} {fields : String → Option Value} {name : String} {parse : Value → Option α}

theorem listed_mem (h : name ∈ names) : listed names fields name = fields name := if_pos h

theorem userFields_other (h : name ∉ "traffic_by_proxy" :: counterNames) : userFields fields name = fields name := by
  rw [List.mem_cons, not_or] at h
  rw [userFields, if_neg h.2, if_neg h.1]

/-- What is read from the user of the new file. -/
theorem required_user {a : α} (hn : name ∈ userNames) (ho : name ∉ "traffic_by_proxy" :: counterNames)
    (h : required fields name parse = some a) :
    required (listed userNames (userFields fields)) name parse = some a := by
  rwa [required, listed_mem hn, userFields_other ho]

theorem optional_user {a default : α} (hn : name ∈ userNames) (ho : name ∉ "traffic_by_proxy" :: counterNames)
    (h : optional fields name default parse = some a) :
    optional (listed userNames (userFields fields)) name default parse = some a := by
  rwa [optional, listed_mem hn, userFields_other ho]

/-- What is read from the new file itself. -/
theorem required_server {a : α} (hn : name ∈ serverNames) (ho : name ≠ "users")
    (h : required fields name parse = some a) :
    required (listed serverNames (serverFields fields)) name parse = some a := by
  rwa [required, listed_mem hn, serverFields, if_neg ho]

theorem optional_server {a default : α} (hn : name ∈ serverNames) (ho : name ≠ "users")
    (h : optional fields name default parse = some a) :
    optional (listed serverNames (serverFields fields)) name default parse = some a := by
  rwa [optional, listed_mem hn, serverFields, if_neg ho]

end

/-- **Two shapes.** The file of one user and the file of several that lists this user alone,
with zero counters, are the same configuration. -/
theorem multiUser_document {reject : Value → String} {value : Value} {legacy : LegacyServerConfig}
    (h : (legacyDocument reject value).serverConfig = .ok legacy)
    (hs : (value.get "users".toList).isSome = false) :
    legacyDocument reject (multiUser value) = .server legacy := by
  unfold legacyDocument at h
  rw [if_neg (by rw [hs]; decide)] at h
  split at h
  · rename_i config hc
    unfold asLegacySingleConfig at hc
    obtain ⟨fields, hf, hc⟩ := Option.bind_eq_some_iff.1 hc
    have hmulti : multiUser value = objectOf serverNames (serverFields fields) := by
      rw [multiUser, hf]
    obtain ⟨account, haccount, hc⟩ := Option.bind_eq_some_iff.1 hc
    obtain ⟨password, hpassword, hc⟩ := Option.bind_eq_some_iff.1 hc
    obtain ⟨secret, hsecret, hc⟩ := Option.bind_eq_some_iff.1 hc
    obtain ⟨apiSalt, hsalt, hc⟩ := Option.bind_eq_some_iff.1 hc
    obtain ⟨apiBind, hbind, hc⟩ := Option.bind_eq_some_iff.1 hc
    obtain ⟨apiPort, hport, hc⟩ := Option.bind_eq_some_iff.1 hc
    obtain ⟨frpsBindPort, hfrps, hc⟩ := Option.bind_eq_some_iff.1 hc
    obtain ⟨frpsToken, htoken, hc⟩ := Option.bind_eq_some_iff.1 hc
    obtain ⟨frpsBinary, hbinary, hc⟩ := Option.bind_eq_some_iff.1 hc
    obtain ⟨tunnels, htunnels, hc⟩ := Option.bind_eq_some_iff.1 hc
    obtain ⟨tunnelLimit, hlimit, hc⟩ := Option.bind_eq_some_iff.1 hc
    obtain ⟨createdAt, hcreated, hc⟩ := Option.bind_eq_some_iff.1 hc
    obtain ⟨updatedAt, hupdated, hc⟩ := Option.bind_eq_some_iff.1 hc
    cases hc
    cases h
    have huser : asLegacyUser (objectOf userNames (userFields fields)) = some {
        account, password, secret, tunnels, tunnelLimit, trafficLimitBytes := 0, trafficUsedBytes := 0,
        speedLimitMbps := 0, trafficByProxy := ∅, createdAt, updatedAt } := by
      unfold asLegacyUser
      rw [structFields_objectOf]
      rw [Option.bind_eq_bind, Option.bind_some]
      rw [required_user (by decide) (by decide) haccount, required_user (by decide) (by decide) hpassword,
        required_user (by decide) (by decide) hsecret, optional_user (by decide) (by decide) htunnels,
        optional_user (by decide) (by decide) hlimit, optional_user (by decide) (by decide) hcreated,
        optional_user (by decide) (by decide) hupdated]
      rfl
    have hfile : asLegacyServerConfig (objectOf serverNames (serverFields fields)) = some {
        apiSalt, apiBind, apiPort, frpsBindPort, frpsToken, frpsBinary, createdAt, updatedAt,
        users := [{
          account, password, secret, tunnels, tunnelLimit, trafficLimitBytes := 0, trafficUsedBytes := 0,
          speedLimitMbps := 0, trafficByProxy := ∅, createdAt, updatedAt }] } := by
      have husers : optional (listed serverNames (serverFields fields)) "users" [] (asVec asLegacyUser) =
          (asLegacyUser (objectOf userNames (userFields fields))).bind fun u => some [u] := rfl
      unfold asLegacyServerConfig
      rw [structFields_objectOf, Option.bind_eq_bind, Option.bind_some]
      rw [required_server (by decide) (by decide) hsalt, required_server (by decide) (by decide) hbind,
        required_server (by decide) (by decide) hport, required_server (by decide) (by decide) hfrps,
        required_server (by decide) (by decide) htoken, required_server (by decide) (by decide) hbinary,
        husers, huser, optional_server (by decide) (by decide) hcreated,
        optional_server (by decide) (by decide) hupdated]
      rfl
    unfold legacyDocument
    rw [hmulti, get_objectOf, if_pos (by rfl), hfile]
  · cases h

end OrangeFrp.Storage
