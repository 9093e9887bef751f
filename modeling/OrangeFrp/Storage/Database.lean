import OrangeFrp.Core.Table
import OrangeFrp.Storage.Valid

/-!
# The SQLite database (`frp-game-server/src/storage.rs`)

The four tables of `create_schema` with their constraints, `write_snapshot`
(one transaction: settings, deletion of missing users, then for each user its
row, its tunnels and its traffic records, and last the deletion of stale
tunnels) and the `SELECT`s of `read`.

A column written through `sql_i64` is kept as the natural number it came from,
which `sql_u64` gives back; columns written from `u16`, `u32` and `bool` are
kept at those types.

* `writeSnapshot_ok_iff`: when a snapshot is written, table by table.
* `writeSnapshot_holds`: a snapshot of distinct keys leaves exactly the users
  and the tunnels of the configuration.
* `writeSnapshot_traffic`: a proxy name is left with the last record written
  under it, made inactive when a tunnel row of that name was stale.
* `loadConfig_holds`: what a database of that shape reads back as.
-/
namespace OrangeFrp.Storage

open OrangeFrp.Core

/-! ## Tables -/

/-- mirrors crates/frp-game-server/src/storage.rs:393-406 -/
structure SettingsRow where
  revision : Int
  apiSalt : Str
  apiBind : Str
  apiPort : Port
  frpsBindPort : Port
  frpsToken : Str
  frpsBinary : Str
  pluginPort : Port
  publicBind : Str
  createdAt : Int
  updatedAt : Int
  deriving DecidableEq

/-- mirrors crates/frp-game-server/src/storage.rs:407-419 -/
structure UserRow where
  id : Str
  account : Str
  passwordHash : Str
  passwordEncrypted : Str
  secret : Str
  tunnelLimit : Nat
  trafficLimitBytes : Nat
  trafficUsedBytes : Nat
  speedLimitMbps : Nat
  createdAt : Int
  updatedAt : Int
  deriving DecidableEq

/-- mirrors crates/frp-game-server/src/storage.rs:420-432 -/
structure TunnelRow extends Tunnel where
  userId : Str
  deriving DecidableEq

/-- mirrors crates/frp-game-server/src/storage.rs:433-441 -/
structure TrafficRow extends ProxyTrafficRecord where
  proxyName : Str
  userId : Str
  deriving DecidableEq

/-- `id` is the key; `account` and `secret` are unique. -/
def userSchema : Schema UserRow Str where
  name := "users"
  key r := r.id
  clash x y := x.account = y.account || x.secret = y.secret
  check _ := true
  clash_comm x y := by simp only [eq_comm (a := x.account), eq_comm (a := x.secret)]

/-- `id` is the key; `proxy_name`, `backend_port` and the pair of protocol and
public port are unique; the protocol is one of two. -/
def tunnelSchema : Schema TunnelRow Str where
  name := "tunnels"
  key r := r.id
  clash x y := x.proxyName = y.proxyName || x.backendPort = y.backendPort || x.publicKey = y.publicKey
  check r := r.protocol = tcp || r.protocol = udp
  clash_comm x y := by
    simp only [eq_comm (a := x.proxyName), eq_comm (a := x.backendPort), eq_comm (a := x.publicKey)]

/-- `proxy_name` alone is the key. -/
def trafficSchema : Schema TrafficRow Str where
  name := "traffic_records"
  key r := r.proxyName
  clash _ _ := false
  check _ := true
  clash_comm _ _ := rfl

structure Db where
  settings : Option SettingsRow
  users : Table userSchema
  tunnels : Table tunnelSchema
  traffic : Table trafficSchema
  deriving DecidableEq

/-- The tables `create_schema` creates. -/
def Db.empty : Db := ⟨none, .empty _, .empty _, .empty _⟩

def SettingsRow.of (c : ServerConfig) : SettingsRow where
  revision := c.revision
  apiSalt := c.apiSalt
  apiBind := c.apiBind
  apiPort := c.apiPort
  frpsBindPort := c.frpsBindPort
  frpsToken := c.frpsToken
  frpsBinary := c.frpsBinary
  pluginPort := c.pluginPort
  publicBind := c.publicBind
  createdAt := c.createdAt
  updatedAt := c.updatedAt

def UserRow.of (u : ServerUser) : UserRow where
  id := u.id
  account := u.account
  passwordHash := u.passwordHash
  passwordEncrypted := u.passwordEncrypted
  secret := u.secret
  tunnelLimit := u.tunnelLimit
  trafficLimitBytes := u.trafficLimitBytes
  trafficUsedBytes := u.trafficUsedBytes
  speedLimitMbps := u.speedLimitMbps
  createdAt := u.createdAt
  updatedAt := u.updatedAt

def TunnelRow.of (userId : Str) (t : Tunnel) : TunnelRow := { t with userId := userId }

/-- A record is written as active when the user has a tunnel of that name.
mirrors crates/frp-game-server/src/storage.rs:715-723 -/
def TrafficRow.of (u : ServerUser) (proxyName : Str) (record : ProxyTrafficRecord) : TrafficRow where
  toProxyTrafficRecord :=
    { record with active := proxyName ∈ u.tunnels.map (·.proxyName) || record.active }
  proxyName := proxyName
  userId := u.id

/-! ## `write_snapshot` -/

/-- mirrors crates/frp-game-server/src/storage.rs:984-986 -/
def sqlI64 (value : Nat) : Except String Nat :=
  if (value : Int) ≤ I64_MAX then .ok value else .error "流量数值超过 SQLite INTEGER 范围"

/-- `ON DELETE CASCADE` removes the tunnels and the records of a deleted user.
mirrors crates/frp-game-server/src/storage.rs:619-629 -/
def deleteMissingUsers (db : Db) (users : List ServerUser) : Db :=
  { db with
    users := db.users.filter fun r => r.id ∈ users.map (·.id)
    tunnels := db.tunnels.filter fun r =>
      !(r.userId ∈ db.users.rows.map (·.id) && r.userId ∉ users.map (·.id))
    traffic := db.traffic.filter fun r =>
      !(r.userId ∈ db.users.rows.map (·.id) && r.userId ∉ users.map (·.id)) }

/-- `REFERENCES users(id)`. -/
def checkOwner (users : Table userSchema) (userId : Str) : Except String Unit :=
  bailIf (userId ∉ users.rows.map (·.id)) "FOREIGN KEY constraint failed"

def tunnelRows (u : ServerUser) : List TunnelRow := u.tunnels.map (TunnelRow.of u.id)

def trafficRows (u : ServerUser) : List TrafficRow :=
  u.trafficByProxy.entries.map fun e => TrafficRow.of u e.1 e.2

/-- mirrors crates/frp-game-server/src/storage.rs:702-725 -/
def writeTraffic (table : Table trafficSchema) : List TrafficRow → Except String (Table trafficSchema)
  | [] => .ok table
  | r :: rs => do
    let _ ← sqlI64 r.trafficInBytes
    let _ ← sqlI64 r.trafficOutBytes
    let table ← table.upsert r
    writeTraffic table rs

/-- mirrors crates/frp-game-server/src/storage.rs:632-726 -/
def writeUser (db : Db) (u : ServerUser) : Except String Db := do
  let _ ← sqlI64 u.trafficLimitBytes
  let _ ← sqlI64 u.trafficUsedBytes
  let users ← db.users.upsert (UserRow.of u)
  checkOwner users u.id
  let tunnels ← db.tunnels.upsertAll (tunnelRows u)
  let traffic ← writeTraffic db.traffic (trafficRows u)
  return { db with users := users, tunnels := tunnels, traffic := traffic }

def writeUsers (db : Db) : List ServerUser → Except String Db
  | [] => .ok db
  | u :: us => do
    let db ← writeUser db u
    writeUsers db us

theorem setInactive_unconstrained (p : TrafficRow → Bool) :
    Table.Unconstrained trafficSchema fun r => { r with active := r.active && p r } :=
  ⟨fun _ => rfl, fun _ _ => rfl, fun _ => rfl⟩

/-- Deletes the tunnels that no user has and clears the flag of their records.
mirrors crates/frp-game-server/src/storage.rs:728-746 -/
def deleteStaleTunnels (db : Db) (current : List Str) : Db :=
  let stale := (db.tunnels.rows.filter fun r => r.id ∉ current).map (·.proxyName)
  { db with
    tunnels := db.tunnels.filter fun r => r.id ∈ current
    traffic := db.traffic.update _ (setInactive_unconstrained fun r => r.proxyName ∉ stale) }

/-- mirrors crates/frp-game-server/src/storage.rs:586-748 -/
def writeSnapshot (db : Db) (c : ServerConfig) : Except String Db := do
  let db := { db with settings := some (SettingsRow.of c) }
  let db ← writeUsers (deleteMissingUsers db c.users) c.users
  return deleteStaleTunnels db (c.tunnels.map (·.id))

/-! ## `read` -/

def SettingsRow.config (s : SettingsRow) (users : List ServerUser) : ServerConfig where
  revision := s.revision
  apiSalt := s.apiSalt
  apiBind := s.apiBind
  apiPort := s.apiPort
  frpsBindPort := s.frpsBindPort
  frpsToken := s.frpsToken
  frpsBinary := s.frpsBinary
  pluginPort := s.pluginPort
  publicBind := s.publicBind
  users := users
  createdAt := s.createdAt
  updatedAt := s.updatedAt

/-- `ORDER BY user_id, public_port, protocol`, within one user. -/
def TunnelRow.before (x y : TunnelRow) : Prop :=
  x.remotePort < y.remotePort ∨ (x.remotePort = y.remotePort ∧ x.protocol ≤ y.protocol)

instance (x y : TunnelRow) : Decidable (x.before y) := by unfold TunnelRow.before; infer_instance

/-- The tunnels stored for a user, in the order they are read. -/
def Db.tunnelsOf (db : Db) (userId : Str) : List Tunnel :=
  ((db.tunnels.rows.filter fun r => r.userId = userId).insertionSort TunnelRow.before).map
    (·.toTunnel)

/-- The records stored for a user. -/
def Db.trafficOf (db : Db) (userId : Str) : Assoc Str ProxyTrafficRecord where
  entries := (db.traffic.rows.filter fun r => r.userId = userId).map
    fun r => ⟨r.proxyName, r.toProxyTrafficRecord⟩
  nodupKeys := by
    rw [List.NodupKeys, List.keys, List.map_map]
    exact (List.filter_sublist.map _).nodup db.traffic.pk

/-- mirrors crates/frp-game-server/src/storage.rs:168-184 -/
def UserRow.user (r : UserRow) (db : Db) : ServerUser where
  id := r.id
  account := r.account
  passwordHash := r.passwordHash
  passwordEncrypted := r.passwordEncrypted
  secret := r.secret
  tunnels := db.tunnelsOf r.id
  tunnelLimit := r.tunnelLimit
  trafficLimitBytes := r.trafficLimitBytes
  trafficUsedBytes := r.trafficUsedBytes
  speedLimitMbps := r.speedLimitMbps
  trafficByProxy := db.trafficOf r.id
  createdAt := r.createdAt
  updatedAt := r.updatedAt

/-- The `SELECT`s of `read`, before `normalize_loaded_config`.
mirrors crates/frp-game-server/src/storage.rs:133-249 -/
def loadConfig (db : Db) : Except String ServerConfig :=
  match db.settings with
  | none => .error "尚未初始化，请先运行：sudo frp-game-server setup"
  | some s => .ok (s.config (sortUsers (db.users.rows.map fun r => r.user db)))

/-! ## When a snapshot is written -/

/-- The counters fit the `INTEGER` columns. -/
structure CountersFit (u : ServerUser) : Prop where
  limit : (u.trafficLimitBytes : Int) ≤ I64_MAX
  used : (u.trafficUsedBytes : Int) ≤ I64_MAX
  records : ∀ name record, u.trafficByProxy.lookup name = some record →
    (record.trafficInBytes : Int) ≤ I64_MAX ∧ (record.trafficOutBytes : Int) ≤ I64_MAX

theorem sqlI64_eq_ok {value n : Nat} : sqlI64 value = .ok n ↔ (value : Int) ≤ I64_MAX ∧ n = value := by
  unfold sqlI64
  split <;> simp_all [eq_comm]

theorem writeTraffic_ok_iff {t v : Table trafficSchema} {rs : List TrafficRow} :
    writeTraffic t rs = .ok v ↔
      (∀ r ∈ rs, (r.trafficInBytes : Int) ≤ I64_MAX ∧ (r.trafficOutBytes : Int) ≤ I64_MAX) ∧
        t.upsertAll rs = .ok v := by
  induction rs generalizing t with
  | nil => simp [writeTraffic, Table.upsertAll]
  | cons r rs ih =>
    simp only [writeTraffic, bind_eq_ok, sqlI64_eq_ok, ih, Table.upsertAll_cons, List.forall_mem_cons]
    refine ⟨?_, ?_⟩
    · intro h
      obtain ⟨_, ⟨h₁, -⟩, _, ⟨h₂, -⟩, u, hu, hr, hv⟩ := h
      exact ⟨⟨⟨h₁, h₂⟩, hr⟩, u, hu, hv⟩
    · intro h
      obtain ⟨⟨⟨h₁, h₂⟩, hr⟩, u, hu, hv⟩ := h
      exact ⟨_, ⟨h₁, rfl⟩, _, ⟨h₂, rfl⟩, u, hu, hr, hv⟩

/-- The table of records has no constraint but its key, so every upsert goes in. -/
theorem traffic_upsertAll_ok (t : Table trafficSchema) (rs : List TrafficRow) :
    ∃ v, t.upsertAll rs = .ok v := by
  induction rs generalizing t with
  | nil => exact ⟨t, rfl⟩
  | cons r rs ih =>
    obtain ⟨u, hu⟩ := (Table.upsert_ok_iff t r).2 ⟨rfl, fun _ _ _ => rfl⟩
    obtain ⟨v, hv⟩ := ih u
    exact ⟨v, Table.upsertAll_cons.2 ⟨u, hu, hv⟩⟩

theorem trafficRows_fit {u : ServerUser} :
    (∀ r ∈ trafficRows u, (r.trafficInBytes : Int) ≤ I64_MAX ∧ (r.trafficOutBytes : Int) ≤ I64_MAX) ↔
      ∀ name record, u.trafficByProxy.lookup name = some record →
        (record.trafficInBytes : Int) ≤ I64_MAX ∧ (record.trafficOutBytes : Int) ≤ I64_MAX := by
  simp only [trafficRows, List.forall_mem_map]
  refine ⟨?_, ?_⟩
  · exact fun h name record hl => h ⟨name, record⟩ (Assoc.mem_entries_iff.2 hl)
  · exact fun h e he => h e.1 e.2 (Assoc.mem_entries_iff.1 he)

theorem writeUser_ok_iff {db db' : Db} {u : ServerUser} :
    writeUser db u = .ok db' ↔
      CountersFit u ∧ db.users.upsert (UserRow.of u) = .ok db'.users ∧
        db.tunnels.upsertAll (tunnelRows u) = .ok db'.tunnels ∧
        db.traffic.upsertAll (trafficRows u) = .ok db'.traffic ∧ db'.settings = db.settings := by
  simp only [writeUser, bind_eq_ok, sqlI64_eq_ok, checkOwner, bailIf_eq_ok, writeTraffic_ok_iff,
    trafficRows_fit, pure, Except.pure, Except.ok.injEq]
  refine ⟨?_, ?_⟩
  · intro h
    obtain ⟨_, ⟨h₁, -⟩, _, ⟨h₂, -⟩, users, hu, _, -, tunnels, ht, traffic, ⟨hr, hv⟩, rfl⟩ := h
    exact ⟨⟨h₁, h₂, hr⟩, hu, ht, hv, rfl⟩
  · intro h
    obtain ⟨⟨h₁, h₂, hr⟩, hu, ht, hv, hs⟩ := h
    refine ⟨_, ⟨h₁, rfl⟩, _, ⟨h₂, rfl⟩, _, hu, (), ?_, _, ht, _, ⟨hr, hv⟩, ?_⟩
    -- the owner's row was written by the statement before
    · rw [not_not]
      exact List.mem_map.2 ⟨_, (Table.mem_upsert hu _).2 (.inl rfl), rfl⟩
    · rw [← hs]

theorem writeUsers_ok_iff {db db' : Db} {us : List ServerUser} :
    writeUsers db us = .ok db' ↔
      (∀ u ∈ us, CountersFit u) ∧ db.users.upsertAll (us.map UserRow.of) = .ok db'.users ∧
        db.tunnels.upsertAll (us.flatMap tunnelRows) = .ok db'.tunnels ∧
        db.traffic.upsertAll (us.flatMap trafficRows) = .ok db'.traffic ∧
        db'.settings = db.settings := by
  induction us generalizing db with
  | nil =>
    simp only [writeUsers, Table.upsertAll, List.map_nil, List.flatMap_nil, Except.ok.injEq]
    refine ⟨?_, ?_⟩
    · rintro rfl; simp
    · intro h
      obtain ⟨-, h₁, h₂, h₃, h₄⟩ := h
      cases db; cases db'
      simp_all
  | cons u us ih =>
    simp only [writeUsers, bind_eq_ok, writeUser_ok_iff, ih, List.forall_mem_cons, List.map_cons,
      List.flatMap_cons, Table.upsertAll_cons, Table.upsertAll_append]
    refine ⟨?_, ?_⟩
    · intro h
      obtain ⟨m, ⟨hf, h₁, h₂, h₃, h₄⟩, hfs, k₁, k₂, k₃, k₄⟩ := h
      exact ⟨⟨hf, hfs⟩, ⟨_, h₁, k₁⟩, ⟨_, h₂, k₂⟩, ⟨_, h₃, k₃⟩, k₄.trans h₄⟩
    · intro h
      obtain ⟨⟨hf, hfs⟩, ⟨a, h₁, k₁⟩, ⟨b, h₂, k₂⟩, ⟨c, h₃, k₃⟩, k₄⟩ := h
      exact ⟨⟨db.settings, a, b, c⟩, ⟨hf, h₁, h₂, h₃, rfl⟩, hfs, k₁, k₂, k₃, k₄⟩

/-- **When a snapshot is written**, one condition for each table. -/
theorem writeSnapshot_ok_iff {db : Db} {c : ServerConfig} :
    (∃ db', writeSnapshot db c = .ok db') ↔
      (∀ u ∈ c.users, CountersFit u) ∧
        (∃ v, (deleteMissingUsers db c.users).users.upsertAll (c.users.map UserRow.of) = .ok v) ∧
        ∃ v, (deleteMissingUsers db c.users).tunnels.upsertAll (c.users.flatMap tunnelRows) = .ok v := by
  simp only [writeSnapshot, bind_eq_ok, pure, Except.pure, Except.ok.injEq, writeUsers_ok_iff]
  refine ⟨?_, ?_⟩
  · intro h
    obtain ⟨_, m, ⟨hf, h₁, h₂, -, -⟩, -⟩ := h
    exact ⟨hf, ⟨_, h₁⟩, ⟨_, h₂⟩⟩
  · intro h
    obtain ⟨hf, ⟨a, h₁⟩, ⟨b, h₂⟩⟩ := h
    obtain ⟨t, ht⟩ := traffic_upsertAll_ok
      (deleteMissingUsers { db with settings := some (SettingsRow.of c) } c.users).traffic
      (c.users.flatMap trafficRows)
    exact ⟨_, ⟨some (SettingsRow.of c), a, b, t⟩, ⟨hf, h₁, h₂, ht, rfl⟩, rfl⟩

/-! ## What a snapshot leaves -/

/-- The database holds the settings, the users and the tunnels of `c`. -/
structure Holds (db : Db) (c : ServerConfig) : Prop where
  settings : db.settings = some (SettingsRow.of c)
  users : ∀ r, r ∈ db.users.rows ↔ ∃ u ∈ c.users, r = UserRow.of u
  tunnels : ∀ r, r ∈ db.tunnels.rows ↔ ∃ u ∈ c.users, ∃ t ∈ u.tunnels, r = TunnelRow.of u.id t

theorem mem_tunnelRows {us : List ServerUser} {r : TunnelRow} :
    r ∈ us.flatMap tunnelRows ↔ ∃ u ∈ us, ∃ t ∈ u.tunnels, r = TunnelRow.of u.id t := by
  simp only [List.mem_flatMap, tunnelRows, List.mem_map, eq_comm]

theorem tunnelRows_keys (us : List ServerUser) :
    (us.flatMap tunnelRows).map tunnelSchema.key = (us.flatMap (·.tunnels)).map (·.id) := by
  simp only [List.map_flatMap, tunnelRows, List.map_map]
  rfl

theorem userRows_keys (us : List ServerUser) :
    (us.map UserRow.of).map userSchema.key = us.map (·.id) := by
  rw [List.map_map]; rfl

/-- What the transaction did, table by table. -/
theorem writeSnapshot_inv {db db' : Db} {c : ServerConfig} (h : writeSnapshot db c = .ok db') :
    (∀ u ∈ c.users, CountersFit u) ∧ ∃ m : Db, m.settings = some (SettingsRow.of c) ∧
      (deleteMissingUsers db c.users).users.upsertAll (c.users.map UserRow.of) = .ok m.users ∧
      (deleteMissingUsers db c.users).tunnels.upsertAll (c.users.flatMap tunnelRows) = .ok m.tunnels ∧
      (deleteMissingUsers db c.users).traffic.upsertAll (c.users.flatMap trafficRows) =
        .ok m.traffic ∧
      db' = deleteStaleTunnels m (c.tunnels.map (·.id)) := by
  simp only [writeSnapshot, bind_eq_ok, pure, Except.pure, Except.ok.injEq, writeUsers_ok_iff] at h
  obtain ⟨m, ⟨hf, h₁, h₂, h₃, h₄⟩, rfl⟩ := h
  exact ⟨hf, m, h₄, h₁, h₂, h₃, rfl⟩

theorem writeSnapshot_settings {db db' : Db} {c : ServerConfig} (h : writeSnapshot db c = .ok db') :
    db'.settings = some (SettingsRow.of c) := by
  obtain ⟨-, m, hs, -, -, -, rfl⟩ := writeSnapshot_inv h
  exact hs

/-- **A snapshot of distinct keys leaves exactly what was written.** -/
theorem writeSnapshot_holds {db db' : Db} {c : ServerConfig} (h : writeSnapshot db c = .ok db')
    (hu : (c.users.map (·.id)).Nodup) (ht : (c.tunnels.map (·.id)).Nodup) : Holds db' c := by
  obtain ⟨-, m, hs, h₁, h₂, -, rfl⟩ := writeSnapshot_inv h
  refine ⟨hs, fun r => ?_, fun r => ?_⟩
  · show r ∈ m.users.rows ↔ _
    rw [Table.mem_upsertAll h₁ (by rwa [userRows_keys]), userRows_keys]
    simp only [List.mem_map, eq_comm (b := r)]
    refine ⟨?_, ?_⟩
    · rintro (hr | ⟨hr, hne⟩)
      · exact hr
      -- every old row that survived the deletion has the id of some user
      · have := (List.mem_filter.1 hr).2
        simp only [decide_eq_true_eq, List.mem_map] at this
        exact absurd this hne
    · exact .inl
  · show r ∈ m.tunnels.rows.filter _ ↔ _
    rw [List.mem_filter, Table.mem_upsertAll h₂ (by rw [tunnelRows_keys]; exact ht), tunnelRows_keys,
      mem_tunnelRows, decide_eq_true_eq]
    refine ⟨?_, ?_⟩
    · rintro ⟨hr | ⟨-, hne⟩, hin⟩
      · exact hr
      · exact absurd hin hne
    · intro hx
      obtain ⟨u, hu, t, ht, rfl⟩ := hx
      exact ⟨.inl ⟨u, hu, t, ht, rfl⟩,
        List.mem_map.2 ⟨t, List.mem_flatMap.2 ⟨u, hu, ht⟩, rfl⟩⟩

/-- The names of the tunnel rows a snapshot of `c` deletes at its end. -/
def staleNames (db : Db) (c : ServerConfig) : List Str :=
  ((deleteMissingUsers db c.users).tunnels.rows.filter fun r => r.id ∉ c.tunnels.map (·.id)).map
    (·.proxyName)

/-- **What becomes of the record of a name**: the last row written under it, else
the old row unless its user is gone, inactive when a stale tunnel had the name. -/
theorem writeSnapshot_traffic {db db' : Db} {c : ServerConfig} (h : writeSnapshot db c = .ok db')
    (ht : (c.tunnels.map (·.id)).Nodup) (name : Str) :
    db'.traffic.find name =
      (((Table.lastRow trafficSchema name (c.users.flatMap trafficRows)).or
        ((deleteMissingUsers db c.users).traffic.find name)).map fun r =>
          { r with active := r.active && r.proxyName ∉ staleNames db c }) := by
  obtain ⟨-, m, -, -, h₂, h₃, rfl⟩ := writeSnapshot_inv h
  have hstale : ∀ n, n ∈ (m.tunnels.rows.filter fun r => r.id ∉ c.tunnels.map (·.id)).map
      (·.proxyName) ↔ n ∈ staleNames db c := by
    intro n
    simp only [staleNames, List.mem_map, List.mem_filter, decide_eq_true_eq]
    refine ⟨?_, ?_⟩
    · intro hx
      obtain ⟨r, ⟨hr, hn⟩, rfl⟩ := hx
      rcases (Table.mem_upsertAll h₂ (by rw [tunnelRows_keys]; exact ht) r).1 hr with hr | ⟨hr, -⟩
      · obtain ⟨u, hu, t, htu, rfl⟩ := mem_tunnelRows.1 hr
        exact absurd ⟨t, List.mem_flatMap.2 ⟨u, hu, htu⟩, rfl⟩ hn
      · exact ⟨r, ⟨hr, hn⟩, rfl⟩
    · intro hx
      obtain ⟨r, ⟨hr, hn⟩, rfl⟩ := hx
      refine ⟨r, ⟨(Table.mem_upsertAll h₂ (by rw [tunnelRows_keys]; exact ht) r).2
        (.inr ⟨hr, ?_⟩), hn⟩, rfl⟩
      rw [tunnelRows_keys]
      exact fun hk => hn (List.mem_map.1 hk)
  rw [← Table.find_upsertAll h₃ name]
  rw [deleteStaleTunnels, Table.find_update]
  congr 1
  funext r
  simp only [hstale]

/-- The database of a first snapshot. -/
def Db.ofConfig (c : ServerConfig) : Db :=
  match writeSnapshot Db.empty c with
  | .ok db => db
  | .error _ => Db.empty

theorem Db.ofConfig_written {c : ServerConfig} (h : (writeSnapshot Db.empty c).isOk = true) :
    writeSnapshot Db.empty c = .ok (Db.ofConfig c) := by
  unfold Db.ofConfig
  cases hw : writeSnapshot Db.empty c with
  | error e => rw [hw] at h; cases h
  | ok db => rfl

/-! ## What is read back -/

theorem sortUsers_eq {us vs : List ServerUser} (hp : us.Perm vs)
    (hs : vs.Pairwise fun u v => u.account ≤ v.account) (hn : (vs.map (·.account)).Nodup) :
    sortUsers us = vs := by
  refine ((sortUsers_perm us).trans hp).eq_of_pairwise ?_ (sortUsers_sorted us) hs
  intro a b ha hb h₁ h₂
  exact List.inj_on_of_nodup_map hn (hp.mem_iff.1 ((sortUsers_perm us).mem_iff.1 ha)) hb
    (le_antisymm h₁ h₂)

/-- The rows of the table of users, up to order. -/
theorem Holds.users_perm {db : Db} {c : ServerConfig} (h : Holds db c)
    (hn : (c.users.map (·.id)).Nodup) : db.users.rows.Perm (c.users.map UserRow.of) := by
  refine (List.perm_ext_iff_of_nodup (List.Nodup.of_map _ db.users.pk) ?_).2 fun r => ?_
  · exact List.Nodup.of_map (·.id) (by simpa [List.map_map, Function.comp_def, UserRow.of] using hn)
  · rw [h.users]; simp only [List.mem_map, eq_comm]

theorem loadConfig_holds {db : Db} {c : ServerConfig} (h : Holds db c)
    (hi : (c.users.map (·.id)).Nodup) (ha : (c.users.map (·.account)).Nodup)
    (hs : c.users.Pairwise fun u v => u.account ≤ v.account) :
    loadConfig db = .ok { c with users := c.users.map fun u => (UserRow.of u).user db } := by
  have hp := (h.users_perm hi).map fun r => r.user db
  rw [List.map_map] at hp
  unfold loadConfig
  rw [h.settings]
  simp only [SettingsRow.config, SettingsRow.of, Except.ok.injEq]
  rw [sortUsers_eq hp]
  · rfl
  · rw [List.pairwise_map]; exact hs
  · rw [List.map_map]; exact ha

theorem mem_tunnelsOf {db : Db} {userId : Str} {t : Tunnel} :
    t ∈ db.tunnelsOf userId ↔ ∃ r ∈ db.tunnels.rows, r.userId = userId ∧ r.toTunnel = t := by
  simp only [Db.tunnelsOf, List.mem_map, List.mem_insertionSort, List.mem_filter, decide_eq_true_eq,
    and_assoc]

/-- A user's tunnels are read back in another order at most. -/
theorem Holds.tunnelsOf_perm {db : Db} {c : ServerConfig} (h : Holds db c)
    (hi : (c.users.map (·.id)).Nodup) (ht : (c.tunnels.map (·.id)).Nodup) {u : ServerUser}
    (hu : u ∈ c.users) : (db.tunnelsOf u.id).Perm u.tunnels := by
  have hrows : (db.tunnels.rows.filter fun r => r.userId = u.id).Perm (tunnelRows u) := by
    refine (List.perm_ext_iff_of_nodup ?_ ?_).2 fun r => ?_
    · exact List.Nodup.of_map _ ((List.filter_sublist.map _).nodup db.tunnels.pk)
    · refine List.Nodup.of_map tunnelSchema.key ?_
      rw [tunnelRows, List.map_map]
      exact ((tunnels_sublist hu).map (·.id)).nodup ht
    · rw [List.mem_filter, h.tunnels, decide_eq_true_eq, tunnelRows, List.mem_map]
      refine ⟨?_, ?_⟩
      · intro hx
        obtain ⟨⟨v, hv, t, htv, rfl⟩, he⟩ := hx
        obtain rfl : v = u := List.inj_on_of_nodup_map hi hv hu he
        exact ⟨t, htv, rfl⟩
      · intro hx
        obtain ⟨t, htu, rfl⟩ := hx
        exact ⟨⟨u, hu, t, htu, rfl⟩, rfl⟩
  have hmap := ((List.perm_insertionSort TunnelRow.before _).trans hrows).map (·.toTunnel)
  rw [tunnelRows, List.map_map] at hmap
  exact hmap.trans (by rw [show (fun r : TunnelRow => r.toTunnel) ∘ TunnelRow.of u.id = id from rfl,
    List.map_id])

end OrangeFrp.Storage
