import OrangeFrp.Storage.Database

/-!
# The store (`frp-game-server/src/storage.rs`)

`initialize`, `read`, `save`, `create` and the migration of a legacy JSON
file, over the files of the data directory (`Disk`). Every function that
touches the database is one transaction on it or a composition of several;
the transactions have names of their own (`saveTransaction`,
`recoverTransaction`, `createTransaction`).

Random values are consumed from `Entropy`. What `serde_json` makes of a file
is part of the file.

* `initializeStore_initialized`: on an initialised database nothing but recovered
  passwords changes.
* `save_ok_iff`: when `save` goes through, given a configuration whose fields
  are normal.
-/
namespace OrangeFrp.Storage

open OrangeFrp.Core

/-! ## Files -/

structure Entropy where
  uuids : Draws
  nonces : Stream' Bytes
  salts : Stream' Str

/-- Constant values, to run the model on. -/
def Entropy.constant : Entropy := ⟨Draws.constant, fun _ => [], fun _ => []⟩

def zeros : Entropy := { Entropy.constant with nonces := fun _ => List.replicate NONCE_LENGTH 0 }

/-- mirrors crates/frp-game-server/src/storage.rs:1057-1067 -/
structure LegacyTrafficRecord where
  protocol : Str
  remotePort : Port
  trafficInBytes : Nat
  trafficOutBytes : Nat

/-- mirrors crates/frp-game-server/src/storage.rs:1034-1055 -/
structure LegacyUser where
  account : Str
  password : Str
  secret : Str
  tunnels : List Tunnel
  tunnelLimit : Nat
  trafficLimitBytes : Nat
  trafficUsedBytes : Nat
  speedLimitMbps : Nat
  trafficByProxy : Assoc Str LegacyTrafficRecord
  createdAt : Int
  updatedAt : Int

/-- mirrors crates/frp-game-server/src/storage.rs:1018-1032 -/
structure LegacyServerConfig where
  apiSalt : Str
  apiBind : Str
  apiPort : Port
  frpsBindPort : Port
  frpsToken : Str
  frpsBinary : Str
  users : List LegacyUser
  createdAt : Int
  updatedAt : Int

/-- mirrors crates/frp-game-server/src/storage.rs:1069-1088 -/
structure LegacySingleConfig where
  account : Str
  password : Str
  secret : Str
  apiSalt : Str
  apiBind : Str
  apiPort : Port
  frpsBindPort : Port
  frpsToken : Str
  frpsBinary : Str
  tunnels : List Tunnel
  tunnelLimit : Nat
  createdAt : Int
  updatedAt : Int

/-- A legacy file is taken as a list of users when it has the field `users`. -/
inductive LegacyDocument where
  | server (config : LegacyServerConfig)
  | single (config : LegacySingleConfig)
  | invalid (error : String)

/-- `config.json`: its value as JSON and as one of the two legacy formats. -/
structure LegacyFile where
  json : Option Value
  document : LegacyDocument

structure Disk where
  db : Db
  legacy : Option LegacyFile
  /-- the files `config.json.legacy-backup-*`, with their value as JSON -/
  backups : List (Str × Option Value)

/-- A data directory that holds the configuration. -/
def Disk.ofConfig (c : ServerConfig) : Disk := ⟨Db.ofConfig c, none, []⟩

/-! ## Recovery of passwords -/

/-- The accounts and passwords of one backup.
mirrors crates/frp-game-server/src/storage.rs:518-536 -/
def backupCandidates (value : Value) : List (Str × Str) :=
  let users := (((value.get "users".toList).bind Value.asArray).getD [value])
  users.filterMap fun user =>
    match (user.get "account".toList).bind Value.asStr, (user.get "password".toList).bind Value.asStr with
    | some account, some password =>
      if account ≠ [] ∧ password ≠ [] then some (account, password) else none
    | _, _ => none

/-- Newest backup first.
mirrors crates/frp-game-server/src/storage.rs:497-537 -/
def passwordCandidates (backups : List (Str × Option Value)) : List (Str × Str) :=
  (backups.insertionSort fun left right => right.1 ≤ left.1).flatMap fun file =>
    (file.2.map backupCandidates).getD []

theorem setPassword_unconstrained (account encrypted : Str) :
    Table.Unconstrained userSchema fun r =>
      if r.account = account ∧ r.passwordEncrypted = [] then { r with passwordEncrypted := encrypted }
      else r := by
  refine ⟨fun r => ?_, fun r q => ?_, fun r => rfl⟩
  · split <;> rfl
  · split <;> split <;> rfl

/-- `UPDATE users SET password_encrypted = ?1 WHERE account = ?2 AND password_encrypted = ''`. -/
def setPassword (users : Table userSchema) (account encrypted : Str) : Table userSchema :=
  users.update _ (setPassword_unconstrained account encrypted)

section
variable (P : Primitives)

/-- mirrors crates/frp-game-server/src/storage.rs:563-581 -/
def recoverUsers (apiSalt : Str) (candidates : List (Str × Str)) (users : Table userSchema) :
    List UserRow → Stream' Bytes → Except String (Table userSchema)
  | [], _ => .ok users
  | row :: rows, nonces =>
    match candidates.find? fun k => k.1 = row.account ∧ verifyPassword P row.passwordHash k.2 with
    | none => recoverUsers apiSalt candidates users rows nonces
    | some (_, password) => do
      let encrypted ← encryptUserPassword P apiSalt row.secret password nonces.head
      recoverUsers apiSalt candidates (setPassword users row.account encrypted) rows nonces.tail

/-- The transaction of the recovery.
mirrors crates/frp-game-server/src/storage.rs:542-583 -/
def recoverTransaction (db : Db) (candidates : List (Str × Str)) (nonces : Stream' Bytes) :
    Except String Db :=
  match db.settings with
  | none => .error "Query returned no rows"
  | some s => do
    let users ← recoverUsers P s.apiSalt candidates db.users
      (db.users.rows.filter fun r => r.passwordEncrypted = []) nonces
    return { db with users := users }

/-- mirrors crates/frp-game-server/src/storage.rs:484-584 -/
def recoverPasswordsFromLegacyBackups (db : Db) (backups : List (Str × Option Value))
    (nonces : Stream' Bytes) : Except String Db :=
  if db.users.rows.all fun r => r.passwordEncrypted ≠ [] then .ok db
  else if passwordCandidates backups = [] then .ok db
  else recoverTransaction P db (passwordCandidates backups) nonces

/-! ## Migration -/

/-- A legacy single-user file as a file of one user.
mirrors crates/frp-game-server/src/storage.rs:873-900 -/
def LegacyDocument.serverConfig : LegacyDocument → Except String LegacyServerConfig
  | .server config => .ok config
  | .invalid error => .error error
  | .single c => .ok {
      apiSalt := c.apiSalt
      apiBind := c.apiBind
      apiPort := c.apiPort
      frpsBindPort := c.frpsBindPort
      frpsToken := c.frpsToken
      frpsBinary := c.frpsBinary
      users := [{
        account := c.account
        password := c.password
        secret := c.secret
        tunnels := c.tunnels
        tunnelLimit := c.tunnelLimit
        trafficLimitBytes := 0
        trafficUsedBytes := 0
        speedLimitMbps := 0
        trafficByProxy := ∅
        createdAt := c.createdAt
        updatedAt := c.updatedAt }]
      createdAt := c.createdAt
      updatedAt := c.updatedAt }

/-- mirrors crates/frp-game-server/src/storage.rs:916-919 -/
def migrateTunnels (usedPorts : List Port) :
    List Tunnel → Draws → Except String (List Tunnel × List Port × Draws)
  | [], d => .ok ([], usedPorts, d)
  | t :: ts, d => do
    let name := proxyNameFor t.id d
    let port ← allocateBackendPort usedPorts
    let rest ← migrateTunnels port.2 ts name.2
    return ({ t with proxyName := name.1, backendPort := port.1 } :: rest.1, rest.2)

/-- mirrors crates/frp-game-server/src/storage.rs:914-958 -/
def migrateUser (apiSalt : Str) (usedPorts : List Port) (legacy : LegacyUser) (e : Entropy) :
    Except String (ServerUser × List Port × Entropy) := do
  let normalized ← (normalizeTunnels legacy.tunnels e.uuids).mapError FrpGameError.text
  let tunnels ← migrateTunnels usedPorts normalized.1 normalized.2
  let passwordHash ← hashPassword P legacy.password e.salts.head
  let passwordEncrypted ← encryptUserPassword P apiSalt legacy.secret legacy.password e.nonces.head
  let ident := newUserId tunnels.2.2
  return ({
      id := ident.1
      account := trim legacy.account
      passwordHash := passwordHash
      passwordEncrypted := passwordEncrypted
      secret := legacy.secret
      tunnels := tunnels.1
      tunnelLimit := legacy.tunnelLimit
      trafficLimitBytes := legacy.trafficLimitBytes
      trafficUsedBytes := legacy.trafficUsedBytes
      speedLimitMbps := legacy.speedLimitMbps
      trafficByProxy := ⟨legacy.trafficByProxy.entries.map fun r => ⟨r.1, {
          protocol := r.2.protocol
          remotePort := r.2.remotePort
          trafficInBytes := r.2.trafficInBytes
          trafficOutBytes := r.2.trafficOutBytes
          active := r.1 ∈ tunnels.1.map (·.proxyName) }⟩, by
        rw [List.NodupKeys, List.keys, List.map_map]
        exact legacy.trafficByProxy.nodupKeys⟩
      createdAt := legacy.createdAt
      updatedAt := legacy.updatedAt }, tunnels.2.1,
    { uuids := ident.2, nonces := e.nonces.tail, salts := e.salts.tail })

def migrateUsers (apiSalt : Str) :
    List Port → List LegacyUser → Entropy → Except String (List ServerUser × Entropy)
  | _, [], e => .ok ([], e)
  | usedPorts, u :: us, e => do
    let one ← migrateUser P apiSalt usedPorts u e
    let rest ← migrateUsers apiSalt one.2.1 us one.2.2
    return (one.1 :: rest.1, rest.2)

/-- mirrors crates/frp-game-server/src/storage.rs:869-973 -/
def migrateLegacyConfig (document : LegacyDocument) (e : Entropy) :
    Except String (ServerConfig × Entropy) := do
  let legacy ← document.serverConfig
  let usedPorts := legacy.users.flatMap (fun u => u.tunnels.map (·.remotePort)) ++
    [DEFAULT_PLUGIN_PORT, legacy.frpsBindPort, legacy.apiPort]
  let users ← migrateUsers P legacy.apiSalt usedPorts legacy.users e
  return ({
      revision := 0
      apiSalt := legacy.apiSalt
      apiBind := legacy.apiBind
      apiPort := legacy.apiPort
      frpsBindPort := legacy.frpsBindPort
      frpsToken := legacy.frpsToken
      frpsBinary := legacy.frpsBinary
      pluginPort := DEFAULT_PLUGIN_PORT
      publicBind := DEFAULT_PUBLIC_BIND
      users := users.1
      createdAt := legacy.createdAt
      updatedAt := legacy.updatedAt }, users.2)

/-! ## Transactions and operations -/

/-- `i64::saturating_add(1)`. -/
def nextRevision (revision : Int) : Int := min (revision + 1) I64_MAX

/-- The transaction of `save`: the revision check and the snapshot.
mirrors crates/frp-game-server/src/storage.rs:258-271 -/
def saveTransaction (db : Db) (c : ServerConfig) : Except String (Db × ServerConfig) :=
  match db.settings with
  | none => .error "Query returned no rows"
  | some s =>
    if s.revision ≠ c.revision then
      .error ("SQLite 配置已被其他进程更新（当前版本 " ++ toString s.revision ++ "，内存版本 " ++
        toString c.revision ++ "），请重试。")
    else do
      let c := { c with revision := nextRevision s.revision }
      let db ← writeSnapshot db c
      return (db, c)

/-- The transaction of `save_new`.
mirrors crates/frp-game-server/src/storage.rs:287-290 -/
def createTransaction (db : Db) (c : ServerConfig) : Except String (Db × ServerConfig) := do
  let c := { c with revision := 1 }
  let db ← writeSnapshot db c
  return (db, c)

/-- mirrors crates/frp-game-server/src/storage.rs:283-293 -/
def saveNew (db : Db) (c : ServerConfig) (e : Entropy) :
    Except String (Db × ServerConfig × Entropy) := do
  let normalized ← normalizeLoadedConfig P c e.uuids
  let written ← createTransaction db normalized.1
  return (written.1, written.2, { e with uuids := normalized.2 })

def backupName (updatedAt : Int) : Str :=
  "config.json.legacy-backup-".toList ++ (toString updatedAt).toList

/-- At most one nonce is drawn for each user.
mirrors crates/frp-game-server/src/storage.rs:89-123 -/
def initializeStore (disk : Disk) (e : Entropy) : Except String (Disk × Entropy) :=
  if disk.db.settings.isSome then do
    let db ← recoverPasswordsFromLegacyBackups P disk.db disk.backups e.nonces
    return ({ disk with db := db }, { e with nonces := e.nonces.drop disk.db.users.rows.length })
  else
    match disk.legacy with
    | none => .ok (disk, e)
    | some file => do
      let migrated ← migrateLegacyConfig P file.document e
      let written ← saveNew P disk.db migrated.1 migrated.2
      let name := backupName written.2.1.updatedAt
      return ({
          db := written.1
          legacy := none
          backups := (name, file.json) :: disk.backups.filter fun b => b.1 ≠ name },
        written.2.2)

/-- mirrors crates/frp-game-server/src/storage.rs:125-131 -/
def isInitialized (disk : Disk) : Bool := disk.db.settings.isSome

/-- mirrors crates/frp-game-server/src/storage.rs:133-252 -/
def read (disk : Disk) (e : Entropy) : Disk × Except String (ServerConfig × Entropy) :=
  match initializeStore P disk e with
  | .error error => (disk, .error error)
  | .ok (disk, e) =>
    (disk, do
      let c ← loadConfig disk.db
      let normalized ← normalizeLoadedConfig P c e.uuids
      return (normalized.1, { e with uuids := normalized.2 }))

/-- mirrors crates/frp-game-server/src/storage.rs:254-274 -/
def save (disk : Disk) (c : ServerConfig) (e : Entropy) : Disk × Except String (ServerConfig × Entropy) :=
  match initializeStore P disk e with
  | .error error => (disk, .error error)
  | .ok (disk, e) =>
    match normalizeLoadedConfig P c e.uuids with
    | .error error => (disk, .error error)
    | .ok (c, uuids) =>
      match saveTransaction disk.db c with
      | .error error => (disk, .error error)
      | .ok (db, c) => ({ disk with db := db }, .ok (c, { e with uuids := uuids }))

/-- mirrors crates/frp-game-server/src/storage.rs:276-281 -/
def create (disk : Disk) (c : ServerConfig) (e : Entropy) :
    Disk × Except String (ServerConfig × Entropy) :=
  if isInitialized disk then (disk, .error "SQLite 服务端已经初始化。")
  else
    match saveNew P disk.db c e with
    | .error error => (disk, .error error)
    | .ok (db, c, e) => ({ disk with db := db }, .ok (c, e))

end

/-! ## What the recovery can change -/

def UserRow.withoutPassword (r : UserRow) : UserRow := { r with passwordEncrypted := [] }

/-- The same database, up to the encrypted passwords. -/
structure SameButPasswords (db db' : Db) : Prop where
  settings : db'.settings = db.settings
  tunnels : db'.tunnels = db.tunnels
  traffic : db'.traffic = db.traffic
  users : db'.users.rows.map UserRow.withoutPassword = db.users.rows.map UserRow.withoutPassword

theorem SameButPasswords.refl (db : Db) : SameButPasswords db db := ⟨rfl, rfl, rfl, rfl⟩

theorem SameButPasswords.symm {db db' : Db} (h : SameButPasswords db db') : SameButPasswords db' db :=
  ⟨h.settings.symm, h.tunnels.symm, h.traffic.symm, h.users.symm⟩

theorem SameButPasswords.trans {db₁ db₂ db₃ : Db} (h : SameButPasswords db₁ db₂)
    (h' : SameButPasswords db₂ db₃) : SameButPasswords db₁ db₃ :=
  ⟨h'.settings.trans h.settings, h'.tunnels.trans h.tunnels, h'.traffic.trans h.traffic,
    h'.users.trans h.users⟩

/-- A column other than the encrypted password is the same, row by row. -/
theorem SameButPasswords.column {α : Type} {db db' : Db} (h : SameButPasswords db db')
    (f : UserRow → α) (hf : ∀ r, f r.withoutPassword = f r) :
    db'.users.rows.map f = db.users.rows.map f := by
  have hmap := congrArg (List.map f) h.users
  simpa only [List.map_map, Function.comp_def, hf] using hmap

theorem setPassword_same (users : Table userSchema) (account encrypted : Str) :
    (setPassword users account encrypted).rows.map UserRow.withoutPassword =
      users.rows.map UserRow.withoutPassword := by
  simp only [setPassword, Table.update_rows, List.map_map]
  refine List.map_congr_left fun r _ => ?_
  simp only [Function.comp_apply]
  split <;> rfl

section
variable {P : Primitives}

theorem recoverUsers_same {apiSalt : Str} {candidates : List (Str × Str)}
    {users users' : Table userSchema} {rows : List UserRow} {nonces : Stream' Bytes}
    (h : recoverUsers P apiSalt candidates users rows nonces = .ok users') :
    users'.rows.map UserRow.withoutPassword = users.rows.map UserRow.withoutPassword := by
  induction rows generalizing users nonces with
  | nil =>
    simp only [recoverUsers, Except.ok.injEq] at h
    subst h
    rfl
  | cons row rows ih =>
    rw [recoverUsers] at h
    split at h
    · exact ih h
    · obtain ⟨encrypted, -, h⟩ := bind_eq_ok.1 h
      exact (ih h).trans (setPassword_same users row.account encrypted)

theorem recover_same {db db' : Db} {backups : List (Str × Option Value)} {nonces : Stream' Bytes}
    (h : recoverPasswordsFromLegacyBackups P db backups nonces = .ok db') :
    SameButPasswords db db' := by
  unfold recoverPasswordsFromLegacyBackups recoverTransaction at h
  split at h
  · cases h; exact .refl db
  split at h
  · cases h; exact .refl db
  split at h
  · cases h
  obtain ⟨users, hu, h⟩ := bind_eq_ok.1 h
  cases h
  exact ⟨rfl, rfl, rfl, recoverUsers_same hu⟩

theorem mem_passwordCandidates {backups : List (Str × Option Value)} {k : Str × Str}
    (h : k ∈ passwordCandidates backups) : k.2 ≠ [] := by
  simp only [passwordCandidates, List.mem_flatMap] at h
  obtain ⟨file, -, hk⟩ := h
  cases hv : file.2 with
  | none => simp [hv] at hk
  | some v =>
    simp only [hv, Option.map_some, Option.getD_some, backupCandidates, List.mem_filterMap] at hk
    obtain ⟨user, -, hk⟩ := hk
    split at hk
    · split at hk
      · rename_i hne
        cases hk
        exact hne.2
      · cases hk
    · cases hk

theorem encryptUserPassword_ok (hP : P.Lawful) {apiSalt secret password : Str} {salt : Bytes}
    (hs : P.b64decode apiSalt = some salt) (hl : salt.length = 32) (hsec : secret ≠ [])
    (hpw : password ≠ []) (nonce : Bytes) :
    ∃ stored, encryptUserPassword P apiSalt secret password nonce = .ok stored := by
  obtain ⟨stored, h⟩ := encryptStoredText_ok hP hs (by omega) hsec password nonce
  exact ⟨stored, by rw [encryptUserPassword, if_neg hpw, h]; rfl⟩

theorem recoverUsers_total (hP : P.Lawful) {apiSalt : Str} {salt : Bytes}
    (hs : P.b64decode apiSalt = some salt) (hl : salt.length = 32)
    {candidates : List (Str × Str)} (hc : ∀ k ∈ candidates, k.2 ≠ []) {rows : List UserRow}
    (hr : ∀ r ∈ rows, r.secret ≠ []) (users : Table userSchema) (nonces : Stream' Bytes) :
    ∃ users', recoverUsers P apiSalt candidates users rows nonces = .ok users' := by
  induction rows generalizing users nonces with
  | nil => exact ⟨users, rfl⟩
  | cons row rows ih =>
    have hrest := fun r hr' => hr r (List.mem_cons_of_mem row hr')
    rw [recoverUsers]
    split
    · exact ih hrest users nonces
    · rename_i account password hk
      obtain ⟨encrypted, he⟩ := encryptUserPassword_ok hP hs hl (hr row List.mem_cons_self)
        (hc _ (List.mem_of_find?_eq_some hk)) nonces.head
      obtain ⟨users', hu⟩ := ih hrest (setPassword users row.account encrypted) nonces.tail
      exact ⟨users', by rw [he]; exact hu⟩

/-- With a usable salt the recovery does not fail. -/
theorem recover_total (hP : P.Lawful) {db : Db} {s : SettingsRow} (hset : db.settings = some s)
    {salt : Bytes} (hs : P.b64decode s.apiSalt = some salt) (hl : salt.length = 32)
    (hr : ∀ r ∈ db.users.rows, r.secret ≠ []) (backups : List (Str × Option Value))
    (nonces : Stream' Bytes) :
    ∃ db', recoverPasswordsFromLegacyBackups P db backups nonces = .ok db' := by
  unfold recoverPasswordsFromLegacyBackups recoverTransaction
  split
  · exact ⟨db, rfl⟩
  split
  · exact ⟨db, rfl⟩
  rw [hset]
  have hrows : ∀ r ∈ db.users.rows.filter fun r => r.passwordEncrypted = [], r.secret ≠ [] :=
    fun r hr' => hr r (List.mem_of_mem_filter hr')
  obtain ⟨users, hu⟩ := recoverUsers_total hP hs hl
    (fun k (hk : k ∈ passwordCandidates backups) => mem_passwordCandidates hk) hrows db.users nonces
  exact ⟨{ db with users := users, settings := some s }, by simp only [hu]; rfl⟩

/-- **On an initialised database** `initialize` changes nothing but passwords. -/
theorem initializeStore_initialized {disk disk' : Disk} {e e' : Entropy} {s : SettingsRow}
    (hset : disk.db.settings = some s) (h : initializeStore P disk e = .ok (disk', e')) :
    SameButPasswords disk.db disk'.db ∧ disk'.backups = disk.backups ∧ disk'.legacy = disk.legacy ∧
      e'.uuids = e.uuids := by
  unfold initializeStore at h
  rw [if_pos (by rw [hset]; rfl)] at h
  obtain ⟨db, hdb, h⟩ := bind_eq_ok.1 h
  cases h
  exact ⟨recover_same hdb, rfl, rfl, rfl⟩

theorem initializeStore_total (hP : P.Lawful) {disk : Disk} {s : SettingsRow}
    (hset : disk.db.settings = some s) {salt : Bytes} (hs : P.b64decode s.apiSalt = some salt)
    (hl : salt.length = 32) (hr : ∀ r ∈ disk.db.users.rows, r.secret ≠ []) (e : Entropy) :
    ∃ r, initializeStore P disk e = .ok r := by
  obtain ⟨db, hdb⟩ := recover_total hP hset hs hl hr disk.backups e.nonces
  unfold initializeStore
  rw [if_pos (by rw [hset]; rfl), hdb]
  exact ⟨_, rfl⟩

/-! ## When a save goes through -/

theorem saveTransaction_ok_iff {db : Db} {c : ServerConfig} {r : Db × ServerConfig} :
    saveTransaction db c = .ok r ↔
      (∃ s, db.settings = some s ∧ s.revision = c.revision) ∧
        r.2 = { c with revision := nextRevision c.revision } ∧ writeSnapshot db r.2 = .ok r.1 := by
  unfold saveTransaction
  refine ⟨?_, ?_⟩
  · intro h
    split at h
    · cases h
    rename_i s hs
    split at h
    · cases h
    rename_i he
    rw [ne_eq, not_not] at he
    obtain ⟨db', hw, h⟩ := bind_eq_ok.1 h
    cases h
    exact ⟨⟨s, hs, he⟩, by rw [he], hw⟩
  · intro hx
    obtain ⟨⟨s, hs, he⟩, hr, hw⟩ := hx
    obtain ⟨db', c'⟩ := r
    simp only at hr hw
    subst hr
    simp only [hs, he, ne_eq, not_true_eq_false, if_false, hw]
    rfl

theorem save_ok_iff {disk disk' : Disk} {c c' : ServerConfig} {e e' : Entropy} :
    save P disk c e = (disk', .ok (c', e')) ↔
      ∃ disk₁ e₁, initializeStore P disk e = .ok (disk₁, e₁) ∧
        ∃ c₁ uuids, normalizeLoadedConfig P c e₁.uuids = .ok (c₁, uuids) ∧
          ∃ db, saveTransaction disk₁.db c₁ = .ok (db, c') ∧ disk' = { disk₁ with db := db } ∧
            e' = { e₁ with uuids := uuids } := by
  unfold save
  refine ⟨?_, ?_⟩
  · intro h
    split at h
    · cases h
    rename_i disk₁ e₁ hi
    split at h
    · cases h
    rename_i c₁ uuids hn
    split at h
    · cases h
    rename_i db c₂ ht
    cases h
    exact ⟨disk₁, e₁, hi, c₁, uuids, hn, db, ht, rfl, rfl⟩
  · intro hx
    obtain ⟨disk₁, e₁, hi, c₁, uuids, hn, db, ht, rfl, rfl⟩ := hx
    simp only [hi, hn, ht]

/-- After the initialisation a save succeeds when the configuration is accepted, the
revision is the stored one, and the snapshot is written. -/
theorem save_succeeds_iff {disk disk₁ : Disk} {c : ServerConfig} {e e₁ : Entropy}
    (hi : initializeStore P disk e = .ok (disk₁, e₁)) :
    (∃ r, (save P disk c e).2 = .ok r) ↔
      ∃ k, normalizeLoadedConfig P c e₁.uuids = .ok k ∧
        (∃ s, disk₁.db.settings = some s ∧ s.revision = k.1.revision) ∧
        ∃ db, writeSnapshot disk₁.db { k.1 with revision := nextRevision k.1.revision } = .ok db := by
  refine ⟨?_, ?_⟩
  · intro hx
    obtain ⟨⟨c', e'⟩, h⟩ := hx
    obtain ⟨disk₂, e₂, hi₂, c₁, uuids, hn, db, ht, -, -⟩ := save_ok_iff.1 (Prod.ext rfl h)
    rw [hi] at hi₂
    cases hi₂
    obtain ⟨hcur, hc', hw⟩ := saveTransaction_ok_iff.1 ht
    simp only at hcur hc' hw
    exact ⟨(c₁, uuids), hn, hcur, db, by rw [← hc']; exact hw⟩
  · intro hx
    obtain ⟨⟨c₁, uuids⟩, hn, hcur, db, hw⟩ := hx
    have ht : saveTransaction disk₁.db c₁ =
        .ok (db, { c₁ with revision := nextRevision c₁.revision }) :=
      saveTransaction_ok_iff.2 ⟨hcur, rfl, hw⟩
    have h := save_ok_iff.2 ⟨disk₁, e₁, hi, c₁, uuids, hn, db, ht, rfl, rfl⟩
    exact ⟨_, congrArg Prod.snd h⟩

theorem Valid.withRevision {c : ServerConfig} (h : Valid P c) (revision : Int) :
    Valid P { c with revision := revision } :=
  ⟨h.settings, h.users, h.names, h.distinct, h.disjoint, h.sorted⟩

/-- What a successful save has done. -/
structure Saved (P : Primitives) (disk : Disk) (c : ServerConfig) (e : Entropy) (disk' : Disk)
    (c' : ServerConfig) (e' : Entropy) (disk₁ : Disk) (e₁ : Entropy) : Prop where
  initialized : initializeStore P disk e = .ok (disk₁, e₁)
  current : ∃ s, disk₁.db.settings = some s ∧ s.revision = c.revision
  normalized : ∃ c₁, normalizeLoadedConfig P c e₁.uuids = .ok (c₁, e'.uuids) ∧
    c' = { c₁ with revision := nextRevision c.revision }
  written : writeSnapshot disk₁.db c' = .ok disk'.db
  backups : disk'.backups = disk₁.backups
  legacy : disk'.legacy = disk₁.legacy

theorem save_saved {disk disk' : Disk} {c c' : ServerConfig} {e e' : Entropy}
    (h : save P disk c e = (disk', .ok (c', e'))) :
    ∃ disk₁ e₁, Saved P disk c e disk' c' e' disk₁ e₁ := by
  obtain ⟨disk₁, e₁, hi, c₁, uuids, hn, db, ht, rfl, rfl⟩ := save_ok_iff.1 h
  obtain ⟨hcur, hc', hw⟩ := saveTransaction_ok_iff.1 ht
  simp only at hcur hc' hw
  have hrev : c₁.revision = c.revision := congrArg (·.revision) (normalize_valid P hn).2
  rw [hrev] at hcur hc'
  exact ⟨disk₁, e₁, hi, hcur, ⟨c₁, hn, hc'⟩, hw, rfl, rfl⟩

theorem Saved.valid {disk disk' disk₁ : Disk} {c c' : ServerConfig} {e e' e₁ : Entropy}
    (h : Saved P disk c e disk' c' e' disk₁ e₁) : Valid P c' := by
  obtain ⟨c₁, hn, rfl⟩ := h.normalized
  exact (normalize_valid P hn).1.withRevision _

theorem save_valid {disk disk' : Disk} {c c' : ServerConfig} {e e' : Entropy}
    (h : save P disk c e = (disk', .ok (c', e'))) : Valid P c' := by
  obtain ⟨disk₁, e₁, hs⟩ := save_saved h
  exact hs.valid

/-- **The database holds what was saved.** -/
theorem Saved.holds {disk disk' disk₁ : Disk} {c c' : ServerConfig} {e e' e₁ : Entropy}
    (h : Saved P disk c e disk' c' e' disk₁ e₁) : Holds disk'.db c' :=
  writeSnapshot_holds h.written (newIn_empty.1 h.valid.distinct.ids)
    (newIn_empty.1 h.valid.distinct.tunnels.ids)

/-- A save that is refused changes nothing but recovered passwords. -/
theorem save_error {disk disk' : Disk} {c : ServerConfig} {e : Entropy} {error : String}
    {s : SettingsRow} (hset : disk.db.settings = some s)
    (h : save P disk c e = (disk', .error error)) :
    SameButPasswords disk.db disk'.db ∧ disk'.backups = disk.backups ∧ disk'.legacy = disk.legacy := by
  unfold save at h
  split at h
  · cases h; exact ⟨.refl _, rfl, rfl⟩
  rename_i disk₁ e₁ hi
  have hsame := initializeStore_initialized hset hi
  split at h
  · cases h; exact ⟨hsame.1, hsame.2.1, hsame.2.2.1⟩
  split at h
  · cases h; exact ⟨hsame.1, hsame.2.1, hsame.2.2.1⟩
  · cases h

/-- The directory when nothing was saved: as it was, or after a refused save. -/
def Unsaved (P : Primitives) (disk disk' : Disk) : Prop :=
  disk' = disk ∨ ∃ c e error, save P disk c e = (disk', .error error)

theorem Unsaved.same {disk disk' : Disk} {s : SettingsRow} (h : Unsaved P disk disk')
    (hset : disk.db.settings = some s) : SameButPasswords disk.db disk'.db := by
  rcases h with rfl | ⟨c, e, error, hs⟩
  · exact .refl _
  · exact (save_error hset hs).1

end

end OrangeFrp.Storage
