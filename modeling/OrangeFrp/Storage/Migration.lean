import OrangeFrp.Storage.Legacy
import OrangeFrp.Storage.Passwords
import OrangeFrp.Storage.RoundTrip

/-!
# Legacy migration (`frp-game-server/src/storage.rs`)

What a legacy file has become once `migrate_legacy_config` and `save_new` are
through with it. Every user is rewritten three times, by the migration, by the
normalizer, and by the order in which its rows are read back.

* `migrateUsers_ok`: a port is taken from what neither the file nor an earlier
  tunnel uses.
* `checkUsers_kept`: the normalizer only sorts what the migration has made, and
  computes proxy names again.
* `migration_carries`: the stored configuration.
-/
namespace OrangeFrp.Storage

open OrangeFrp.Core OrangeFrp.Core.Table

/-! ## What is carried over -/

/-- A legacy tunnel and what it has become. -/
structure CarriedTunnel (t u : Tunnel) : Prop where
  id : if isBlank t.id = true then ∃ x : Uuid, u.id = x.simple.take 12 else u.id = t.id
  protocol : u.protocol = toAsciiUppercase (trim t.protocol)
  name : u.name = trim t.name
  remark : u.remark = trim t.remark
  localIp : u.localIp = trim t.localIp
  localPort : u.localPort = t.localPort
  remotePort : u.remotePort = t.remotePort

/-- A legacy user and what it has become. -/
structure CarriedUser (P : Primitives) (apiSalt : Str) (v : LegacyUser) (u : ServerUser) : Prop where
  account : u.account = trim v.account
  secret : u.secret = v.secret
  tunnelLimit : u.tunnelLimit = v.tunnelLimit
  trafficLimit : u.trafficLimitBytes = v.trafficLimitBytes
  trafficUsed : u.trafficUsedBytes = v.trafficUsedBytes
  speedLimit : u.speedLimitMbps = v.speedLimitMbps
  createdAt : u.createdAt = v.createdAt
  updatedAt : u.updatedAt = v.updatedAt
  hashed : verifyPassword P u.passwordHash v.password = true
  encrypted : decryptUserPassword P apiSalt u.secret u.passwordEncrypted = .ok (some v.password)
  tunnels : ∃ ts, List.Forall₂ CarriedTunnel v.tunnels ts ∧ ts.Perm u.tunnels

/-- A legacy configuration and what it has become. -/
structure Carried (P : Primitives) (legacy : LegacyServerConfig) (c : ServerConfig) : Prop where
  apiSalt : c.apiSalt = legacy.apiSalt
  apiBind : c.apiBind = legacy.apiBind
  frpsToken : c.frpsToken = legacy.frpsToken
  frpsBinary : c.frpsBinary = legacy.frpsBinary
  reserved : c.reserved = [legacy.apiPort, legacy.frpsBindPort, DEFAULT_PLUGIN_PORT]
  createdAt : c.createdAt = legacy.createdAt
  updatedAt : c.updatedAt = legacy.updatedAt
  users : ∃ us, List.Forall₂ (CarriedUser P legacy.apiSalt) legacy.users us ∧ us.Perm c.users

/-- The backend ports are free for the whole installation. -/
structure PortsAssigned (c : ServerConfig) : Prop where
  distinct : (c.tunnels.map (·.backendPort)).Nodup
  apart : ∀ t ∈ c.tunnels, ∀ u ∈ c.tunnels, t.remotePort ≠ u.backendPort
  unreserved : ∀ t ∈ c.tunnels, t.backendPort ∉ c.reserved

/-- A tunnel that was given a proxy name and a backend port. -/
structure Equipped (t u : Tunnel) : Prop where
  eq : u = { t with proxyName := u.proxyName, backendPort := u.backendPort }
  name : NameFor u.id u.proxyName

theorem SameButName.equipped {t u : Tunnel} (h : SameButName t u) : Equipped t u :=
  ⟨by rw [h.eq], h.name⟩

theorem CarriedTunnel.equipped {t u v : Tunnel} (h : CarriedTunnel t u) (hv : Equipped u v) :
    CarriedTunnel t v := by
  rw [hv.eq]
  exact ⟨h.id, h.protocol, h.name, h.remark, h.localIp, h.localPort, h.remotePort⟩

theorem Equipped.tunnelOk {t u : Tunnel} (h : Equipped t u) (ht : TunnelOk t) : TunnelOk u := by
  rw [h.eq]
  obtain ⟨h₁, -, h₂, h₃, h₄, h₅, h₆⟩ := ht
  exact ⟨h₁, h.name.not_blank, h₂, h₃, h₄, h₅, h₆⟩

theorem tunnelsOk_equipped {ts us : List Tunnel} (h : List.Forall₂ Equipped ts us) (hts : TunnelsOk ts) :
    TunnelsOk us where
  each u hu := by
    obtain ⟨t, ht, htu⟩ := exists_of_forall₂ h hu
    exact htu.tunnelOk (hts.each t ht)
  names := by
    rw [map_eq_of_forall₂ (fun t u h => show u.name = t.name by rw [h.eq]) h]
    exact hts.names
  ports := by
    rw [map_eq_of_forall₂ (fun t u h => show u.publicKey = t.publicKey by rw [h.eq]; rfl) h]
    exact hts.ports

/-! ## Ports -/

/-- Ports taken one after the other from what is not in use. -/
structure Allocated (used ports used' : List Port) : Prop where
  fresh : NewIn ports used
  used : used' = ports.reverse ++ used

theorem Allocated.nil (used : List Port) : Allocated used [] used := ⟨newIn_nil used, rfl⟩

theorem Allocated.append {used used₁ used₂ ports ports' : List Port} (h : Allocated used ports used₁)
    (h' : Allocated used₁ ports' used₂) : Allocated used (ports ++ ports') used₂ := by
  obtain ⟨hf, rfl⟩ := h
  obtain ⟨hf', rfl⟩ := h'
  exact ⟨newIn_append.2 ⟨hf, hf'⟩, by rw [List.reverse_append, List.append_assoc]⟩

theorem allocateBackendPort_allocated {used : List Port} {r : Port × List Port}
    (h : allocateBackendPort used = .ok r) : Allocated used [r.1] r.2 := by
  obtain ⟨hfresh, -, hused⟩ := allocateBackendPort_ok h
  exact ⟨newIn_cons.2 ⟨hfresh, newIn_nil _⟩, hused⟩

/-! ## The migration -/

theorem normalizeItem_carried (t : Tunnel) (d : Draws) : CarriedTunnel t (normalizeItem t d).1 := by
  refine ⟨?_, rfl, rfl, rfl, rfl, rfl, rfl⟩
  unfold normalizeItem
  cases hb : isBlank t.id with
  | true => exact ⟨d.head, rfl⟩
  | false => rfl

theorem normalizeTunnelsFrom_carried {names : List Str} {ports : List (Str × Port)} {ts items : List Tunnel}
    {d d' : Draws} (h : normalizeTunnelsFrom names ports ts d = .ok (items, d')) :
    List.Forall₂ CarriedTunnel ts items := by
  induction ts generalizing names ports d items with
  | nil =>
    cases h
    exact .nil
  | cons t ts ih =>
    rw [normalizeTunnelsFrom] at h
    split at h
    rename_i item d₁ hitem
    split at h
    · cases h
    split at h
    · cases h
    split at h
    · cases h
    split at h
    · cases h
    rename_i rest d₂ hrest
    cases h
    have hcarried := normalizeItem_carried t d
    rw [hitem] at hcarried
    exact .cons hcarried (ih hrest)

theorem migrateTunnels_ok {used : List Port} {ts : List Tunnel} {d : Draws}
    {r : List Tunnel × List Port × Draws} (h : migrateTunnels used ts d = .ok r) :
    List.Forall₂ Equipped ts r.1 ∧ Allocated used (r.1.map (·.backendPort)) r.2.1 := by
  induction ts generalizing used d r with
  | nil =>
    cases h
    exact ⟨.nil, .nil used⟩
  | cons t ts ih =>
    obtain ⟨port, hport, h⟩ := bind_eq_ok.1 h
    obtain ⟨rest, hrest, h⟩ := bind_eq_ok.1 h
    cases h
    obtain ⟨hts, hall⟩ := ih hrest
    exact ⟨.cons ⟨rfl, proxyNameFor_nameFor t.id d⟩ hts, (allocateBackendPort_allocated hport).append hall⟩

/-- What the migration has made of a legacy user. -/
structure MigratedUser (P : Primitives) (apiSalt : Str) (v : LegacyUser) (u : ServerUser) : Prop where
  carried : CarriedUser P apiSalt v u
  id : isBlank u.id = false
  tunnels : TunnelsOk u.tunnels

section
variable {P : Primitives} {apiSalt : Str}

theorem migrateUser_ok (hP : P.Inverse) {used : List Port} {v : LegacyUser} {e : Entropy}
    {r : ServerUser × List Port × Entropy} (he : e.Drawn) (h : migrateUser P apiSalt used v e = .ok r) :
    MigratedUser P apiSalt v r.1 ∧ Allocated used (r.1.tunnels.map (·.backendPort)) r.2.1 := by
  obtain ⟨normalized, hn, h⟩ := bind_eq_ok.1 h
  obtain ⟨tunnels, ht, h⟩ := bind_eq_ok.1 h
  obtain ⟨passwordHash, hh, h⟩ := bind_eq_ok.1 h
  obtain ⟨passwordEncrypted, hp, h⟩ := bind_eq_ok.1 h
  cases h
  obtain ⟨ts, d⟩ := normalized
  have hnormal := mapError_eq_ok.1 hn
  obtain ⟨hequipped, hall⟩ := migrateTunnels_ok ht
  have hts : List.Forall₂ CarriedTunnel v.tunnels tunnels.1 :=
    forall₂_comp (fun _ _ _ h h' => h.equipped h') (normalizeTunnelsFrom_carried hnormal) hequipped
  refine ⟨⟨⟨rfl, rfl, rfl, rfl, rfl, rfl, rfl, rfl, verifyPassword_hash hP hh,
    decryptUserPassword_encrypt hP (he 0) hp, tunnels.1, hts, .refl _⟩, draw_not_blank _ 16 (by decide),
    tunnelsOk_equipped hequipped (normalizeTunnels_wellFormed hnormal).1⟩, hall⟩

/-- **Ports are allocated user by user**, from what is left. -/
theorem migrateUsers_ok (hP : P.Inverse) {used : List Port} {vs : List LegacyUser} {e : Entropy}
    {r : List ServerUser × Entropy} (he : e.Drawn) (h : migrateUsers P apiSalt used vs e = .ok r) :
    List.Forall₂ (MigratedUser P apiSalt) vs r.1 ∧
      ∃ used', Allocated used ((r.1.flatMap (·.tunnels)).map (·.backendPort)) used' := by
  induction vs generalizing used e r with
  | nil =>
    cases h
    exact ⟨.nil, used, .nil used⟩
  | cons v vs ih =>
    obtain ⟨one, h₁, h⟩ := bind_eq_ok.1 h
    obtain ⟨rest, h₂, h⟩ := bind_eq_ok.1 h
    cases h
    obtain ⟨hu, hall⟩ := migrateUser_ok hP he h₁
    obtain ⟨hus, used', hall'⟩ := ih (migrateUser_agrees hP he h₁).2 h₂
    refine ⟨.cons hu hus, used', ?_⟩
    rw [List.flatMap_cons, List.map_append]
    exact hall.append hall'

/-- What `migrate_legacy_config` has made of a file. -/
structure Migrated (P : Primitives) (legacy : LegacyServerConfig) (c : ServerConfig) : Prop where
  carried : c = { c with
    revision := 0, apiSalt := legacy.apiSalt, apiBind := legacy.apiBind, apiPort := legacy.apiPort,
    frpsBindPort := legacy.frpsBindPort, frpsToken := legacy.frpsToken, frpsBinary := legacy.frpsBinary,
    pluginPort := DEFAULT_PLUGIN_PORT, createdAt := legacy.createdAt, updatedAt := legacy.updatedAt }
  users : List.Forall₂ (MigratedUser P legacy.apiSalt) legacy.users c.users
  ports : PortsAssigned c

/-- A public port is that of a legacy tunnel. -/
theorem remotePort_carried {vs : List LegacyUser} {us : List ServerUser}
    (h : List.Forall₂ (CarriedUser P apiSalt) vs us) {t : Tunnel} (ht : t ∈ us.flatMap (·.tunnels)) :
    t.remotePort ∈ vs.flatMap fun v => v.tunnels.map (·.remotePort) := by
  obtain ⟨u, hu, htu⟩ := List.mem_flatMap.1 ht
  obtain ⟨v, hv, hvu⟩ := exists_of_forall₂ h hu
  obtain ⟨ts, hts, hp⟩ := hvu.tunnels
  obtain ⟨t₀, ht₀, hcarried⟩ := exists_of_forall₂ hts (hp.mem_iff.2 htu)
  refine List.mem_flatMap.2 ⟨v, hv, ?_⟩
  rw [hcarried.remotePort]
  exact List.mem_map_of_mem ht₀

theorem migrateLegacyConfig_ok (hP : P.Inverse) {document : LegacyDocument} {e : Entropy}
    {r : ServerConfig × Entropy} (he : e.Drawn) (h : migrateLegacyConfig P document e = .ok r) :
    ∃ legacy, document.serverConfig = .ok legacy ∧ Migrated P legacy r.1 := by
  obtain ⟨legacy, hl, h⟩ := bind_eq_ok.1 h
  obtain ⟨users, hu, h⟩ := bind_eq_ok.1 h
  cases h
  obtain ⟨hus, used', hall⟩ := migrateUsers_ok hP he hu
  have hfree {u : Tunnel} (hu : u ∈ users.1.flatMap (·.tunnels)) :=
    hall.fresh.2 u.backendPort (List.mem_map_of_mem hu)
  refine ⟨legacy, hl, rfl, hus, hall.fresh.1, fun t ht u hu hport => ?_, fun t ht hres => ?_⟩
  · -- the public ports of all users are in use from the start
    have hmem := remotePort_carried (hus.imp fun _ _ h => h.carried) ht
    rw [hport] at hmem
    exact hfree hu (List.mem_append_left _ hmem)
  · refine hfree ht (List.mem_append_right _ ?_)
    simp only [ServerConfig.reserved, List.mem_cons, List.not_mem_nil, or_false] at hres ⊢
    tauto

end

/-! ## The normalizer -/

/-- A migrated user once the normalizer is through with it. -/
structure KeptUser (u v : ServerUser) : Prop where
  fields : v = { u with account := trim u.account, tunnels := v.tunnels }
  tunnels : List.Forall₂ SameButName u.tunnels v.tunnels

section
variable {P : Primitives} {apiSalt : Str}

theorem checkUser_kept {reserved : List Port} {seen : Seen} {u : ServerUser} {d : Draws}
    {r : Seen × ServerUser × Draws} (hid : isBlank u.id = false) (hts : TunnelsOk u.tunnels)
    (h : checkUser P apiSalt reserved seen u d = .ok r) : KeptUser u r.2.1 := by
  unfold checkUser at h
  simp only [hid, Bool.false_eq_true, if_false, normalizeTunnels_self hts, bailIf_bind_eq_ok] at h
  obtain ⟨-, -, -, -, h⟩ := h
  obtain ⟨_, -, h⟩ := bind_eq_ok.1 h
  simp only [bailIf_bind_eq_ok] at h
  obtain ⟨-, -, h⟩ := h
  obtain ⟨normalized, hn, h⟩ := bind_eq_ok.1 h
  obtain ⟨checked, hck, h⟩ := bind_eq_ok.1 h
  cases h
  cases hn
  obtain ⟨-, rfl⟩ := checkTunnels_ok_iff.1 hck
  exact ⟨rfl, renameTunnels_forall₂ _ _⟩

theorem checkUsers_kept {reserved : List Port} {seen : Seen} {us : List ServerUser} {d : Draws}
    {r : Seen × List ServerUser × Draws} (hid : ∀ u ∈ us, isBlank u.id = false)
    (hts : ∀ u ∈ us, TunnelsOk u.tunnels) (h : checkUsers P apiSalt reserved seen us d = .ok r) :
    List.Forall₂ KeptUser us r.2.1 := by
  induction us generalizing seen d r with
  | nil =>
    cases h
    exact .nil
  | cons u us ih =>
    obtain ⟨one, h₁, h⟩ := bind_eq_ok.1 h
    obtain ⟨rest, h₂, h⟩ := bind_eq_ok.1 h
    cases h
    rw [List.forall_mem_cons] at hid hts
    exact .cons (checkUser_kept hid.1 hts.1 h₁) (ih hid.2 hts.2 h₂)

theorem CarriedUser.kept {v : LegacyUser} {u w : ServerUser} (h : CarriedUser P apiSalt v u) (hw : KeptUser u w) :
    CarriedUser P apiSalt v w := by
  obtain ⟨ts, hts, hp⟩ := h.tunnels
  obtain ⟨ts', hts', hp'⟩ := List.perm_comp_forall₂ hp hw.tunnels
  have htunnels : List.Forall₂ CarriedTunnel v.tunnels ts' :=
    forall₂_comp (fun _ _ _ h h' => h.equipped h'.equipped) hts hts'
  have haccount : trim u.account = trim v.account := by
    rw [h.account, trim_trim]
  rw [hw.fields]
  exact ⟨haccount, h.secret, h.tunnelLimit, h.trafficLimit, h.trafficUsed, h.speedLimit, h.createdAt,
    h.updatedAt, h.hashed, h.encrypted, ts', htunnels, hp'⟩

theorem CarriedUser.reordered {v : LegacyUser} {u w : ServerUser} (h : CarriedUser P apiSalt v u)
    (hw : Reordered u w) : CarriedUser P apiSalt v w := by
  obtain ⟨ts, hts, hp⟩ := h.tunnels
  rw [hw.fields]
  exact ⟨h.account, h.secret, h.tunnelLimit, h.trafficLimit, h.trafficUsed, h.speedLimit, h.createdAt,
    h.updatedAt, h.hashed, h.encrypted, ts, hts, hp.trans hw.tunnels.symm⟩

end

theorem kept_tunnels {us vs : List ServerUser} (h : List.Forall₂ KeptUser us vs) :
    List.Forall₂ SameButName (us.flatMap (·.tunnels)) (vs.flatMap (·.tunnels)) := by
  induction h with
  | nil => exact .nil
  | cons h _ ih =>
    rw [List.flatMap_cons, List.flatMap_cons]
    exact List.rel_append h.tunnels ih

/-! ## The stored configuration -/

section
variable {P : Primitives}

theorem saveNew_kept {db : Db} {c : ServerConfig} {e : Entropy} {r : Db × ServerConfig × Entropy}
    (hid : ∀ u ∈ c.users, isBlank u.id = false) (hts : ∀ u ∈ c.users, TunnelsOk u.tunnels)
    (h : saveNew P db c e = .ok r) :
    ∃ us, List.Forall₂ KeptUser c.users us ∧ us.Perm r.2.1.users ∧
      r.2.1 = { c with revision := 1, users := r.2.1.users } := by
  obtain ⟨normalized, hn, h⟩ := bind_eq_ok.1 h
  obtain ⟨written, hw, h⟩ := bind_eq_ok.1 h
  obtain ⟨db', -, hw⟩ := bind_eq_ok.1 hw
  cases hw
  cases h
  obtain ⟨-, k, hk, -, rfl⟩ := (normalize_ok_iff P).1 hn
  exact ⟨k.2.1, checkUsers_kept hid hts hk, (sortUsers_perm _).symm, rfl⟩

theorem Valid.portsAssigned {c : ServerConfig} (h : Valid P c) : PortsAssigned c :=
  ⟨newIn_empty.1 h.distinct.tunnels.backendPorts, h.disjoint, fun t ht => (h.distinct.tunnels.backend t ht).2⟩

/-- **A migration keeps the installation.** -/
theorem migration_carries (hP : P.Inverse) {reject : Value → String} {value : Value} {e : Entropy}
    {m : ServerConfig × Entropy} {db : Db} {w : Db × ServerConfig × Entropy} (he : e.Drawn)
    (hm : migrateLegacyConfig P (legacyDocument reject value) e = .ok m)
    (hw : saveNew P db m.1 m.2 = .ok w) :
    (∃ legacy stored, (legacyDocument reject value).serverConfig = .ok legacy ∧ loadConfig w.1 = .ok stored ∧
      Carried P legacy stored ∧ PortsAssigned m.1 ∧ PortsAssigned stored ∧
      (stored.tunnels.map (·.backendPort)).Perm (m.1.tunnels.map (·.backendPort))) ∧
    ((value.get "users".toList).isSome = false → ∀ e',
      migrateLegacyConfig P (legacyDocument reject (multiUser value)) e' =
        migrateLegacyConfig P (legacyDocument reject value) e') := by
  obtain ⟨legacy, hl, hmig⟩ := migrateLegacyConfig_ok hP he hm
  refine ⟨?_, ?_⟩
  · have hid : ∀ u ∈ m.1.users, isBlank u.id = false := by
      intro u hu
      obtain ⟨v, -, hvu⟩ := exists_of_forall₂ hmig.users hu
      exact hvu.id
    have hts : ∀ u ∈ m.1.users, TunnelsOk u.tunnels := by
      intro u hu
      obtain ⟨v, -, hvu⟩ := exists_of_forall₂ hmig.users hu
      exact hvu.tunnels
    obtain ⟨us, hkept, hperm, hw'⟩ := saveNew_kept hid hts hw
    obtain ⟨hv, hh⟩ := saveNew_holds hw
    have hload := loadConfig_holds hh (newIn_empty.1 hv.distinct.ids) (newIn_empty.1 hv.distinct.accounts) hv.sorted
    have hreloaded := @reloaded_users P ⟨w.1, none, []⟩ _ hv hh
    have hvalid := @valid_reloaded P ⟨w.1, none, []⟩ _ hv hh
    obtain ⟨vs, hreordered, hvs⟩ := List.perm_comp_forall₂ hperm hreloaded
    refine ⟨legacy, reloaded w.1 w.2.1, hl, hload, ?_, hmig.ports, hvalid.portsAssigned, ?_⟩
    · have hus : List.Forall₂ (CarriedUser P legacy.apiSalt) legacy.users us :=
        forall₂_comp (fun _ _ _ h h' => h.carried.kept h') hmig.users hkept
      have husers : List.Forall₂ (CarriedUser P legacy.apiSalt) legacy.users vs :=
        forall₂_comp (fun _ _ _ h h' => h.reordered h') hus hreordered
      have hfields : reloaded w.1 w.2.1 = { m.1 with revision := 1, users := (reloaded w.1 w.2.1).users } := by
        rw [reloaded, hw']
      rw [hfields, hmig.carried]
      exact ⟨rfl, rfl, rfl, rfl, rfl, rfl, rfl, vs, husers, hvs⟩
    · have hstored := (reordered_tunnels hreloaded).map (·.backendPort)
      have hsorted := (hperm.flatMap_right (·.tunnels)).map (·.backendPort)
      have hnamed := map_eq_of_forall₂ (fun _ _ h => SameButName.backendPort_eq h) (kept_tunnels hkept)
      exact (hstored.trans hsorted.symm).trans (.of_eq hnamed)
  · intro hs e'
    unfold migrateLegacyConfig
    rw [multiUser_document hl hs, hl]
    rfl

end

/-- The file of one user, with one tunnel. -/
def oneUserFile (id protocol : Str) : Value := .obj [
  ("account".toList, .str [' ', 'a']),
  ("password".toList, .str "password".toList),
  ("secret".toList, .str (List.replicate 36 'x')),
  ("api_salt".toList, .str (List.replicate 32 's')),
  ("api_bind".toList, .str ['h']),
  ("api_port".toList, .int 7631),
  ("frps_bind_port".toList, .int 7000),
  ("frps_token".toList, .str ['t']),
  ("frps_binary".toList, .str ['f']),
  ("tunnels".toList, .arr [.obj [
    ("id".toList, .str id),
    ("proxy_name".toList, .str []),
    ("protocol".toList, .str protocol),
    ("name".toList, .str ['n']),
    ("remark".toList, .str ['r']),
    ("local_ip".toList, .str ['l']),
    ("local_port".toList, .int 80),
    ("remote_port".toList, .int 23111)]])]

/-- A file, and what is stored in an empty database. -/
def migrateFile (value : Value) : Except String (LegacyServerConfig × ServerConfig) := do
  let legacy ← (legacyDocument (fun _ => "") value).serverConfig
  let migrated ← migrateLegacyConfig .tagging (legacyDocument (fun _ => "") value) zeros
  let written ← saveNew .tagging Db.empty migrated.1 migrated.2
  let stored ← loadConfig written.1
  return (legacy, stored)

theorem oneUserFile_carried : ∃ legacy stored, migrateFile (oneUserFile ['x'] tcp) = .ok (legacy, stored) ∧
    Carried .tagging legacy stored ∧ PortsAssigned stored := by
  have hrun : (migrateFile (oneUserFile ['x'] tcp)).isOk = true := by
    decide +kernel
  cases h : migrateFile (oneUserFile ['x'] tcp) with
  | error error => rw [h] at hrun; cases hrun
  | ok r =>
    obtain ⟨legacy, hl, hrest⟩ := bind_eq_ok.1 h
    obtain ⟨m, hm, hrest⟩ := bind_eq_ok.1 hrest
    obtain ⟨w, hw, hrest⟩ := bind_eq_ok.1 hrest
    obtain ⟨stored, hs, hrest⟩ := bind_eq_ok.1 hrest
    cases hrest
    obtain ⟨⟨legacy', stored', hl', hs', hcarried, -, hports, -⟩, -⟩ :=
      migration_carries tagging_inverse zeros_drawn hm hw
    cases hl.symm.trans hl'
    cases hs.symm.trans hs'
    exact ⟨legacy, stored, rfl, hcarried, hports⟩

/-- A blank id and a protocol in lower case are not what is stored. -/
theorem blank_id_replaced : ∃ legacy stored, migrateFile (oneUserFile [] ['t', 'c', 'p']) = .ok (legacy, stored) ∧
    ∃ v ∈ legacy.users, ∀ u ∈ stored.users, ¬ (u.tunnels.map (·.id)).Perm (v.tunnels.map (·.id)) ∧
      ¬ (u.tunnels.map (·.protocol)).Perm (v.tunnels.map (·.protocol)) := by
  have hrun : (migrateFile (oneUserFile [] ['t', 'c', 'p'])).toOption.map (fun r => r.1.users.any fun v =>
      r.2.users.all fun u => ¬ (u.tunnels.map (·.id)).Perm (v.tunnels.map (·.id)) ∧
        ¬ (u.tunnels.map (·.protocol)).Perm (v.tunnels.map (·.protocol))) = some true := by
    decide +kernel
  cases h : migrateFile (oneUserFile [] ['t', 'c', 'p']) with
  | error error => rw [h] at hrun; cases hrun
  | ok r =>
    rw [h] at hrun
    obtain ⟨v, hv, hall⟩ := List.any_eq_true.1 (Option.some.inj hrun)
    exact ⟨r.1, r.2, rfl, v, hv, fun u hu => of_decide_eq_true (List.all_eq_true.1 hall u hu)⟩

end OrangeFrp.Storage
