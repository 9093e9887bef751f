import OrangeFrp.Storage.Kept
import OrangeFrp.Storage.Traffic
import OrangeFrp.Storage.WriteOrder

/-!
# What is saved and what is read back

A configuration that `save` has handed back may be read back differently: names
of ids without a cleaned form are drawn again, a traffic record is kept under its
proxy name alone, records are never deleted, and the flag of a record is cleared
with the tunnel of its name.

* `roundTrips_iff`: once a configuration is held, it is read back exactly when the
  directory mirrors it.
* `Resaved.roundTrips_iff`: what is saved over it is read back exactly under `Storable`.
-/
namespace OrangeFrp.Storage

open OrangeFrp.Core OrangeFrp.Core.Table

/-- The same user up to its records, its tunnels in another order. -/
structure Reordered (u v : ServerUser) : Prop where
  fields : v = { u with tunnels := v.tunnels, trafficByProxy := v.trafficByProxy }
  tunnels : v.tunnels.Perm u.tunnels

/-- The same user, its tunnels in another order. -/
structure SameUser (u v : ServerUser) : Prop extends Reordered u v where
  traffic : Assoc.Same v.trafficByProxy u.trafficByProxy

structure SameConfig (c c' : ServerConfig) : Prop where
  fields : c' = { c with users := c'.users }
  users : List.Forall₂ SameUser c.users c'.users

/-- Every read returns the configuration. -/
def RoundTrips (P : Primitives) (disk : Disk) (c : ServerConfig) : Prop :=
  ∀ e, ∃ disk' c' e', read P disk e = (disk', .ok (c', e')) ∧ SameConfig c c'

/-- No backup has a password for a user without a stored one. -/
def Unrecoverable (P : Primitives) (us : List ServerUser) (backups : List (Str × Option Value)) : Prop :=
  ∀ u ∈ us, u.passwordEncrypted = [] → ∀ k ∈ passwordCandidates backups,
    ¬ (k.1 = u.account ∧ verifyPassword P u.passwordHash k.2 = true)

/-- The directory holds the configuration with its records, and nothing else. -/
structure Mirrored (P : Primitives) (disk : Disk) (c : ServerConfig) : Prop where
  valid : Valid P c
  clean : NoDash c
  holds : Holds disk.db c
  recorded : ∀ u ∈ c.users, Recorded disk.db u
  flagged : ∀ u ∈ c.users, ∀ t ∈ u.tunnels, ∀ record,
    u.trafficByProxy.lookup t.proxyName = some record → record.active = true
  unrecoverable : Unrecoverable P c.users disk.backups

section
variable {P : Primitives} {disk : Disk} {c : ServerConfig}

/-! ## The recovery has nothing to do -/

theorem recoverUsers_none {apiSalt : Str} {candidates : List (Str × Str)} {rows : List UserRow}
    (h : ∀ row ∈ rows, candidates.find? (fun k =>
      k.1 = row.account ∧ verifyPassword P row.passwordHash k.2) = none)
    (users : Table userSchema) (nonces : Stream' Bytes) :
    recoverUsers P apiSalt candidates users rows nonces = .ok users := by
  induction rows generalizing nonces with
  | nil => rfl
  | cons row rows ih =>
    rw [recoverUsers, h row List.mem_cons_self]
    exact ih (fun r hr => h r (List.mem_cons_of_mem row hr)) nonces

theorem initializeStore_settled (hh : Holds disk.db c) (hu : Unrecoverable P c.users disk.backups)
    (e : Entropy) : initializeStore P disk e =
      .ok (disk, { e with nonces := e.nonces.drop disk.db.users.rows.length }) := by
  have hrec : recoverPasswordsFromLegacyBackups P disk.db disk.backups e.nonces = .ok disk.db := by
    unfold recoverPasswordsFromLegacyBackups recoverTransaction
    split
    · rfl
    split
    · rfl
    rw [hh.settings]
    have hnone := @recoverUsers_none P (SettingsRow.of c).apiSalt (passwordCandidates disk.backups)
      (disk.db.users.rows.filter fun r => r.passwordEncrypted = []) (fun row hrow => by
        obtain ⟨hr, he⟩ := List.mem_filter.1 hrow
        obtain ⟨u, hum, rfl⟩ := (hh.users row).1 hr
        refine List.find?_eq_none.2 fun k hk => ?_
        rw [decide_eq_true_eq]
        exact hu u hum (of_decide_eq_true he) k hk) disk.db.users e.nonces
    simp only [hnone]
    rw [← hh.settings]
    rfl
  unfold initializeStore
  rw [if_pos (by rw [hh.settings]; rfl), hrec]
  rfl

/-! ## The configuration that is loaded -/

/-- The configuration with the tunnels and the records of the database. -/
def reloaded (db : Db) (c : ServerConfig) : ServerConfig :=
  { c with users := c.users.map fun u => (UserRow.of u).user db }

theorem reordered_column {α : Type} (f : ServerUser → α)
    (hf : ∀ u ts traffic, f { u with tunnels := ts, trafficByProxy := traffic } = f u)
    {us vs : List ServerUser} (h : List.Forall₂ Reordered us vs) : vs.map f = us.map f :=
  map_eq_of_forall₂ (fun u v h => by rw [h.fields, hf]) h

theorem reordered_tunnels {us vs : List ServerUser} (h : List.Forall₂ Reordered us vs) :
    (vs.flatMap (·.tunnels)).Perm (us.flatMap (·.tunnels)) := by
  induction h with
  | nil => exact .refl _
  | cons h _ ih =>
    rw [List.flatMap_cons, List.flatMap_cons]
    exact h.tunnels.append ih

/-- Another order of the tunnels and other records leave a configuration valid. -/
theorem Valid.reorder {us : List ServerUser} (hv : Valid P c) (h : List.Forall₂ Reordered c.users us) :
    Valid P { c with users := us } := by
  have hts := reordered_tunnels h
  have hmem : ∀ t ∈ us.flatMap (·.tunnels), t ∈ c.tunnels := fun t ht => hts.mem_iff.1 ht
  refine ⟨hv.settings, fun v hvm => ?_, fun t ht => hv.names t (hmem t ht), ⟨?_, ?_, ?_, ?_⟩,
    fun t ht o ho => hv.disjoint t (hmem t ht) o (hmem o ho), ?_⟩
  · obtain ⟨u, hu, he, hp⟩ := exists_of_forall₂ h hvm
    obtain ⟨h₁, h₂, h₃, h₄, h₅, h₆, h₇, h₈, h₉, h₁₀⟩ := hv.users u hu
    rw [he]
    exact ⟨h₁, h₂, h₃, h₄, h₅, h₆, h₇, h₈, hp.length_eq.le.trans h₉,
      fun t ht => h₁₀.each t (hp.mem_iff.1 ht), (hp.map _).nodup_iff.2 h₁₀.names,
      (hp.map _).nodup_iff.2 h₁₀.ports⟩
  · rw [reordered_column (·.account) (fun _ _ _ => rfl) h]; exact hv.distinct.accounts
  · rw [reordered_column (·.id) (fun _ _ _ => rfl) h]; exact hv.distinct.ids
  · rw [reordered_column (·.secret) (fun _ _ _ => rfl) h]; exact hv.distinct.secrets
  · exact hv.distinct.tunnels.perm hts.symm
  · exact sorted_of_accounts (reordered_column (·.account) (fun _ _ _ => rfl) h) hv.sorted

theorem mem_drawnNames_constant {x : Uuid} {n : Nat} {name : Str}
    (h : name ∈ drawnNames (fun _ => x) n) : name = fgPrefix ++ x.simple.take 12 := by
  induction n with
  | zero => cases h
  | succ n ih =>
    rcases List.mem_cons.1 h with h | h
    · exact h
    · exact ih h

section
variable (hv : Valid P c) (hh : Holds disk.db c)
include hv hh

theorem reloaded_users : List.Forall₂ Reordered c.users (reloaded disk.db c).users := by
  rw [reloaded, List.forall₂_map_right_iff]
  exact List.forall₂_same.2 fun u hu => ⟨rfl, hh.tunnelsOf_perm (newIn_empty.1 hv.distinct.ids)
    (newIn_empty.1 hv.distinct.tunnels.ids) hu⟩

theorem valid_reloaded : Valid P (reloaded disk.db c) := hv.reorder (reloaded_users hv hh)

/-- What a read does when nothing can be recovered. -/
theorem read_held (hu : Unrecoverable P c.users disk.backups) (e : Entropy) :
    Storage.read P disk e = (disk, (normalizeLoadedConfig P (reloaded disk.db c) e.uuids).map fun r =>
      (r.1, ⟨r.2, e.nonces.drop disk.db.users.rows.length, e.salts⟩)) := by
  have hl : loadConfig disk.db = .ok (reloaded disk.db c) := loadConfig_holds hh
    (newIn_empty.1 hv.distinct.ids) (newIn_empty.1 hv.distinct.accounts) hv.sorted
  unfold Storage.read
  rw [initializeStore_settled hh hu]
  simp only [hl]
  cases h : normalizeLoadedConfig P (reloaded disk.db c) e.uuids <;> simp [bind, Except.bind, h, pure,
    Except.pure, Except.map]

/-! ## When a configuration that is held is read back -/

/-- Reading back means that no name is drawn and the records of every user are loaded. -/
theorem roundTrips_iff (hu : Unrecoverable P c.users disk.backups) : RoundTrips P disk c ↔
    NoDash c ∧ ∀ u ∈ c.users, Assoc.Same (disk.db.trafficOf u.id) u.trafficByProxy := by
  have hus := reloaded_users hv hh
  have hvr := valid_reloaded hv hh
  refine ⟨?_, ?_⟩
  · intro h
    have hread : ∀ e : Entropy, ∃ c', SameConfig c c' ∧
        c'.users = (renameUsers (reloaded disk.db c).users e.uuids).1 := by
      intro e
      obtain ⟨disk', c', e', hr, hs⟩ := h e
      rw [read_held hv hh hu, Prod.mk.injEq] at hr
      cases hn : normalizeLoadedConfig P (reloaded disk.db c) e.uuids with
      | error error => rw [hn] at hr; cases hr.2
      | ok k =>
        rw [hn] at hr
        cases hr.2
        obtain ⟨-, -, hk⟩ := (normalize_clean_iff P hvr.settings hvr.users e.uuids).1 hn
        have hcol := map_eq_of_sameButNames (·.account) (fun _ _ => rfl)
          (renameUsers_forall₂ (reloaded disk.db c).users e.uuids)
        rw [sortUsers_self (sorted_of_accounts hcol hvr.sorted)] at hk
        exact ⟨k.1, hs, by rw [hk]⟩
    refine ⟨?_, ?_⟩
    · intro t ht hdash
      -- a read that draws another name over and over
      obtain ⟨x, hx⟩ := exists_other_name t.proxyName
      obtain ⟨c', hs, hus'⟩ := hread ⟨fun _ => x, fun _ => [], fun _ => []⟩
      have hmem : t ∈ c'.users.flatMap (·.tunnels) :=
        (reordered_tunnels (hs.users.imp fun _ _ h => h.toReordered)).mem_iff.2 ht
      rw [hus', (renameUsers_tunnels _ _).1] at hmem
      exact hx (mem_drawnNames_constant ((mem_renameTunnels hmem).2 hdash))
    · intro u hum
      obtain ⟨c', hs, hus'⟩ := hread Entropy.constant
      obtain ⟨v, hvm, hsame⟩ := exists_of_forall₂ hs.users.flip hum
      have hid : v.id = u.id := by rw [hsame.fields]
      have hrows : v.trafficByProxy = disk.db.trafficOf v.id := by
        rw [hus'] at hvm
        obtain ⟨w, hw, hwv⟩ := exists_of_forall₂ (renameUsers_forall₂ _ _) hvm
        obtain ⟨x, -, rfl⟩ := List.mem_map.1 hw
        rw [hwv.1]
        rfl
      rw [← hid, ← hrows]
      exact hsame.traffic
  · intro hand e
    obtain ⟨hclean, hsame⟩ := hand
    have hcr : NoDash (reloaded disk.db c) := fun t ht =>
      hclean t ((reordered_tunnels hus).mem_iff.1 ht)
    refine ⟨disk, reloaded disk.db c, _, by rw [read_held hv hh hu, normalize_self P hvr hcr]; rfl,
      rfl, ?_⟩
    rw [reloaded, List.forall₂_map_right_iff] at hus ⊢
    exact List.forall₂_same.2 fun u hum => ⟨List.forall₂_same.1 hus u hum, hsame u hum⟩

end

/-- The rows of a user with the flags of its tunnels set are loaded as its records. -/
theorem Recorded.trafficOf_same {db : Db} {u : ServerUser} (h : Recorded db u)
    (hf : ∀ t ∈ u.tunnels, ∀ record, u.trafficByProxy.lookup t.proxyName = some record →
      record.active = true) : Assoc.Same (db.trafficOf u.id) u.trafficByProxy := by
  have hrow : ∀ {name record}, u.trafficByProxy.lookup name = some record →
      (TrafficRow.of u name record).toProxyTrafficRecord = record := by
    intro name record hl
    by_cases hn : name ∈ u.tunnels.map (·.proxyName)
    · obtain ⟨t, ht, rfl⟩ := List.mem_map.1 hn
      obtain ⟨protocol, remotePort, trafficIn, trafficOut, active⟩ := record
      obtain rfl : active = true := hf t ht _ hl
      simp [TrafficRow.of]
    · simp [TrafficRow.of, hn]
  intro name
  apply Option.ext
  intro record
  rw [lookup_trafficOf]
  refine ⟨?_, ?_⟩
  · intro hx
    obtain ⟨r, hr, hown, rfl, rfl⟩ := hx
    obtain ⟨name, record, hl, rfl⟩ := (h r).1 ⟨hr, hown⟩
    rw [hrow hl]
    exact hl
  · intro hl
    exact ⟨_, ((h _).2 ⟨name, record, hl, rfl⟩).1, rfl, rfl, hrow hl⟩

theorem Mirrored.roundTrips (h : Mirrored P disk c) : RoundTrips P disk c :=
  (roundTrips_iff h.valid h.holds h.unrecoverable).2
    ⟨h.clean, fun u hu => (h.recorded u hu).trafficOf_same (h.flagged u hu)⟩

end

/-! ## A save from a mirrored configuration -/

/-- The configuration `c` can take the place of `c₀` in the database. -/
structure Storable (c₀ c : ServerConfig) : Prop where
  /-- no name is drawn -/
  clean : NoDash c
  /-- no two users have a record of the same name -/
  apart : ∀ u ∈ c.users, ∀ v ∈ c.users, ∀ name, name ∈ u.trafficByProxy → name ∈ v.trafficByProxy →
    u.id = v.id
  /-- no record has been forgotten -/
  covered : ∀ u ∈ c₀.users, ∀ name ∈ u.trafficByProxy, ∃ v ∈ c.users, name ∈ v.trafficByProxy
  /-- no active record has the name of a deleted tunnel -/
  gone : ∀ t ∈ c₀.tunnels, t.id ∉ c.tunnels.map (·.id) → ∀ u ∈ c.users, ∀ record,
    u.trafficByProxy.lookup t.proxyName = some record → record.active = false
  /-- the record of a tunnel is active -/
  flagged : ∀ u ∈ c.users, ∀ t ∈ u.tunnels, ∀ record,
    u.trafficByProxy.lookup t.proxyName = some record → record.active = true

/-- What a save of tunnels or of traffic leaves alone in a user. -/
def ServerUser.login (u : ServerUser) : Str × Str × Str × Str :=
  (u.id, u.account, u.passwordHash, u.passwordEncrypted)

/-- A save from a mirrored configuration, of one with the same users. -/
structure Resaved (P : Primitives) (disk : Disk) (c₀ c : ServerConfig) (d : Draws) (disk' : Disk)
    (c' : ServerConfig) : Prop where
  before : Mirrored P disk c₀
  logins : c.users.map (·.login) = c₀.users.map (·.login)
  names : ∀ t ∈ c.tunnels, NameFor t.id t.proxyName
  rewritten : Rewritten P disk c d disk' c'

section
variable {P : Primitives} {disk disk' : Disk} {c₀ c c' : ServerConfig} {d : Draws}
  (h : Resaved P disk c₀ c d disk' c')
include h

theorem Resaved.ids : c.users.map (·.id) = c₀.users.map (·.id) := by
  have hmap := congrArg (List.map Prod.fst) h.logins
  rwa [List.map_map, List.map_map] at hmap

theorem Resaved.logins' : c'.users.map (·.login) = c₀.users.map (·.login) := by
  rw [← h.logins, h.rewritten.eq]
  exact map_eq_of_sameButNames (·.login) (fun _ _ => rfl) (renameUsers_forall₂ c.users d)

theorem Resaved.clean_iff : NoDash c' ↔ NoDash c := by
  have hcol : c'.tunnels.map (·.id) = c.tunnels.map (·.id) := by
    rw [h.rewritten.eq]
    exact (congrArg (List.map (·.id)) (renameUsers_tunnels _ _).1).trans
      (map_eq_of_sameButName (·.id) (fun _ _ => rfl) (renameTunnels_forall₂ _ _))
  have hiff : ∀ k : ServerConfig, NoDash k ↔ ∀ i ∈ k.tunnels.map (·.id), ¬ DashOnly i := by
    intro k; rw [List.forall_mem_map]; rfl
  rw [hiff, hiff, hcol]

theorem Resaved.unrecoverable : Unrecoverable P c'.users disk'.backups := by
  intro u hu
  have hm := List.mem_map_of_mem (f := (·.login)) hu
  rw [h.logins'] at hm
  obtain ⟨v, hv, he⟩ := List.mem_map.1 hm
  simp only [ServerUser.login, Prod.mk.injEq] at he
  rw [← he.2.1, ← he.2.2.1, ← he.2.2.2, h.rewritten.backups]
  exact h.before.unrecoverable v hv

variable (hc : NoDash c)
include hc

theorem Resaved.eq : c' = { c with revision := nextRevision c.revision } := by
  rw [h.rewritten.eq, renamed, renameUsers_of_clean h.names hc]

theorem Resaved.users : c'.users = c.users := by rw [h.eq hc]

theorem Resaved.tunnels : c'.tunnels = c.tunnels := by rw [ServerConfig.tunnels, h.users hc]; rfl

/-- The records after the save, for a snapshot that starts from the records of `c₀`. -/
structure Resaved.Snapshot (h : Resaved P disk c₀ c d disk' c') (db : Db) : Prop where
  written : writeSnapshot db c' = .ok disk'.db
  traffic : (deleteMissingUsers db c'.users).traffic = disk.db.traffic
  stale : ∀ name, name ∈ staleNames db c' ↔
    ∃ t ∈ c₀.tunnels, t.id ∉ c.tunnels.map (·.id) ∧ t.proxyName = name

theorem Resaved.snapshot : ∃ db, h.Snapshot db := by
  obtain ⟨db, hsame, hw⟩ := h.rewritten.written
  have hids : c'.users.map (·.id) = c₀.users.map (·.id) := by rw [h.users hc, h.ids]
  have hrows : db.users.rows.map (·.id) = disk.db.users.rows.map (·.id) := hsame.column _ fun _ => rfl
  refine ⟨db, hw, ?_, fun name => ?_⟩
  · refine Table.ext ?_
    rw [deleteMissingUsers, Table.filter_rows, hsame.traffic, List.filter_eq_self]
    intro r hr
    -- every row of the users is one of `c₀`, whose users are still there
    have hin : r.userId ∈ db.users.rows.map (·.id) → r.userId ∈ c'.users.map (·.id) := by
      rw [hrows, hids]
      intro hm
      obtain ⟨q, hq, he⟩ := List.mem_map.1 hm
      obtain ⟨u, hu, rfl⟩ := (h.before.holds.users q).1 hq
      exact List.mem_map.2 ⟨u, hu, he⟩
    by_cases hm : r.userId ∈ db.users.rows.map (·.id)
    · simp [List.mem_map.1 (hin hm)]
    · simp [List.mem_map.not.1 hm]
  · rw [mem_staleNames, hsame.tunnels, h.tunnels hc]
    · refine ⟨?_, ?_⟩
      · intro hx
        obtain ⟨r, hr, hid, rfl⟩ := hx
        obtain ⟨u, hu, t, ht, rfl⟩ := (h.before.holds.tunnels r).1 hr
        exact ⟨t, List.mem_flatMap.2 ⟨u, hu, ht⟩, hid, rfl⟩
      · intro hx
        obtain ⟨t, ht, hid, rfl⟩ := hx
        obtain ⟨u, hu, htu⟩ := List.mem_flatMap.1 ht
        exact ⟨_, (h.before.holds.tunnels _).2 ⟨u, hu, t, htu, rfl⟩, hid, rfl⟩
    · intro r hr
      rw [hsame.tunnels] at hr
      obtain ⟨u, hu, t, -, rfl⟩ := (h.before.holds.tunnels r).1 hr
      rw [hids]
      exact List.mem_map_of_mem hu

/-- The record of a name is the one written by its only owner. -/
theorem Resaved.find {db : Db} (hs : h.Snapshot db)
    (ha : ∀ u ∈ c.users, ∀ v ∈ c.users, ∀ name, name ∈ u.trafficByProxy → name ∈ v.trafficByProxy →
      u.id = v.id) {u : ServerUser} (hu : u ∈ c.users) {name : Str} {record : ProxyTrafficRecord}
    (hl : u.trafficByProxy.lookup name = some record) : disk'.db.traffic.find name =
      some (cleared (staleNames db c') (TrafficRow.of u name record)) := by
  have hv := h.rewritten.valid
  rw [← h.users hc] at hu ha
  refine find_written hs.written (newIn_empty.1 hv.distinct.tunnels.ids) hv.sorted
    (newIn_empty.1 hv.distinct.accounts) hu hl fun v hvm hvn => ?_
  have hid := ha u hu v hvm name (Assoc.mem_iff_exists.2 ⟨record, hl⟩) hvn
  rw [List.inj_on_of_nodup_map (newIn_empty.1 hv.distinct.ids) hu hvm hid]

/-- **What can take the place is mirrored afterwards.** -/
theorem Resaved.mirrored (hst : Storable c₀ c) : Mirrored P disk' c' := by
  have hv := h.rewritten.valid
  have hus := h.users hc
  obtain ⟨db, hs⟩ := h.snapshot hc
  have htids := newIn_empty.1 hv.distinct.tunnels.ids
  have hrow : ∀ u ∈ c.users, ∀ name record, u.trafficByProxy.lookup name = some record →
      cleared (staleNames db c') (TrafficRow.of u name record) = TrafficRow.of u name record := by
    intro u hu name record hl
    by_cases hm : name ∈ staleNames db c'
    · obtain ⟨t, ht, hid, rfl⟩ := (hs.stale name).1 hm
      have hact := hst.gone t ht hid u hu record hl
      -- a tunnel of this name would have met the stale row
      have hown : t.proxyName ∉ u.tunnels.map (·.proxyName) := by
        intro hmem
        obtain ⟨o, ho, he⟩ := List.mem_map.1 hmem
        refine not_mem_staleNames hs.written htids (t := o) ?_ (he ▸ hm)
        rw [h.tunnels hc]
        exact List.mem_flatMap.2 ⟨u, hu, ho⟩
      simp [cleared, TrafficRow.of, hact, hown]
    · simp [cleared, TrafficRow.of, hm]
  refine ⟨hv, h.clean_iff.2 hc, h.rewritten.holds, ?_, by rw [hus]; exact hst.flagged,
    h.unrecoverable⟩
  rw [hus]
  intro u hu r
  refine ⟨?_, ?_⟩
  · intro hx
    obtain ⟨hr, hown⟩ := hx
    rcases find_origin hs.written htids (mem_traffic_iff.1 hr) with
      ⟨v, hvm, record, hl, he⟩ | ⟨r₀, h₀, hno, he⟩
    · rw [hus] at hvm
      have hid : v.id = u.id := by rw [← hown, he]; rfl
      obtain rfl := List.inj_on_of_nodup_map
        (by rw [← hus]; exact newIn_empty.1 hv.distinct.ids) hvm hu hid
      exact ⟨_, record, hl, he.trans (hrow v hvm _ record hl)⟩
    · rw [hs.traffic] at h₀
      rw [hus] at hno
      obtain ⟨hm, hk⟩ := Table.find_eq_some.1 h₀
      have hown₀ : r₀.userId = u.id := by rw [← hown, he]; rfl
      have hmem : u.id ∈ c₀.users.map (·.id) := h.ids ▸ List.mem_map_of_mem hu
      obtain ⟨v, hvm, hvid⟩ := List.mem_map.1 hmem
      have hn := (h.before.recorded v hvm).covered r₀ hm (hown₀.trans hvid.symm)
      obtain ⟨w, hw, hwn⟩ := hst.covered v hvm _ hn
      have hk : r₀.proxyName = r.proxyName := hk
      exact absurd (hk ▸ hwn) (hno w hw)
  · intro hx
    obtain ⟨name, record, hl, rfl⟩ := hx
    refine ⟨mem_traffic_iff.2 ?_, rfl⟩
    exact (h.find hc hs hst.apart hu hl).trans (congrArg some (hrow u hu name record hl))

omit hc in
/-- **What is read back could take the place.** -/
theorem Resaved.storable (hr : RoundTrips P disk' c') : Storable c₀ c := by
  have hv := h.rewritten.valid
  obtain ⟨hclean, hsame⟩ := (roundTrips_iff hv h.rewritten.holds h.unrecoverable).1 hr
  have hc := h.clean_iff.1 hclean
  have hus := h.users hc
  rw [hus] at hsame
  obtain ⟨db, hs⟩ := h.snapshot hc
  have htids := newIn_empty.1 hv.distinct.tunnels.ids
  have hload : ∀ u ∈ c.users, ∀ r ∈ disk'.db.traffic.rows, r.userId = u.id →
      u.trafficByProxy.lookup r.proxyName = some r.toProxyTrafficRecord := by
    intro u hu r hrm hown
    rw [← hsame u hu]
    exact lookup_trafficOf.2 ⟨r, hrm, hown, rfl, rfl⟩
  have hrow : ∀ u ∈ c.users, ∀ name, name ∈ u.trafficByProxy →
      ∃ r ∈ disk'.db.traffic.rows, r.userId = u.id ∧ r.proxyName = name := by
    intro u hu name hn
    obtain ⟨record, hl⟩ := Assoc.mem_iff_exists.1 hn
    rw [← hsame u hu] at hl
    obtain ⟨r, hrm, hown, he, -⟩ := lookup_trafficOf.1 hl
    exact ⟨r, hrm, hown, he⟩
  have hapart : ∀ u ∈ c.users, ∀ v ∈ c.users, ∀ name, name ∈ u.trafficByProxy →
      name ∈ v.trafficByProxy → u.id = v.id := by
    intro u hu v hvm name hun hvn
    obtain ⟨r, hrm, hr₁, hr₂⟩ := hrow u hu name hun
    obtain ⟨q, hqm, hq₁, hq₂⟩ := hrow v hvm name hvn
    rw [← hr₁, ← hq₁, disk'.db.traffic.eq_of_key hrm hqm (hr₂.trans hq₂.symm)]
  -- the flag of a record is the one that was written
  have hflag : ∀ u ∈ c.users, ∀ name record, u.trafficByProxy.lookup name = some record →
      record.active = (cleared (staleNames db c') (TrafficRow.of u name record)).active := by
    intro u hu name record hl
    have hf := Table.find_eq_some.1 (h.find hc hs hapart hu hl)
    have := (hload u hu _ hf.1 rfl).symm.trans hl
    exact congrArg ProxyTrafficRecord.active (Option.some.inj this).symm
  refine ⟨hc, hapart, fun u hu name hn => ?_, fun t ht hid u hu record hl => ?_,
    fun u hu t ht record hl => ?_⟩
  · by_contra hno
    push Not at hno
    obtain ⟨record, hl⟩ := Assoc.mem_iff_exists.1 hn
    have hrm := (h.before.recorded u hu _).2 ⟨name, record, hl, rfl⟩
    have hf := @find_unwritten _ _ _ hs.written htids name (by rw [hus]; exact hno)
    have hf₀ : disk.db.traffic.find name = some (TrafficRow.of u name record) :=
      Table.find_eq_some.2 ⟨hrm.1, rfl⟩
    rw [hs.traffic, hf₀] at hf
    have hmem : u.id ∈ c.users.map (·.id) := h.ids ▸ List.mem_map_of_mem hu
    obtain ⟨v, hvm, hvid⟩ := List.mem_map.1 hmem
    have hl' := hload v hvm _ (Table.find_eq_some.1 hf).1 hvid.symm
    exact hno v hvm (Assoc.mem_iff_exists.2 ⟨_, hl'⟩)
  · rw [hflag u hu _ record hl]
    simp [cleared, TrafficRow.of, (hs.stale t.proxyName).2 ⟨t, ht, hid, rfl⟩]
  · have htc : t ∈ c'.tunnels := by rw [h.tunnels hc]; exact List.mem_flatMap.2 ⟨u, hu, ht⟩
    rw [hflag u hu _ record hl]
    have hname : t.proxyName ∈ u.tunnels.map (·.proxyName) := List.mem_map_of_mem ht
    simp [cleared, TrafficRow.of, not_mem_staleNames hs.written htids htc, List.mem_map.1 hname]

omit hc in
/-- **When a save is read back.** -/
theorem Resaved.roundTrips_iff : RoundTrips P disk' c' ↔ Storable c₀ c :=
  ⟨h.storable, fun hst => (h.mirrored hst.clean hst).roundTrips⟩

end

/-! ## A directory that has just been read -/

section
variable {P : Primitives} (hb : ∀ bytes, bytes ≠ [] → P.b64encode bytes ≠ [])
include hb

theorem encryptUserPassword_ne {apiSalt secret password stored : Str} {nonce : Bytes}
    (h : encryptUserPassword P apiSalt secret password nonce = .ok stored) : stored ≠ [] := by
  unfold encryptUserPassword at h
  split at h
  · cases h
  rw [mapError_eq_ok] at h
  obtain ⟨salt, -, h⟩ := bind_eq_ok.1 h
  obtain ⟨key, -, h⟩ := bind_eq_ok.1 h
  obtain ⟨ciphertext, -, h⟩ := bind_eq_ok.1 h
  cases h
  exact hb _ (List.cons_ne_nil _ _)

/-- Whoever is left without a password has none in the backups. -/
theorem recoverUsers_found {apiSalt : Str} {candidates : List (Str × Str)} {rows : List UserRow}
    {users users' : Table userSchema} {nonces : Stream' Bytes}
    (h : recoverUsers P apiSalt candidates users rows nonces = .ok users') {r : UserRow}
    (hr : r ∈ users'.rows) (he : r.passwordEncrypted = []) :
    r ∈ users.rows ∧ ∀ row ∈ rows, row.account = r.account → candidates.find? (fun k =>
      k.1 = row.account ∧ verifyPassword P row.passwordHash k.2) = none := by
  induction rows generalizing users nonces with
  | nil =>
    simp only [recoverUsers, Except.ok.injEq] at h
    subst h
    exact ⟨hr, by simp⟩
  | cons row rows ih =>
    rw [recoverUsers] at h
    split at h
    · rename_i hnone
      obtain ⟨hm, hrest⟩ := ih h
      exact ⟨hm, List.forall_mem_cons.2 ⟨fun _ => hnone, hrest⟩⟩
    · obtain ⟨encrypted, henc, h⟩ := bind_eq_ok.1 h
      obtain ⟨hm, hrest⟩ := ih h
      have hne := encryptUserPassword_ne hb henc
      simp only [setPassword, Table.update_rows, List.mem_map] at hm
      obtain ⟨q, hq, hqr⟩ := hm
      -- the row is not the one that got a password
      split at hqr
      · exact absurd he (by rw [← hqr]; exact hne)
      · rename_i hnot
        subst hqr
        exact ⟨hq, List.forall_mem_cons.2 ⟨fun ha => absurd ⟨ha.symm, he⟩ hnot, hrest⟩⟩

theorem migrateUsers_passwords {apiSalt : Str} {us : List LegacyUser} {ports : List Port} {e : Entropy}
    {r : List ServerUser × Entropy} (h : migrateUsers P apiSalt ports us e = .ok r) :
    ∀ u ∈ r.1, u.passwordEncrypted ≠ [] := by
  induction us generalizing ports e r with
  | nil =>
    simp only [migrateUsers, Except.ok.injEq] at h
    subst h
    simp
  | cons u us ih =>
    obtain ⟨one, h₁, h⟩ := bind_eq_ok.1 h
    obtain ⟨rest, h₂, h⟩ := bind_eq_ok.1 h
    cases h
    refine List.forall_mem_cons.2 ⟨?_, ih h₂⟩
    obtain ⟨normalized, -, h₁⟩ := bind_eq_ok.1 h₁
    obtain ⟨tunnels, -, h₁⟩ := bind_eq_ok.1 h₁
    obtain ⟨hash, -, h₁⟩ := bind_eq_ok.1 h₁
    obtain ⟨encrypted, henc, h₁⟩ := bind_eq_ok.1 h₁
    cases h₁
    exact encryptUserPassword_ne hb henc

/-- **After `initialize` nothing is left to recover.** -/
theorem initializeStore_recovered {disk disk' : Disk} {e e' : Entropy}
    (h : initializeStore P disk e = .ok (disk', e')) (r : UserRow) (hr : r ∈ disk'.db.users.rows)
    (he : r.passwordEncrypted = []) : disk'.db.settings = none ∨ ∀ k ∈ passwordCandidates disk'.backups,
      ¬ (k.1 = r.account ∧ verifyPassword P r.passwordHash k.2 = true) := by
  unfold initializeStore at h
  split at h
  · obtain ⟨db, hdb, h⟩ := bind_eq_ok.1 h
    cases h
    refine .inr ?_
    unfold recoverPasswordsFromLegacyBackups recoverTransaction at hdb
    split at hdb
    · rename_i hall
      cases hdb
      exact absurd he (of_decide_eq_true (List.all_eq_true.1 hall r hr))
    split at hdb
    · rename_i hnil
      rw [hnil]
      simp
    split at hdb
    · cases hdb
    obtain ⟨users, hu, hdb⟩ := bind_eq_ok.1 hdb
    cases hdb
    obtain ⟨hm, hnone⟩ := recoverUsers_found hb hu hr he
    have := hnone r (List.mem_filter.2 ⟨hm, decide_eq_true he⟩) rfl
    intro k hk hboth
    exact List.find?_eq_none.1 this k hk (decide_eq_true hboth)
  rename_i hsome
  split at h
  · cases h
    exact .inl (by simpa using hsome)
  obtain ⟨migrated, hmig, h⟩ := bind_eq_ok.1 h
  obtain ⟨written, hw, h⟩ := bind_eq_ok.1 h
  cases h
  obtain ⟨legacy, -, hmig⟩ := bind_eq_ok.1 hmig
  obtain ⟨users, hus, hmig⟩ := bind_eq_ok.1 hmig
  cases hmig
  obtain ⟨u, hu, rfl⟩ := ((saveNew_holds hw).2.users r).1 hr
  obtain ⟨v, hv, hpw⟩ := saveNew_passwords hw u hu
  exact absurd (hpw.symm.trans he) (migrateUsers_passwords hb hus v hv)

omit hb in
/-- The rows that were loaded are held. -/
theorem holds_loaded {db : Db} {c : ServerConfig} (hk : Kept P db) (hl : loadConfig db = .ok c) :
    Holds db c := by
  rcases hk with h | ⟨c₀, db₀, hv, hh, hs⟩
  · unfold loadConfig at hl
    rw [h] at hl
    cases hl
  have hset : db.settings = some (SettingsRow.of c₀) := hs.settings.trans hh.settings
  unfold loadConfig at hl
  rw [hset] at hl
  cases hl
  have hmem : ∀ u, u ∈ sortUsers (db.users.rows.map fun r => r.user db) ↔
      ∃ r ∈ db.users.rows, r.user db = u := fun u =>
    (sortUsers_perm _).mem_iff.trans List.mem_map
  have howner : ∀ r ∈ db.tunnels.rows, ∃ q ∈ db.users.rows, q.id = r.userId := by
    intro r hr
    rw [hs.tunnels] at hr
    obtain ⟨u, hu, t, -, rfl⟩ := (hh.tunnels r).1 hr
    have hm : u.id ∈ db.users.rows.map (·.id) := by
      rw [hs.column (·.id) fun _ => rfl]
      exact List.mem_map.2 ⟨UserRow.of u, (hh.users _).2 ⟨u, hu, rfl⟩, rfl⟩
    exact List.mem_map.1 hm
  refine ⟨hset, fun r => ?_, fun r => ?_⟩
  · refine ⟨?_, ?_⟩
    · exact fun hr => ⟨r.user db, (hmem _).2 ⟨r, hr, rfl⟩, rfl⟩
    · intro hx
      obtain ⟨u, hu, rfl⟩ := hx
      obtain ⟨q, hq, rfl⟩ := (hmem u).1 hu
      exact hq
  · refine ⟨?_, ?_⟩
    · intro hr
      obtain ⟨q, hq, he⟩ := howner r hr
      exact ⟨q.user db, (hmem _).2 ⟨q, hq, rfl⟩, r.toTunnel, mem_tunnelsOf.2 ⟨r, hr, he.symm, rfl⟩,
        by show r = { r.toTunnel with userId := q.id }; rw [he]⟩
    · intro hx
      obtain ⟨u, hu, t, ht, rfl⟩ := hx
      obtain ⟨q, hq, rfl⟩ := (hmem u).1 hu
      obtain ⟨r, hr, hown, rfl⟩ := mem_tunnelsOf.1 ht
      have hown : r.userId = (q.user db).id := hown
      rw [show TunnelRow.of (q.user db).id r.toTunnel = r by rw [← hown]; rfl]
      exact hr

omit hb in
theorem checkUsers_checked {apiSalt : Str} {reserved : List Port} {seen : Seen} {us : List ServerUser}
    {d : Draws} {r : Seen × List ServerUser × Draws}
    (h : checkUsers P apiSalt reserved seen us d = .ok r) :
    ∀ u ∈ us, checkPassword P apiSalt u.account u = .ok () := by
  induction us generalizing seen d r with
  | nil => simp
  | cons u us ih =>
    obtain ⟨one, h₁, h⟩ := bind_eq_ok.1 h
    obtain ⟨rest, h₂, h⟩ := bind_eq_ok.1 h
    refine List.forall_mem_cons.2 ⟨?_, ih h₂⟩
    unfold checkUser at h₁
    simp only [bailIf_bind_eq_ok] at h₁
    obtain ⟨-, -, -, -, h₁⟩ := h₁
    obtain ⟨_, hpw, -⟩ := bind_eq_ok.1 h₁
    exact checkPassword_ok_account P hpw

omit hb in
/-- The records that were loaded are the rows, when those of tunnels are active. -/
theorem recorded_loaded {db : Db} {c : ServerConfig} (hl : loadConfig db = .ok c)
    (hf : ∀ u ∈ c.users, ∀ t ∈ u.tunnels, ∀ record,
      u.trafficByProxy.lookup t.proxyName = some record → record.active = true) :
    ∀ u ∈ c.users, Recorded db u := by
  intro u hu
  have hmap : u.trafficByProxy = db.trafficOf u.id := by
    unfold loadConfig at hl
    split at hl
    · cases hl
    · cases hl
      obtain ⟨r, -, rfl⟩ := List.mem_map.1 ((sortUsers_perm _).mem_iff.1 hu)
      rfl
  have hrow : ∀ r ∈ db.traffic.rows, r.userId = u.id →
      u.trafficByProxy.lookup r.proxyName = some r.toProxyTrafficRecord ∧
        TrafficRow.of u r.proxyName r.toProxyTrafficRecord = r := by
    intro r hr hown
    have hlook : u.trafficByProxy.lookup r.proxyName = some r.toProxyTrafficRecord := by
      rw [hmap]
      exact lookup_trafficOf.2 ⟨r, hr, hown, rfl, rfl⟩
    refine ⟨hlook, ?_⟩
    obtain ⟨⟨protocol, remotePort, trafficIn, trafficOut, active⟩, proxyName, userId⟩ := r
    obtain rfl : userId = u.id := hown
    by_cases hn : proxyName ∈ u.tunnels.map (·.proxyName)
    · obtain ⟨t, ht, rfl⟩ := List.mem_map.1 hn
      obtain rfl : active = true := hf u hu t ht _ hlook
      simp [TrafficRow.of]
    · simp [TrafficRow.of, hn]
  intro r
  refine ⟨?_, ?_⟩
  · intro h
    obtain ⟨hr, hown⟩ := h
    obtain ⟨hlook, he⟩ := hrow r hr hown
    exact ⟨r.proxyName, _, hlook, he.symm⟩
  · intro h
    obtain ⟨name, record, hlook, rfl⟩ := h
    have hlook' := hlook
    rw [hmap] at hlook'
    obtain ⟨q, hq, hown, rfl, rfl⟩ := lookup_trafficOf.1 hlook'
    rw [(hrow q hq hown).2]
    exact ⟨hq, hown⟩

/-- **A server that has just read** has the directory in memory, when no name was drawn and
the records of its tunnels are active. -/
theorem read_mirrored {disk disk' : Disk} {c : ServerConfig} {e e' : Entropy} (hk : Kept P disk.db)
    (h : read P disk e = (disk', .ok (c, e'))) (hc : NoDash c)
    (hf : ∀ u ∈ c.users, ∀ t ∈ u.tunnels, ∀ record,
      u.trafficByProxy.lookup t.proxyName = some record → record.active = true) :
    Mirrored P disk' c := by
  unfold read at h
  split at h
  · cases h
  rename_i disk₁ e₁ hi
  rw [Prod.mk.injEq] at h
  obtain ⟨rfl, h⟩ := h
  obtain ⟨c₁, hl, h⟩ := bind_eq_ok.1 h
  obtain ⟨normalized, hn, h⟩ := bind_eq_ok.1 h
  cases h
  have hk₁ := initialize_kept hk hi
  have hh := holds_loaded hk₁ hl
  obtain ⟨-, k, hchk, -, -⟩ := (normalize_ok_iff P).1 hn
  have hv := hk₁.valid hl (checkUsers_checked hchk)
  -- no name was drawn, so the pass has changed nothing
  have hc₁ : NoDash c₁ := by
    obtain ⟨-, -, hk'⟩ := (normalize_clean_iff P hv.settings hv.users e₁.uuids).1 hn
    intro t ht hdash
    have hm : t.id ∈ (renameTunnels c₁.tunnels e₁.uuids).1.map (·.id) := by
      rw [map_eq_of_sameButName (·.id) (fun _ _ => rfl) (renameTunnels_forall₂ _ _)]
      exact List.mem_map_of_mem ht
    obtain ⟨o, ho, he⟩ := List.mem_map.1 hm
    refine hc o ?_ (by rw [he]; exact hdash)
    rw [hk']
    refine ((sortUsers_perm _).flatMap_right _).mem_iff.2 ?_
    rw [(renameUsers_tunnels _ _).1]
    exact ho
  rw [normalize_self P hv hc₁ e₁.uuids] at hn
  cases hn
  refine ⟨hv, hc₁, hh, recorded_loaded hl hf, hf, fun u hu he => ?_⟩
  have hr := (hh.users (UserRow.of u)).2 ⟨u, hu, rfl⟩
  rcases initializeStore_recovered hb hi _ hr he with hnone | hrec
  · rw [hh.settings] at hnone
    cases hnone
  · exact hrec

end

end OrangeFrp.Storage
