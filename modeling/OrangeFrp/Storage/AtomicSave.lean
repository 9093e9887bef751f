import OrangeFrp.Storage.Faults
import OrangeFrp.Storage.Traffic
import OrangeFrp.Storage.WriteOrder

/-!
# What the answer of a save tells (`frp-game-server/src/storage.rs`)

`save` answers after its last step, the file mode, while its commit and those of
`initialize` are made before. `Finds` is what its transaction finds stored, `ReachesCommit` says
that nothing is in the way of the commit, both in terms of the directory, the configuration
and the steps that fail.

* `ReachesCommit.saveFaulty`, `saveFaulty_uncommitted`: what a save does that gets to its commit,
  and one that does not.
* `writeSnapshot_same_iff`: when a snapshot leaves what was there.
* `save_atomic_iff`: when the answer of `save` tells what is stored. It stands on the laws of
  the third-party functions (`Primitives.Inverse`): no encrypted password is empty.
-/
namespace OrangeFrp.Storage

open OrangeFrp.Core

/-! ## What a save finds -/

section
variable (P : Primitives) (f : Faults)

/-- The recovery does not stop the save: there is nothing to recover, or its transaction
goes through. -/
def Recoverable (disk : Disk) (e : Entropy) : Prop :=
  f .countMissing = none ∧
    ((disk.db.users.rows.all fun r => r.passwordEncrypted ≠ []) = true ∨
      (f .readDirectory).isSome = true ∨ passwordCandidates disk.backups = [] ∨
      (∀ step ∈ [Step.recoverBegin, .recoverStatement, .recoverCommit], f step = none) ∧
        ∃ db, recoverTransaction P disk.db (passwordCandidates disk.backups) e.nonces = .ok db)

/-- The database that a save finds, up to recovered passwords, and the draws it goes on with:
those of the directory, or of the migrated legacy file. -/
inductive Finds (disk : Disk) (e : Entropy) : Db → Draws → Prop where
  | stored : disk.db.settings.isSome = true → Recoverable P f disk e → Finds disk e disk.db e.uuids
  | migrated {file : LegacyFile} {migrated : ServerConfig × Entropy}
      {written : Db × ServerConfig × Entropy} :
      disk.db.settings.isSome = false → disk.legacy = some file →
      (∀ step ∈ Step.readLegacy :: newSteps ++ [.secureNew, .rename], f step = none) →
      migrateLegacyConfig P file.document e = .ok migrated →
      saveNew P disk.db migrated.1 migrated.2 = .ok written → Finds disk e written.1 written.2.2.uuids

end

section
variable {P : Primitives} {f : Faults} {disk before : Disk} {e e₁ : Entropy}

theorem run_bind_ok {α : Type} {steps : List Step} {g : Except String α} {r : α} :
    (f.run steps >>= fun _ => g) = .ok r ↔ (∀ step ∈ steps, f step = none) ∧ g = .ok r := by
  rw [bind_eq_ok, ← run_ok_iff]
  exact ⟨fun h => ⟨h.choose_spec.1, h.choose_spec.2⟩, fun h => ⟨_, h.1, h.2⟩⟩

theorem recoverFaulty_ok_iff :
    (∃ db, recoverFaulty P f disk.db disk.backups e.nonces = .ok db) ↔ Recoverable P f disk e := by
  unfold recoverFaulty Recoverable
  simp only [run_bind_ok, List.mem_singleton, forall_eq, exists_and_left]
  refine and_congr_right fun _ => ?_
  split
  · rename_i hall
    exact iff_of_true ⟨_, rfl⟩ (.inl hall)
  rename_i hall
  rw [or_iff_right hall]
  split
  · rename_i hnone
    exact iff_of_true ⟨_, rfl⟩ (or_assoc.1 (.inl hnone))
  rename_i hnone
  rw [← or_assoc, or_iff_right hnone]
  refine ⟨?_, ?_⟩
  · intro hx
    obtain ⟨db, h⟩ := hx
    obtain ⟨hbegin, h⟩ := run_bind_ok.1 h
    obtain ⟨recovered, hr, h⟩ := bind_eq_ok.1 h
    exact ⟨List.forall_mem_append.2 ⟨hbegin, (run_bind_ok.1 h).1⟩, recovered, hr⟩
  · intro hx
    obtain ⟨hsteps, recovered, hr⟩ := hx
    obtain ⟨hbegin, hrest⟩ := List.forall_mem_cons.1 hsteps
    exact ⟨recovered, run_bind_ok.2 ⟨List.forall_mem_singleton.2 hbegin,
      bind_eq_ok.2 ⟨recovered, hr, run_bind_ok.2 ⟨hrest, rfl⟩⟩⟩⟩

theorem saveNewFaulty_ok_iff {db : Db} {c : ServerConfig} {r : Db × ServerConfig × Entropy} :
    saveNewFaulty P f db c e = (r.1, .ok r.2) ↔
      (∀ step ∈ newSteps ++ [.secureNew], f step = none) ∧ saveNew P db c e = .ok r := by
  have hsteps : (∀ step ∈ newSteps ++ [.secureNew], f step = none) ↔
      (∀ step ∈ [Step.openNew, .createSchemaNew, .beginNew], f step = none) ∧
        (∀ step ∈ [Step.statementNew, .commitNew], f step = none) ∧
        ∀ step ∈ [Step.secureNew], f step = none := by
    simp only [newSteps, List.cons_append, List.nil_append, List.mem_cons, List.not_mem_nil,
      or_false, forall_eq_or_imp, forall_eq]
    tauto
  rw [hsteps]
  unfold saveNewFaulty saveNew
  refine ⟨fun h => ?_, fun hx => ?_⟩
  · split at h
    · cases h
    rename_i written c' uuids hw
    obtain ⟨normalized, hn, hw⟩ := bind_eq_ok.1 hw
    obtain ⟨hbegin, hw⟩ := run_bind_ok.1 hw
    obtain ⟨w, ht, hw⟩ := bind_eq_ok.1 hw
    obtain ⟨hend, hw⟩ := run_bind_ok.1 hw
    cases hw
    split at h
    · cases h
    rename_i hsecure
    refine ⟨⟨hbegin, hend, run_ok_iff.1 hsecure⟩,
      bind_eq_ok.2 ⟨normalized, hn, bind_eq_ok.2 ⟨_, ht, ?_⟩⟩⟩
    simp only [Prod.mk.injEq, Except.ok.injEq] at h
    exact congrArg Except.ok (Prod.ext h.1 h.2)
  · obtain ⟨⟨hbegin, hend, hsecure⟩, h⟩ := hx
    obtain ⟨normalized, hn, h⟩ := bind_eq_ok.1 h
    obtain ⟨w, ht, h⟩ := bind_eq_ok.1 h
    cases h
    simp only [hn, ht, run_ok_iff.2 hbegin, run_ok_iff.2 hend, run_ok_iff.2 hsecure, bind, Except.bind,
      pure, Except.pure]

/-- What a migration that goes through leaves. -/
def Disk.migrated (disk : Disk) (file : LegacyFile) (db : Db) (c : ServerConfig) : Disk where
  db := db
  legacy := none
  backups := (backupName c.updatedAt, file.json) ::
    disk.backups.filter fun b => b.1 ≠ backupName c.updatedAt

theorem migrateFaulty_ok_iff {file : LegacyFile} :
    migrateFaulty P f disk file e = (before, .ok e₁) ↔
      (∀ step ∈ Step.readLegacy :: newSteps ++ [.secureNew, .rename], f step = none) ∧
        ∃ migrated, migrateLegacyConfig P file.document e = .ok migrated ∧
          ∃ written, saveNew P disk.db migrated.1 migrated.2 = .ok written ∧ e₁ = written.2.2 ∧
            before = disk.migrated file written.1 written.2.1 := by
  have hsteps : (∀ step ∈ Step.readLegacy :: newSteps ++ [.secureNew, .rename], f step = none) ↔
      (∀ step ∈ [Step.readLegacy], f step = none) ∧ (∀ step ∈ newSteps ++ [.secureNew], f step = none) ∧
        ∀ step ∈ [Step.rename], f step = none := by
    simp only [newSteps, List.cons_append, List.nil_append, List.mem_cons, List.not_mem_nil,
      or_false, forall_eq_or_imp, forall_eq]
    tauto
  rw [hsteps]
  unfold migrateFaulty
  refine ⟨fun h => ?_, fun hx => ?_⟩
  · split at h
    · cases h
    rename_i c e₂ hm
    obtain ⟨hread, hm⟩ := run_bind_ok.1 hm
    split at h
    · cases h
    rename_i db c' e₃ hs
    obtain ⟨hnew, hs⟩ := (saveNewFaulty_ok_iff (r := (db, c', e₃))).1 hs
    split at h
    · cases h
    rename_i hrename
    simp only [Prod.mk.injEq, Except.ok.injEq] at h
    exact ⟨⟨hread, hnew, run_ok_iff.1 hrename⟩, (c, e₂), hm, (db, c', e₃), hs, h.2.symm, h.1.symm⟩
  · obtain ⟨⟨hread, hnew, hrename⟩, migrated, hm, written, hs, rfl, rfl⟩ := hx
    simp only [run_ok_iff.2 hread, hm, saveNewFaulty_ok_iff.2 ⟨hnew, hs⟩, run_ok_iff.2 hrename, bind,
      Except.bind]
    rfl

theorem initializeFaulty_ok_iff :
    initializeFaulty P f disk e = (before, .ok e₁) ↔
      (∀ step ∈ firstSteps ++ [.secureFirst], f step = none) ∧
        initializeBranch P f disk e = (before, .ok e₁) := by
  unfold initializeFaulty
  rw [List.forall_mem_append]
  refine ⟨fun h => ?_, fun hx => ?_⟩
  · split at h
    · cases h
    rename_i hfirst
    split at h
    · cases h
    rename_i hb
    split at h
    · cases h
    rename_i hsecure
    rw [hb, ← h]
    exact ⟨⟨run_ok_iff.1 hfirst, run_ok_iff.1 hsecure⟩, rfl⟩
  · obtain ⟨⟨hfirst, hsecure⟩, hb⟩ := hx
    rw [show [Step.prepareParent, .openFirst, .createSchema, .settingsExist] = firstSteps from rfl,
      run_ok_iff.2 hfirst, hb, run_ok_iff.2 hsecure]

/-- What `initialize` leaves of what it has found: only passwords differ, and without a
migration only the database. -/
structure InitializeLeaves (disk before : Disk) (db : Db) : Prop where
  same : SameButPasswords db before.db
  stored : disk.db.settings.isSome = true → db = disk.db ∧ before = { disk with db := before.db }
  migrated : disk.db.settings.isSome = false → before.legacy ≠ disk.legacy

/-- **What a save finds** is there when `initialize` goes through. -/
theorem Finds.initialized {db : Db} {uuids : Draws} (h : Finds P f disk e db uuids)
    (hsteps : ∀ step ∈ firstSteps ++ [.secureFirst], f step = none) :
    ∃ before e₁, initializeFaulty P f disk e = (before, .ok e₁) ∧ e₁.uuids = uuids ∧
      InitializeLeaves disk before db := by
  simp only [initializeFaulty_ok_iff, and_iff_right hsteps]
  unfold initializeBranch
  cases h with
  | stored hset hrec =>
    obtain ⟨db', hdb⟩ := recoverFaulty_ok_iff.2 hrec
    rw [if_pos hset, hdb]
    exact ⟨_, _, rfl, rfl, recoverFaulty_same hdb, fun _ => ⟨rfl, rfl⟩,
      fun hno => by rw [hset] at hno; cases hno⟩
  | migrated hset hleg hm hmig hs =>
    rw [hset, hleg]
    simp only [Bool.false_eq_true, if_false, migrateFaulty_ok_iff.2 ⟨hm, _, hmig, _, hs, rfl, rfl⟩]
    refine ⟨_, _, rfl, rfl, .refl _, fun hyes => by (rw [hset] at hyes; cases hyes), fun _ he => ?_⟩
    rw [hleg] at he
    cases he

/-- An `initialize` that goes through and leaves settings has found them. -/
theorem finds_of_initialized (h : initializeFaulty P f disk e = (before, .ok e₁))
    (hset : before.db.settings.isSome = true) :
    (∀ step ∈ firstSteps ++ [.secureFirst], f step = none) ∧ ∃ db, Finds P f disk e db e₁.uuids := by
  obtain ⟨hsteps, hb⟩ := initializeFaulty_ok_iff.1 h
  refine ⟨hsteps, ?_⟩
  unfold initializeBranch at hb
  split at hb
  · rename_i hinit
    split at hb
    · cases hb
    rename_i db hr
    cases hb
    exact ⟨_, .stored hinit (recoverFaulty_ok_iff.1 ⟨db, hr⟩)⟩
  rename_i hno
  split at hb
  · cases hb
    exact absurd hset hno
  rename_i file hleg
  obtain ⟨hm, migrated, hmig, written, hs, rfl, -⟩ := migrateFaulty_ok_iff.1 hb
  exact ⟨_, .migrated (Bool.eq_false_of_not_eq_true hno) hleg hm hmig hs⟩

end

/-! ## A snapshot that is stored already -/

/-- The settings, the users and the tunnels of `c` are stored, and of each name the record
that a snapshot writes last. -/
structure AlreadyStored (db : Db) (c : ServerConfig) : Prop where
  rows : Holds db c
  records : ∀ u ∈ c.users, ∀ e ∈ u.trafficByProxy.entries, lastWriter c.users e.1 = some u →
    TrafficRow.of u e.1 e.2 ∈ db.traffic.rows

section
variable {db before after : Db} {c : ServerConfig}

/-- No tunnel row is stale where the tunnels are those of the configuration. -/
theorem Holds.staleNames (h : Holds db c) : staleNames db c = [] := by
  refine List.eq_nil_iff_forall_not_mem.2 fun name hn => ?_
  have howner : ∀ r ∈ db.tunnels.rows, r.userId ∈ c.users.map (·.id) := by
    intro r hr
    obtain ⟨u, hu, t, -, rfl⟩ := (h.tunnels r).1 hr
    exact List.mem_map_of_mem (f := (·.id)) hu
  obtain ⟨r, hr, hid, -⟩ := (mem_staleNames howner).1 hn
  obtain ⟨u, hu, t, ht, rfl⟩ := (h.tunnels r).1 hr
  exact hid (List.mem_map.2 ⟨t, List.mem_flatMap.2 ⟨u, hu, ht⟩, rfl⟩)

/-- Where its users are stored a snapshot deletes no user, so no record either. -/
theorem Holds.deleteMissing (h : Holds db c) (hs : SameButPasswords db before) :
    (deleteMissingUsers before c.users).users.rows = before.users.rows ∧
      (deleteMissingUsers before c.users).tunnels = db.tunnels ∧
      (deleteMissingUsers before c.users).traffic = db.traffic := by
  have hids : ∀ id ∈ before.users.rows.map (·.id), id ∈ c.users.map (·.id) := by
    rw [hs.column (·.id) fun _ => rfl]
    intro id hid
    obtain ⟨r, hr, rfl⟩ := List.mem_map.1 hid
    obtain ⟨u, hu, rfl⟩ := (h.users r).1 hr
    exact List.mem_map_of_mem (f := (·.id)) hu
  have hkeep : ∀ id, (!(decide (id ∈ before.users.rows.map (·.id)) &&
      decide (id ∉ c.users.map (·.id)))) = true := by
    intro id
    by_cases hid : id ∈ before.users.rows.map (·.id)
    · simp only [hids id hid, not_true_eq_false, decide_false, Bool.and_false, Bool.not_false]
    · simp only [hid, decide_false, Bool.false_and, Bool.not_false]
  refine ⟨?_, ?_, ?_⟩
  · exact List.filter_eq_self.2 fun r hr => decide_eq_true (hids _ (List.mem_map_of_mem hr))
  · rw [← hs.tunnels]
    exact Table.ext (List.filter_eq_self.2 fun r _ => hkeep r.userId)
  · rw [← hs.traffic]
    exact Table.ext (List.filter_eq_self.2 fun r _ => hkeep r.userId)

/-- The record of a name after a snapshot, where nothing is deleted. -/
theorem Holds.find_traffic (hd : Holds db c) (hs : SameButPasswords db before)
    (h : writeSnapshot before c = .ok after) (ht : (c.tunnels.map (·.id)).Nodup) (name : Str) :
    after.traffic.find name =
      ((lastWriter c.users name).bind fun u => rowOf u name).or (db.traffic.find name) := by
  have hstale : Storage.staleNames before c = [] := by
    rw [Storage.staleNames, (hd.deleteMissing hs).2.1, ← (hd.deleteMissing (.refl db)).2.1]
    exact hd.staleNames
  rw [writeSnapshot_traffic h ht, lastRow_users, (hd.deleteMissing hs).2.2, hstale]
  simp only [List.not_mem_nil, not_false_eq_true, decide_true, Bool.and_true]
  exact Option.map_id'

/-- Every name that the snapshot writes is there. -/
theorem AlreadyStored.names (hd : AlreadyStored db c) :
    ∀ r ∈ c.users.flatMap trafficRows, r.proxyName ∈ db.traffic.rows.map (·.proxyName) := by
  intro r hr
  obtain ⟨u, hu, hr⟩ := List.mem_flatMap.1 hr
  obtain ⟨e, he, rfl⟩ := List.mem_map.1 hr
  cases hl : lastWriter c.users e.1 with
  | none => exact absurd (List.mem_map_of_mem he) (lastWriter_none_iff.1 hl u hu)
  | some w =>
    obtain ⟨hw, hname⟩ := mem_of_lastWriter hl
    obtain ⟨record, hrec⟩ := Assoc.mem_iff_exists.1 hname
    exact List.mem_map.2 ⟨_, hd.records w hw ⟨e.1, record⟩ (Assoc.mem_entries_iff.2 hrec) hl, rfl⟩

/-- **When a snapshot leaves what was there.** -/
theorem writeSnapshot_same_iff (hs : SameButPasswords db before) (h : writeSnapshot before c = .ok after)
    (hi : (c.users.map (·.id)).Nodup) (ht : (c.tunnels.map (·.id)).Nodup) :
    after = db ↔ AlreadyStored db c := by
  have hafter := writeSnapshot_holds h hi ht
  refine ⟨?_, fun hd => ?_⟩
  · rintro rfl
    refine ⟨hafter, fun u _ e he hlast => mem_traffic_iff.2 ?_⟩
    rw [show (TrafficRow.of u e.1 e.2).proxyName = e.1 from rfl, hafter.find_traffic hs h ht, hlast,
      Option.bind_some, rowOf, Assoc.mem_entries_iff.1 he]
    rfl
  obtain ⟨-, m, -, husers, htunnels, htraffic, hm⟩ := writeSnapshot_inv h
  obtain ⟨hu, htun, htra⟩ := hd.rows.deleteMissing hs
  rw [htun] at htunnels
  rw [htra] at htraffic
  -- no table gets a new key, so each keeps its order
  have hids : before.users.rows.map userSchema.key = db.users.rows.map userSchema.key :=
    hs.column (·.id) fun _ => rfl
  have hsettings : after.settings = db.settings := hafter.settings.trans hd.rows.settings.symm
  have husers' : after.users = db.users := by
    refine Table.eq_of_keys ?_ fun r hr => (hd.rows.users r).2 ((hafter.users r).1 hr)
    have hk := Table.upsertAll_keys husers fun r hr => by
      obtain ⟨u, hum, rfl⟩ := List.mem_map.1 hr
      rw [hu, hids]
      exact List.mem_map_of_mem (f := userSchema.key) ((hd.rows.users _).2 ⟨u, hum, rfl⟩)
    rw [hm, ← hids, ← hu]
    exact hk
  have htunnels' : after.tunnels = db.tunnels := by
    refine Table.eq_of_keys ?_ fun r hr => (hd.rows.tunnels r).2 ((hafter.tunnels r).1 hr)
    have hk := Table.upsertAll_keys htunnels fun r hr =>
      List.mem_map_of_mem ((hd.rows.tunnels r).2 (mem_tunnelRows.1 hr))
    rw [hm, ← hk]
    refine congrArg (List.map _) (List.filter_eq_self.2 fun r hr => ?_)
    have hin : r ∈ db.tunnels.rows :=
      ((Table.mem_upsertAll htunnels (by rw [tunnelRows_keys]; exact ht) r).1 hr).elim
        (fun hr => (hd.rows.tunnels r).2 (mem_tunnelRows.1 hr)) And.left
    obtain ⟨u, hum, t, htu, rfl⟩ := (hd.rows.tunnels r).1 hin
    exact decide_eq_true (List.mem_map.2 ⟨t, List.mem_flatMap.2 ⟨u, hum, htu⟩, rfl⟩)
  have htraffic' : after.traffic = db.traffic := by
    refine Table.eq_of_keys ?_ fun r hr => ?_
    · rw [hm, ← Table.upsertAll_keys htraffic hd.names]
      exact List.map_map
    · have hf := mem_traffic_iff.1 hr
      rw [hd.rows.find_traffic hs h ht] at hf
      rcases Option.or_eq_some_iff.1 hf with hw | ⟨-, hold⟩
      · obtain ⟨w, hl, hrow⟩ := Option.bind_eq_some_iff.1 hw
        obtain ⟨record, hrec, he⟩ := Option.map_eq_some_iff.1 hrow
        rw [← he]
        exact hd.records w (mem_of_lastWriter hl).1 ⟨_, record⟩ (Assoc.mem_entries_iff.2 hrec) hl
      · exact mem_traffic_iff.2 hold
  cases after
  cases db
  simp only at hsettings husers' htunnels' htraffic'
  rw [hsettings, husers', htunnels', htraffic']

end

/-! ## What the answer of a save tells -/

section
variable (P : Primitives) (f : Faults)

/-- What the answer tells of the directory: after an error it is as before; else it holds
the normalized configuration, one revision higher than before. -/
def Atomic (disk : Disk) (c : ServerConfig) : Disk × Except String (ServerConfig × Entropy) → Prop
  | (disk', .error _) => disk' = disk
  | (disk', .ok (c', _)) =>
    (∃ c₁ d d', normalizeLoadedConfig P c d = .ok (c₁, d') ∧ c' = { c₁ with revision := c.revision + 1 }) ∧
      (∀ row, disk.db.settings = some row → row.revision = c.revision) ∧
      Holds disk'.db c' ∧ ∀ u ∈ c'.users, ReadBack disk'.db u

/-- The steps of `save` up to its commit. -/
def saveSteps : List Step := [.openSave, .beginSave, .selectRevision, .statement, .commit]

/-- Nothing is in the way of the commit: no step before it fails, the configuration is accepted,
it has the revision that the save finds, and its snapshot fits the rows there. -/
structure ReachesCommit (disk : Disk) (c : ServerConfig) (e : Entropy) : Prop where
  initialized : ∀ step ∈ firstSteps ++ [.secureFirst], f step = none
  saved : ∀ step ∈ saveSteps, f step = none
  fits : ∃ db uuids, Finds P f disk e db uuids ∧ ∃ n d, normalizeLoadedConfig P c uuids = .ok (n, d) ∧
    (∃ row, db.settings = some row ∧ row.revision = c.revision) ∧ SnapshotFits db n

/-- When the answer tells what is stored. -/
structure AtomicWhen (disk : Disk) (c : ServerConfig) (e : Entropy) : Prop where
  /-- a save that does not get to its commit has nothing to recover or to migrate -/
  quiet : ¬ ReachesCommit P f disk c e → ¬ Recovers P f disk e ∧ ¬ Migrates P f disk e
  /-- one that does can set the file mode, counts on, and finds records that it stores as they are -/
  told : ReachesCommit P f disk c e → f .secure = none → c.revision < I64_MAX ∧
    ∀ db uuids, Finds P f disk e db uuids → ∀ n d, normalizeLoadedConfig P c uuids = .ok (n, d) →
      ∀ u ∈ n.users, RecordsFit db n u
  /-- or it cannot, and the configuration is stored already, under the last revision -/
  silent : ReachesCommit P f disk c e → f .secure ≠ none → disk.db.settings.isSome = true ∧
    c.revision = I64_MAX ∧ ∀ n d, normalizeLoadedConfig P c e.uuids = .ok (n, d) →
      AlreadyStored disk.db { n with revision := I64_MAX }

end

section
variable {P : Primitives} {f : Faults} {disk before : Disk} {c c' n : ServerConfig} {e e₁ : Entropy}
  {db after : Db} {uuids d : Draws}

theorem commitFaulty_ok_iff : commitFaulty P f db c e = .ok ((after, c'), d) ↔
    (∀ step ∈ saveSteps, f step = none) ∧ ∃ n, normalizeLoadedConfig P c e.uuids = .ok (n, d) ∧
      saveTransaction db n = .ok (after, c') := by
  have hsteps : (∀ step ∈ saveSteps, f step = none) ↔
      (∀ step ∈ [Step.openSave, .beginSave, .selectRevision], f step = none) ∧
        ∀ step ∈ [Step.statement, .commit], f step = none := by
    rw [← List.forall_mem_append]
    rfl
  rw [hsteps]
  unfold commitFaulty
  refine ⟨fun h => ?_, fun hx => ?_⟩
  · obtain ⟨normalized, hn, h⟩ := bind_eq_ok.1 h
    obtain ⟨hbegin, h⟩ := run_bind_ok.1 h
    obtain ⟨written, ht, h⟩ := bind_eq_ok.1 h
    obtain ⟨hend, h⟩ := run_bind_ok.1 h
    cases h
    exact ⟨⟨hbegin, hend⟩, normalized.1, hn, ht⟩
  · obtain ⟨⟨hbegin, hend⟩, n, hn, ht⟩ := hx
    exact bind_eq_ok.2 ⟨(n, d), hn, run_bind_ok.2 ⟨hbegin, bind_eq_ok.2 ⟨(after, c'), ht,
      run_bind_ok.2 ⟨hend, rfl⟩⟩⟩⟩

/-- What the save finds, normalizes and writes when nothing is in the way of its commit. -/
structure Committed (P : Primitives) (disk : Disk) (c : ServerConfig) (db : Db) (n : ServerConfig)
    (before : Disk) (after : Db) : Prop where
  leaves : InitializeLeaves disk before db
  current : ∃ row, db.settings = some row ∧ row.revision = c.revision
  valid : Valid P n
  written : writeSnapshot before.db { n with revision := nextRevision c.revision } = .ok after

/-- A save with nothing in the way of its commit, up to the file mode. -/
theorem ReachesCommit.saveFaulty (h : ReachesCommit P f disk c e) :
    ∃ db uuids n d before after e', Finds P f disk e db uuids ∧
      normalizeLoadedConfig P c uuids = .ok (n, d) ∧ Committed P disk c db n before after ∧
      saveFaulty P f disk c e = ({ before with db := after },
        (f.run [.secure]).map fun _ => ({ n with revision := nextRevision c.revision }, e')) := by
  obtain ⟨db, uuids, hfound, n, d, hn, ⟨row, hrow, hcur⟩, hfits⟩ := h.fits
  obtain ⟨before, e₁, hi, rfl, hleft⟩ := hfound.initialized h.initialized
  obtain ⟨hv, hk⟩ := normalize_valid P hn
  have hrev : n.revision = c.revision := congrArg (·.revision) hk
  obtain ⟨after, hw⟩ := (hv.withRevision (nextRevision c.revision)).written_iff.2
    (SnapshotFits.samePasswords ⟨hfits.counters, hfits.users, hfits.tunnels⟩ hleft.same)
  have ht : saveTransaction before.db n =
      .ok (after, { n with revision := nextRevision c.revision }) := by
    refine saveTransaction_ok_iff.2 ⟨⟨row, hleft.same.settings.trans hrow, hcur.trans hrev.symm⟩, ?_, hw⟩
    rw [hrev]
  refine ⟨db, _, n, d, before, after, { e₁ with uuids := d }, hfound, hn,
    ⟨hleft, ⟨row, hrow, hcur⟩, hv, hw⟩, ?_⟩
  unfold Storage.saveFaulty
  simp only [hi, commitFaulty_ok_iff.2 ⟨h.saved, n, hn, ht⟩]
  cases f.run [.secure] <;> rfl

/-- A save that does not get to its commit answers with an error, and leaves what `initialize`
has left. -/
theorem saveFaulty_uncommitted (h : ¬ ReachesCommit P f disk c e) : ∃ error,
    saveFaulty P f disk c e = ((initializeFaulty P f disk e).1, .error error) := by
  unfold saveFaulty
  cases hi : initializeFaulty P f disk e with
  | mk before res =>
  cases res with
  | error error => exact ⟨error, rfl⟩
  | ok e₁ =>
    simp only
    cases hc : commitFaulty P f before.db c e₁ with
    | error error => exact ⟨error, rfl⟩
    | ok r =>
      obtain ⟨⟨after, c'⟩, d⟩ := r
      obtain ⟨hsave, n, hn, ht⟩ := commitFaulty_ok_iff.1 hc
      obtain ⟨⟨row, hrow, hcur⟩, hc', hw⟩ := saveTransaction_ok_iff.1 ht
      obtain ⟨hfirst, db, hfound⟩ := finds_of_initialized hi (by rw [hrow]; rfl)
      obtain ⟨before', e₂, hi', -, hleft⟩ := hfound.initialized hfirst
      rw [hi] at hi'
      cases hi'
      obtain ⟨hv, hk⟩ := normalize_valid P hn
      simp only at hcur hc' hw
      rw [hc'] at hw
      have hfits := ((hv.withRevision _).written_iff.1 ⟨after, hw⟩).samePasswords hleft.same.symm
      exact absurd ⟨hfirst, hsave, db, _, hfound, n, d, hn, ⟨row, hleft.same.settings.symm.trans hrow,
        hcur.trans (congrArg (·.revision) hk)⟩, hfits.counters, hfits.users, hfits.tunnels⟩ h

/-- What a save finds is told by the directory alone. -/
theorem Finds.unique {db' : Db} {uuids' : Draws} (h : Finds P f disk e db uuids)
    (h' : Finds P f disk e db' uuids') : db' = db ∧ uuids' = uuids := by
  cases h with
  | stored hset _ =>
    cases h' with
    | stored _ _ => exact ⟨rfl, rfl⟩
    | migrated hno _ _ _ _ => rw [hset] at hno; cases hno
  | migrated hno hleg _ hm hs =>
    cases h' with
    | stored hset _ => rw [hset] at hno; cases hno
    | migrated _ hleg' _ hm' hs' =>
      obtain rfl := Option.some.inj (hleg.symm.trans hleg')
      obtain rfl := Except.ok.inj (hm.symm.trans hm')
      obtain rfl := Except.ok.inj (hs.symm.trans hs')
      exact ⟨rfl, rfl⟩

theorem Finds.draws (h : Finds P f disk e db uuids) (hset : disk.db.settings.isSome = true) :
    uuids = e.uuids := by
  cases h with
  | stored _ _ => rfl
  | migrated hno _ _ _ _ => rw [hset] at hno; cases hno

theorem InitializeLeaves.settings {row : SettingsRow} (h : InitializeLeaves disk before db)
    (hrow : disk.db.settings = some row) : db.settings = some row := by
  rw [(h.stored (by rw [hrow]; rfl)).1, hrow]

/-- The records are read back from what a save has written when they fit what it found. -/
theorem Committed.readBack_iff (h : Committed P disk c db n before after) {u : ServerUser}
    (hu : u ∈ n.users) : ReadBack after u ↔ RecordsFit db n u := by
  have hv := h.valid
  rw [Storage.readBack_iff h.written (newIn_empty.1 hv.distinct.tunnels.ids)
    (newIn_empty.1 hv.distinct.ids) hu hv.sorted (newIn_empty.1 hv.distinct.accounts)]
  have hstale : staleNames before.db { n with revision := nextRevision c.revision } = staleNames db n := by
    simp only [staleNames, deleteMissingUsers, h.leaves.same.tunnels,
      h.leaves.same.column (·.id) fun _ => rfl]
    rfl
  refine ⟨fun hf => ⟨hf.last, ?_, ?_⟩, fun hf => ⟨hf.last, ?_, ?_⟩⟩
  · rw [← hstale]; exact hf.flags
  · rw [← h.leaves.same.traffic]; exact hf.gone
  · rw [hstale]; exact hf.flags
  · rw [h.leaves.same.traffic]; exact hf.gone

/-- **When a committed save has told what is stored.** -/
theorem Committed.atomic_iff (h : Committed P disk c db n before after)
    (hn : normalizeLoadedConfig P c uuids = .ok (n, d)) :
    Atomic P disk c ({ before with db := after }, .ok ({ n with revision := nextRevision c.revision }, e₁)) ↔
      c.revision < I64_MAX ∧ ∀ u ∈ n.users, RecordsFit db n u := by
  have hholds := writeSnapshot_holds h.written (newIn_empty.1 h.valid.distinct.ids)
    (newIn_empty.1 h.valid.distinct.tunnels.ids)
  refine ⟨?_, fun hx => ?_⟩
  · intro hx
    obtain ⟨⟨c₁, d₁, d₁', -, hrev⟩, -, -, hread⟩ := hx
    refine ⟨?_, fun u hu => (h.readBack_iff hu).1 (hread u hu)⟩
    have hnext : nextRevision c.revision = c.revision + 1 := congrArg (·.revision) hrev
    rw [nextRevision] at hnext
    omega
  · obtain ⟨hlt, hfit⟩ := hx
    refine ⟨⟨n, _, _, hn, ?_⟩, fun row hrow => ?_, hholds, fun u hu => (h.readBack_iff hu).2 (hfit u hu)⟩
    · rw [nextRevision, min_eq_left (by omega)]
    · obtain ⟨row', hrow', hcur⟩ := h.current
      rw [h.leaves.settings hrow] at hrow'
      cases hrow'
      exact hcur

/-- **When a committed save has stored what was there.** -/
theorem Committed.same_iff (h : Committed P disk c db n before after) :
    { before with db := after } = disk ↔ disk.db.settings.isSome = true ∧ c.revision = I64_MAX ∧
      AlreadyStored disk.db { n with revision := I64_MAX } := by
  cases hset : disk.db.settings.isSome with
  | false =>
    refine iff_of_false (fun he => ?_) fun hx => by cases hx.1
    have hlegacy := congrArg Disk.legacy he
    exact h.leaves.migrated hset hlegacy
  | true =>
    obtain ⟨rfl, hbefore⟩ := h.leaves.stored hset
    have hdb : { before with db := after } = disk ↔ after = disk.db := by
      rw [hbefore]
      exact ⟨fun he => congrArg Disk.db he, fun he => by rw [he]⟩
    have hsame := writeSnapshot_same_iff h.leaves.same h.written (newIn_empty.1 h.valid.distinct.ids)
      (newIn_empty.1 h.valid.distinct.tunnels.ids)
    rw [hdb, hsame, and_iff_right rfl]
    refine ⟨fun hs => ?_, fun hx => ?_⟩
    · obtain ⟨row, hrow, hcur⟩ := h.current
      have hnext : row.revision = nextRevision c.revision := by
        rw [hs.rows.settings, Option.some.injEq] at hrow
        rw [← hrow]
        rfl
      have hmax : c.revision = I64_MAX := by
        rw [hcur, nextRevision] at hnext
        omega
      have hrev : nextRevision c.revision = I64_MAX := by rw [← hnext, hcur, hmax]
      rw [hrev] at hs
      exact ⟨hmax, hs⟩
    · have hrev : nextRevision c.revision = I64_MAX := by
        rw [hx.1, nextRevision]
        omega
      rw [hrev]
      exact hx.2

/-- **When the answer of a save tells what is stored.** -/
theorem save_atomic_iff (hP : P.Inverse) :
    Atomic P disk c (saveFaulty P f disk c e) ↔ AtomicWhen P f disk c e := by
  by_cases hc : ReachesCommit P f disk c e
  · obtain ⟨db, uuids, n, d, before, after, e', hfound, hn, hcommitted, hsave⟩ := hc.saveFaulty
    have honly : ∀ db' uuids', Finds P f disk e db' uuids' → ∀ n' d',
        normalizeLoadedConfig P c uuids' = .ok (n', d') → db' = db ∧ n' = n := by
      intro db' uuids' hfound' n' d' hn'
      obtain ⟨rfl, rfl⟩ := hfound.unique hfound'
      rw [hn] at hn'
      cases hn'
      exact ⟨rfl, rfl⟩
    rw [hsave]
    cases hs : f .secure with
    | none =>
      rw [run_ok_iff.2 (List.forall_mem_singleton.2 hs)]
      refine (hcommitted.atomic_iff hn).trans ⟨fun h => ⟨fun hno => absurd hc hno, fun _ _ => ⟨h.1, ?_⟩,
        fun _ hsome => absurd hs hsome⟩, fun h => ?_⟩
      · intro db' uuids' hfound' n' d' hn'
        obtain ⟨rfl, rfl⟩ := honly db' uuids' hfound' n' d' hn'
        exact h.2
      · obtain ⟨hlt, hfit⟩ := h.told hc hs
        exact ⟨hlt, hfit db uuids hfound n d hn⟩
    | some error =>
      have hrun : f.run [.secure] = .error error := by simp [Faults.run, hs]
      rw [hrun]
      refine hcommitted.same_iff.trans ⟨fun h => ⟨fun hno => absurd hc hno, fun _ hnone => ?_,
        fun _ _ => ⟨h.1, h.2.1, ?_⟩⟩, fun h => ?_⟩
      · rw [hs] at hnone
        cases hnone
      · intro n' d' hn'
        rw [← hfound.draws h.1, hn] at hn'
        cases hn'
        exact h.2.2
      · obtain ⟨hset, hmax, hstored⟩ := h.silent hc (by rw [hs]; simp)
        exact ⟨hset, hmax, hstored n d (by rw [← hfound.draws hset]; exact hn)⟩
  · obtain ⟨error, hsave⟩ := saveFaulty_uncommitted hc
    rw [hsave]
    exact (initializeFaulty_quiet_iff hP disk e).trans ⟨fun h => ⟨fun _ => h, fun hyes => absurd hyes hc,
      fun hyes => absurd hyes hc⟩, fun h => h.quiet hc⟩

end

/-- A save of another revision is refused, and leaves what is stored. -/
theorem save_stale_atomic : Atomic .tagging (Disk.ofConfig oneTunnel) { oneTunnel with revision := 7 }
    (saveFaulty .tagging noFaults (Disk.ofConfig oneTunnel) { oneTunnel with revision := 7 } .constant) := by
  have hno : ¬ ReachesCommit .tagging noFaults (Disk.ofConfig oneTunnel) { oneTunnel with revision := 7 }
      .constant := by
    intro h
    obtain ⟨db, uuids, hfound, -, -, -, ⟨row, hrow, hcur⟩, -⟩ := h.fits
    obtain ⟨rfl, -⟩ := hfound.unique (.stored (by decide +kernel) ⟨rfl, .inr (.inr (.inl rfl))⟩)
    have hrev : (Disk.ofConfig oneTunnel).db.settings.map (·.revision) = some 1 := by decide +kernel
    rw [hrow, Option.map_some, Option.some.injEq] at hrev
    rw [hrev] at hcur
    exact absurd hcur (by decide)
  refine (save_atomic_iff tagging_inverse).2 ⟨fun _ => ⟨?_, ?_⟩, fun h => absurd h hno, fun h => absurd h hno⟩
  · rintro ⟨-, -, ⟨row, -, -, k, hk, -⟩, -⟩
    cases hk
  · rintro ⟨hset, -⟩
    exact absurd hset (by decide +kernel)

/-! ## A file mode that cannot be set -/

/-- Only the file mode after the commit cannot be set. -/
def modeFault : Faults := fun step => if step = .secure then some "Operation not permitted" else none

/-- The save answers with an error, its snapshot is stored, and the next save is refused. -/
theorem modeFault_not_atomic : ∃ disk' error,
    saveFaulty .plain modeFault (Disk.ofConfig oneTunnel) oneTunnel Entropy.constant =
      (disk', .error error) ∧
    ¬ Atomic .plain (Disk.ofConfig oneTunnel) oneTunnel (disk', .error error) ∧
    (save .plain disk' oneTunnel Entropy.constant).2.isOk = false := by
  have hrun : ((saveFaulty .plain modeFault (Disk.ofConfig oneTunnel) oneTunnel
      Entropy.constant).2.isOk,
      (saveFaulty .plain modeFault (Disk.ofConfig oneTunnel) oneTunnel
        Entropy.constant).1.db.settings.map (·.revision),
      (save .plain (saveFaulty .plain modeFault (Disk.ofConfig oneTunnel) oneTunnel
        Entropy.constant).1 oneTunnel Entropy.constant).2.isOk) = (false, some 2, false) := by
    decide +kernel
  have hold : (Disk.ofConfig oneTunnel).db.settings.map (·.revision) = some 1 := by decide +kernel
  cases h : saveFaulty .plain modeFault (Disk.ofConfig oneTunnel) oneTunnel
      Entropy.constant with
  | mk disk' res =>
  rw [h] at hrun
  simp only [Prod.mk.injEq] at hrun
  obtain ⟨herror, hrev, hnext⟩ := hrun
  cases res with
  | ok r => cases herror
  | error error =>
    refine ⟨disk', error, rfl, fun hsame => ?_, hnext⟩
    rw [show disk' = Disk.ofConfig oneTunnel from hsame, hold] at hrev
    cases hrev

end OrangeFrp.Storage
