import OrangeFrp.Storage.Store

/-!
# Saves that fail half way (`frp-game-server/src/storage.rs`)

`save` is a pipeline of file operations and transactions, each of which may fail on its
own. `Faults` says which of them do in a call, and with what message; a transaction
that fails at any of its statements, or at its commit, is rolled back.

* `saveFaulty_none`: without faults these are the operations of the store.
* `recover_changes_iff`: when the recovery of passwords changes the database.
* `initializeFaulty_quiet_iff`: when `initialize` leaves the directory as it was.
-/
namespace OrangeFrp.Storage

open OrangeFrp.Core

/-! ## The pipeline -/

/-- What can fail, in the order of the calls: in `initialize`, in the recovery, in the
migration, and in `save` itself. -/
inductive Step where
  | prepareParent | openFirst | createSchema | settingsExist
  | countMissing | readDirectory | recoverBegin | recoverStatement | recoverCommit
  | readLegacy | openNew | createSchemaNew | beginNew | statementNew | commitNew | secureNew | rename
  | secureFirst
  | openSave | beginSave | selectRevision | statement | commit | secure
  deriving DecidableEq

/-- The steps that fail, with their messages. -/
abbrev Faults := Step → Option String

/-- Goes through the steps up to the first that fails. -/
def Faults.run (f : Faults) (steps : List Step) : Except String Unit :=
  match steps.findSome? f with
  | some error => .error error
  | none => .ok ()

section
variable (P : Primitives) (f : Faults)

/-- A directory that cannot be listed is taken as one without backups.
mirrors crates/frp-game-server/src/storage.rs:484-584 -/
def recoverFaulty (db : Db) (backups : List (Str × Option Value)) (nonces : Stream' Bytes) :
    Except String Db := do
  f.run [.countMissing]
  if db.users.rows.all fun r => r.passwordEncrypted ≠ [] then return db
  else if (f .readDirectory).isSome = true ∨ passwordCandidates backups = [] then return db
  else
    f.run [.recoverBegin]
    let recovered ← recoverTransaction P db (passwordCandidates backups) nonces
    f.run [.recoverStatement, .recoverCommit]
    return recovered

/-- mirrors crates/frp-game-server/src/storage.rs:283-293 -/
def saveNewFaulty (db : Db) (c : ServerConfig) (e : Entropy) :
    Db × Except String (ServerConfig × Entropy) :=
  match (do
    let normalized ← normalizeLoadedConfig P c e.uuids
    f.run [.openNew, .createSchemaNew, .beginNew]
    let written ← createTransaction db normalized.1
    f.run [.statementNew, .commitNew]
    return (written, normalized.2) : Except String ((Db × ServerConfig) × Draws)) with
  | .error error => (db, .error error)
  | .ok ((db, c), uuids) =>
    match f.run [.secureNew] with
    | .error error => (db, .error error)
    | .ok () => (db, .ok (c, { e with uuids := uuids }))

/-- mirrors crates/frp-game-server/src/storage.rs:106-120 -/
def migrateFaulty (disk : Disk) (file : LegacyFile) (e : Entropy) : Disk × Except String Entropy :=
  match (do
    f.run [.readLegacy]
    migrateLegacyConfig P file.document e : Except String (ServerConfig × Entropy)) with
  | .error error => (disk, .error error)
  | .ok (c, e) =>
    match saveNewFaulty P f disk.db c e with
    | (db, .error error) => ({ disk with db := db }, .error error)
    | (db, .ok (c, e)) =>
      match f.run [.rename] with
      | .error error => ({ disk with db := db }, .error error)
      | .ok () =>
        let name := backupName c.updatedAt
        ({ db := db
           legacy := none
           backups := (name, file.json) :: disk.backups.filter fun b => b.1 ≠ name }, .ok e)

/-- The branches of `initialize`, before the file mode is set.
mirrors crates/frp-game-server/src/storage.rs:93-120 -/
def initializeBranch (disk : Disk) (e : Entropy) : Disk × Except String Entropy :=
  if disk.db.settings.isSome then
    match recoverFaulty P f disk.db disk.backups e.nonces with
    | .error error => (disk, .error error)
    | .ok db => ({ disk with db := db },
      .ok { e with nonces := e.nonces.drop disk.db.users.rows.length })
  else
    match disk.legacy with
    | none => (disk, .ok e)
    | some file => migrateFaulty P f disk file e

/-- mirrors crates/frp-game-server/src/storage.rs:89-123 -/
def initializeFaulty (disk : Disk) (e : Entropy) : Disk × Except String Entropy :=
  match f.run [.prepareParent, .openFirst, .createSchema, .settingsExist] with
  | .error error => (disk, .error error)
  | .ok () =>
    match initializeBranch P f disk e with
    | (disk, .error error) => (disk, .error error)
    | (disk, .ok e) =>
      match f.run [.secureFirst] with
      | .error error => (disk, .error error)
      | .ok () => (disk, .ok e)

/-- The transaction of `save`, from the opening of the database to the commit.
mirrors crates/frp-game-server/src/storage.rs:256-271 -/
def commitFaulty (db : Db) (c : ServerConfig) (e : Entropy) :
    Except String ((Db × ServerConfig) × Draws) := do
  let normalized ← normalizeLoadedConfig P c e.uuids
  f.run [.openSave, .beginSave, .selectRevision]
  let written ← saveTransaction db normalized.1
  f.run [.statement, .commit]
  return (written, normalized.2)

/-- mirrors crates/frp-game-server/src/storage.rs:254-274 -/
def saveFaulty (disk : Disk) (c : ServerConfig) (e : Entropy) :
    Disk × Except String (ServerConfig × Entropy) :=
  match initializeFaulty P f disk e with
  | (disk, .error error) => (disk, .error error)
  | (disk, .ok e) =>
    match commitFaulty P f disk.db c e with
    | .error error => (disk, .error error)
    | .ok ((db, c), uuids) =>
      match f.run [.secure] with
      | .error error => ({ disk with db := db }, .error error)
      | .ok () => ({ disk with db := db }, .ok (c, { e with uuids := uuids }))

end

@[simp] theorem run_ok_iff {f : Faults} {steps : List Step} :
    f.run steps = .ok () ↔ ∀ step ∈ steps, f step = none := by
  unfold Faults.run
  cases h : steps.findSome? f with
  | none => simpa using List.findSome?_eq_none_iff.1 h
  | some error =>
    obtain ⟨step, hs, he⟩ := List.exists_of_findSome?_eq_some h
    refine iff_of_false (by rintro ⟨⟩) fun hall => ?_
    rw [hall step hs] at he
    cases he

/-- No step fails. -/
def noFaults : Faults := fun _ => none

@[simp] theorem run_noFaults (steps : List Step) : noFaults.run steps = .ok () :=
  run_ok_iff.2 fun _ _ => rfl

section
variable {P : Primitives}

theorem recoverFaulty_none (db : Db) (backups : List (Str × Option Value)) (nonces : Stream' Bytes) :
    recoverFaulty P noFaults db backups nonces =
      recoverPasswordsFromLegacyBackups P db backups nonces := by
  unfold recoverFaulty recoverPasswordsFromLegacyBackups
  simp only [run_noFaults, bind, Except.bind, pure, Except.pure, noFaults, Option.isSome_none,
    Bool.false_eq_true, false_or]
  split
  · rfl
  split
  · rfl
  · cases recoverTransaction P db (passwordCandidates backups) nonces <;> rfl

theorem saveNewFaulty_none (db : Db) (c : ServerConfig) (e : Entropy) :
    saveNewFaulty P noFaults db c e = match saveNew P db c e with
      | .error error => (db, .error error)
      | .ok (db, c, e) => (db, .ok (c, e)) := by
  unfold saveNewFaulty saveNew
  simp only [run_noFaults, bind, Except.bind, pure, Except.pure]
  cases normalizeLoadedConfig P c e.uuids with
  | error error => rfl
  | ok normalized =>
    simp only
    cases createTransaction db normalized.1 <;> rfl

theorem migrateFaulty_none (disk : Disk) (file : LegacyFile) (e : Entropy) :
    migrateFaulty P noFaults disk file e = match (do
        let migrated ← migrateLegacyConfig P file.document e
        saveNew P disk.db migrated.1 migrated.2 : Except String (Db × ServerConfig × Entropy)) with
      | .error error => (disk, .error error)
      | .ok (db, c, e) => ({
          db := db
          legacy := none
          backups := (backupName c.updatedAt, file.json) ::
            disk.backups.filter fun b => b.1 ≠ backupName c.updatedAt }, .ok e) := by
  unfold migrateFaulty
  simp only [run_noFaults, saveNewFaulty_none, bind, Except.bind]
  cases migrateLegacyConfig P file.document e with
  | error error => rfl
  | ok migrated =>
    simp only
    cases saveNew P disk.db migrated.1 migrated.2 <;> rfl

/-- **Without faults** the branches are those of the store. -/
theorem initializeFaulty_none (disk : Disk) (e : Entropy) :
    initializeFaulty P noFaults disk e = match initializeStore P disk e with
      | .error error => (disk, .error error)
      | .ok (disk, e) => (disk, .ok e) := by
  unfold initializeFaulty initializeBranch initializeStore
  simp only [run_noFaults, recoverFaulty_none, migrateFaulty_none, bind, Except.bind, pure, Except.pure]
  cases disk.db.settings.isSome with
  | true => cases recoverPasswordsFromLegacyBackups P disk.db disk.backups e.nonces <;> rfl
  | false =>
    cases disk.legacy with
    | none => rfl
    | some file =>
      simp only [Bool.false_eq_true, if_false]
      cases migrateLegacyConfig P file.document e with
      | error error => rfl
      | ok migrated =>
        simp only
        cases saveNew P disk.db migrated.1 migrated.2 <;> rfl

/-- **Without faults** it is `save`. -/
theorem saveFaulty_none (disk : Disk) (c : ServerConfig) (e : Entropy) :
    saveFaulty P noFaults disk c e = save P disk c e := by
  unfold saveFaulty save commitFaulty
  simp only [initializeFaulty_none, run_noFaults, bind, Except.bind, pure, Except.pure]
  cases initializeStore P disk e with
  | error error => rfl
  | ok initialized =>
    simp only
    cases normalizeLoadedConfig P c initialized.2.uuids with
    | error error => rfl
    | ok normalized =>
      simp only
      cases saveTransaction initialized.1.db normalized.1 <;> rfl

end

/-! ## What `initialize` commits -/

section
variable (P : Primitives) (f : Faults)

/-- The steps before the branches of `initialize`. -/
def firstSteps : List Step := [.prepareParent, .openFirst, .createSchema, .settingsExist]

/-- The steps of the recovery. -/
def recoverSteps : List Step :=
  [.countMissing, .readDirectory, .recoverBegin, .recoverStatement, .recoverCommit]

/-- The steps of `save_new` up to its commit. -/
def newSteps : List Step := [.openNew, .createSchemaNew, .beginNew, .statementNew, .commitNew]

/-- A candidate is the password of the row. -/
def Matches (candidates : List (Str × Str)) (row : UserRow) : Prop :=
  ∃ k ∈ candidates, k.1 = row.account ∧ verifyPassword P row.passwordHash k.2 = true

/-- `initialize` commits passwords: some backup has that of a user who has none stored, and
the transaction goes through. -/
def Recovers (disk : Disk) (e : Entropy) : Prop :=
  disk.db.settings.isSome = true ∧
    (∀ step ∈ firstSteps ++ recoverSteps, f step = none) ∧
    (∃ row ∈ disk.db.users.rows, row.passwordEncrypted = [] ∧
      Matches P (passwordCandidates disk.backups) row) ∧
    ∃ db, recoverTransaction P disk.db (passwordCandidates disk.backups) e.nonces = .ok db

/-- `initialize` commits the configuration of a legacy file. -/
def Migrates (disk : Disk) (e : Entropy) : Prop :=
  disk.db.settings.isSome = false ∧
    (∀ step ∈ firstSteps ++ .readLegacy :: newSteps, f step = none) ∧
    ∃ file, disk.legacy = some file ∧
      ∃ migrated, migrateLegacyConfig P file.document e = .ok migrated ∧
        ∃ written, saveNew P disk.db migrated.1 migrated.2 = .ok written

end

section
variable {P : Primitives} {f : Faults}

theorem recoverFaulty_ok {db db' : Db} {backups : List (Str × Option Value)} {nonces : Stream' Bytes}
    (h : recoverFaulty P f db backups nonces = .ok db') :
    db' = db ∨ recoverPasswordsFromLegacyBackups P db backups nonces = .ok db' := by
  obtain ⟨-, -, h⟩ := bind_eq_ok.1 h
  split at h
  · cases h; exact .inl rfl
  rename_i hall
  split at h
  · cases h; exact .inl rfl
  rename_i hnone
  rw [not_or] at hnone
  obtain ⟨-, -, h⟩ := bind_eq_ok.1 h
  obtain ⟨recovered, hr, h⟩ := bind_eq_ok.1 h
  obtain ⟨-, -, h⟩ := bind_eq_ok.1 h
  cases h
  refine .inr ?_
  unfold recoverPasswordsFromLegacyBackups
  rw [if_neg hall, if_neg hnone.2, hr]

theorem recoverFaulty_same {db db' : Db} {backups : List (Str × Option Value)} {nonces : Stream' Bytes}
    (h : recoverFaulty P f db backups nonces = .ok db') : SameButPasswords db db' := by
  rcases recoverFaulty_ok h with rfl | h
  · exact .refl db'
  · exact recover_same h

theorem encryptUserPassword_visible (hP : P.Inverse) {apiSalt secret password encrypted : Str}
    {nonce : Bytes} (h : encryptUserPassword P apiSalt secret password nonce = .ok encrypted) : encrypted ≠ [] := by
  unfold encryptUserPassword at h
  split at h
  · cases h
  cases hs : encryptStoredText P secret apiSalt password nonce with
  | error error => rw [hs] at h; cases h
  | ok stored =>
    rw [hs] at h
    cases h
    obtain ⟨salt, -, hs⟩ := bind_eq_ok.1 hs
    obtain ⟨key, -, hs⟩ := bind_eq_ok.1 hs
    obtain ⟨ciphertext, -, hs⟩ := bind_eq_ok.1 hs
    cases hs
    intro hnil
    have hvisible := hP.base64_visible (STORED_TEXT_VERSION :: (nonce ++ ciphertext)) (by simp)
    rw [hnil] at hvisible
    cases hvisible

/-- The rows of the account have a password stored. -/
def Filled (users : Table userSchema) (account : Str) : Prop :=
  ∀ x ∈ users.rows, x.account = account → x.passwordEncrypted ≠ []

theorem setPassword_filled {users : Table userSchema} {account account' encrypted : Str}
    (he : encrypted ≠ []) (h : Filled users account ∨ account = account') :
    Filled (setPassword users account' encrypted) account := by
  intro y hy hacc
  obtain ⟨x, hx, rfl⟩ := List.mem_map.1 hy
  split at hacc
  · rename_i hc
    rw [if_pos hc]
    exact he
  rename_i hc
  rw [if_neg hc]
  rcases h with h | rfl
  · exact h x hx hacc
  · exact fun hnil => hc ⟨hacc, hnil⟩

/-- The recovery fills the rows that a candidate matches, and empties none. -/
theorem recoverUsers_filled (hP : P.Inverse) {apiSalt : Str} {candidates : List (Str × Str)}
    {users users' : Table userSchema} {rows : List UserRow} {nonces : Stream' Bytes}
    (h : recoverUsers P apiSalt candidates users rows nonces = .ok users') {account : Str}
    (hf : Filled users account ∨ ∃ row ∈ rows, row.account = account ∧ Matches P candidates row) :
    Filled users' account := by
  induction rows generalizing users nonces with
  | nil =>
    cases h
    exact hf.resolve_right (by simp)
  | cons row rows ih =>
    rw [recoverUsers] at h
    split at h
    · rename_i hnone
      refine ih h (hf.imp_right ?_)
      rintro ⟨r, hr, hacc, hm⟩
      rcases List.mem_cons.1 hr with rfl | hr
      · obtain ⟨k, hk, hmatch⟩ := hm
        exact absurd hmatch (by simpa using List.find?_eq_none.1 hnone k hk)
      · exact ⟨r, hr, hacc, hm⟩
    · obtain ⟨encrypted, henc, h⟩ := bind_eq_ok.1 h
      have he := encryptUserPassword_visible hP henc
      refine ih h ?_
      rcases hf with hf | ⟨r, hr, hacc, hm⟩
      · exact .inl (setPassword_filled he (.inl hf))
      · rcases List.mem_cons.1 hr with rfl | hr
        · exact .inl (setPassword_filled he (.inr hacc.symm))
        · exact .inr ⟨r, hr, hacc, hm⟩

theorem recoverUsers_unmatched {apiSalt : Str} {candidates : List (Str × Str)} {users : Table userSchema}
    {rows : List UserRow} {nonces : Stream' Bytes} (hno : ∀ row ∈ rows, ¬ Matches P candidates row) :
    recoverUsers P apiSalt candidates users rows nonces = .ok users := by
  induction rows with
  | nil => rfl
  | cons row rows ih =>
    rw [List.forall_mem_cons] at hno
    have hnone : candidates.find?
        (fun k => k.1 = row.account ∧ verifyPassword P row.passwordHash k.2) = none :=
      List.find?_eq_none.2 fun k hk hmatch => hno.1 ⟨k, hk, by simpa using hmatch⟩
    rw [recoverUsers, hnone]
    exact ih hno.2

/-- **When the recovery changes the database**: some backup has a password that is not stored. -/
theorem recover_changes_iff (hP : P.Inverse) {db : Db} {backups : List (Str × Option Value)}
    {nonces : Stream' Bytes} :
    (∃ db', recoverPasswordsFromLegacyBackups P db backups nonces = .ok db' ∧ db' ≠ db) ↔
      (∃ row ∈ db.users.rows, row.passwordEncrypted = [] ∧ Matches P (passwordCandidates backups) row) ∧
        ∃ db', recoverTransaction P db (passwordCandidates backups) nonces = .ok db' := by
  unfold recoverPasswordsFromLegacyBackups
  refine ⟨?_, ?_⟩
  · intro hx
    obtain ⟨db', h, hne⟩ := hx
    split at h
    · cases h; exact absurd rfl hne
    split at h
    · cases h; exact absurd rfl hne
    refine ⟨?_, db', h⟩
    by_contra hno
    push Not at hno
    unfold recoverTransaction at h
    split at h
    · cases h
    rw [recoverUsers_unmatched fun row hrow => ?_] at h
    · cases h
      exact hne rfl
    · obtain ⟨hrow, hnil⟩ := List.mem_filter.1 hrow
      exact hno row hrow (of_decide_eq_true hnil)
  · intro hx
    obtain ⟨⟨row, hrow, hnil, hm⟩, db', h⟩ := hx
    have hall : ¬ (db.users.rows.all fun r => r.passwordEncrypted ≠ []) = true := by
      intro hall
      exact of_decide_eq_true (List.all_eq_true.1 hall row hrow) hnil
    have hsome : passwordCandidates backups ≠ [] := by
      obtain ⟨k, hk, -⟩ := hm
      exact List.ne_nil_of_mem hk
    rw [if_neg hall, if_neg hsome]
    refine ⟨db', h, fun he => ?_⟩
    rw [he] at h
    unfold recoverTransaction at h
    split at h
    · cases h
    obtain ⟨users, hu, h⟩ := bind_eq_ok.1 h
    have husers : users = db.users := congrArg Db.users (Except.ok.inj h)
    have hfilled := recoverUsers_filled hP hu
      (.inr ⟨row, List.mem_filter.2 ⟨hrow, decide_eq_true hnil⟩, rfl, hm⟩)
    rw [husers] at hfilled
    exact hfilled row hrow rfl hnil

/-- The recovery changes the database when none of its steps fails. -/
theorem recoverFaulty_changes_iff {db : Db} {backups : List (Str × Option Value)}
    {nonces : Stream' Bytes} :
    (∃ db', recoverFaulty P f db backups nonces = .ok db' ∧ db' ≠ db) ↔
      (∀ step ∈ recoverSteps, f step = none) ∧
      ∃ db', recoverPasswordsFromLegacyBackups P db backups nonces = .ok db' ∧ db' ≠ db := by
  refine ⟨?_, ?_⟩
  · intro hx
    obtain ⟨db', h, hne⟩ := hx
    have hok := (recoverFaulty_ok h).resolve_left hne
    refine ⟨?_, db', hok, hne⟩
    obtain ⟨⟨⟩, h₁, h⟩ := bind_eq_ok.1 h
    split at h
    · cases h; exact absurd rfl hne
    split at h
    · cases h; exact absurd rfl hne
    rename_i hnone
    rw [not_or, Option.not_isSome_iff_eq_none] at hnone
    obtain ⟨⟨⟩, h₂, h⟩ := bind_eq_ok.1 h
    obtain ⟨recovered, -, h⟩ := bind_eq_ok.1 h
    obtain ⟨⟨⟩, h₃, -⟩ := bind_eq_ok.1 h
    rw [run_ok_iff] at h₁ h₂ h₃
    simp only [recoverSteps, List.mem_cons, List.not_mem_nil, or_false, forall_eq_or_imp, forall_eq] at h₁ h₂ h₃ ⊢
    exact ⟨h₁, hnone.1, h₂, h₃⟩
  · intro hx
    obtain ⟨hsteps, db', h, hne⟩ := hx
    refine ⟨db', ?_, hne⟩
    simp only [recoverSteps, List.mem_cons, List.not_mem_nil, or_false, forall_eq_or_imp, forall_eq] at hsteps
    obtain ⟨h₁, h₂, h₃, h₄, h₅⟩ := hsteps
    rw [← h, ← recoverFaulty_none]
    have hrun : ∀ steps : List Step, (∀ step ∈ steps, f step = none) → f.run steps = noFaults.run steps :=
      fun steps hs => by rw [run_ok_iff.2 hs, run_noFaults]
    unfold recoverFaulty
    rw [hrun [.countMissing] (by simpa using h₁), hrun [.recoverBegin] (by simpa using h₃),
      hrun [.recoverStatement, .recoverCommit] (by simpa using ⟨h₄, h₅⟩), h₂]
    rfl

/-- A first snapshot is committed when none of these fails; then there are settings. -/
theorem saveNewFaulty_db (db : Db) (c : ServerConfig) (e : Entropy) :
    ((∃ error, saveNewFaulty P f db c e = (db, .error error)) ∧
      ¬ ((∀ step ∈ newSteps, f step = none) ∧ ∃ written, saveNew P db c e = .ok written)) ∨
    ((saveNewFaulty P f db c e).1.settings.isSome = true ∧
      (∀ step ∈ newSteps, f step = none) ∧ ∃ written, saveNew P db c e = .ok written) := by
  have hsteps : (∀ step ∈ newSteps, f step = none) ↔
      f.run [.openNew, .createSchemaNew, .beginNew] = .ok () ∧
        f.run [.statementNew, .commitNew] = .ok () := by
    simp only [newSteps, run_ok_iff, List.mem_cons, List.not_mem_nil, or_false, forall_eq_or_imp,
      forall_eq]
    tauto
  rw [hsteps]
  unfold saveNewFaulty saveNew
  simp only [bind, Except.bind, pure, Except.pure]
  cases normalizeLoadedConfig P c e.uuids with
  | error error => exact .inl ⟨⟨_, rfl⟩, fun h => by obtain ⟨-, _, h⟩ := h; cases h⟩
  | ok normalized =>
    simp only
    cases h₁ : f.run [.openNew, .createSchemaNew, .beginNew] with
    | error error => exact .inl ⟨⟨_, rfl⟩, fun h => by cases h.1.1⟩
    | ok =>
      simp only
      cases hw : createTransaction db normalized.1 with
      | error error => exact .inl ⟨⟨_, rfl⟩, fun h => by obtain ⟨-, _, h⟩ := h; cases h⟩
      | ok written =>
        simp only
        cases h₂ : f.run [.statementNew, .commitNew] with
        | error error => exact .inl ⟨⟨_, rfl⟩, fun h => by cases h.1.2⟩
        | ok =>
          obtain ⟨db', hdb, hw⟩ := bind_eq_ok.1 hw
          cases hw
          have hset : db'.settings.isSome = true := by rw [writeSnapshot_settings hdb]; rfl
          refine .inr ⟨?_, ⟨trivial, rfl⟩, _, rfl⟩
          simp only
          split <;> exact hset

theorem migrateFaulty_quiet_iff {disk : Disk} (hset : disk.db.settings.isSome = false)
    (file : LegacyFile) (e : Entropy) :
    (migrateFaulty P f disk file e).1 = disk ↔
      ¬ ((∀ step ∈ Step.readLegacy :: newSteps, f step = none) ∧
        ∃ migrated, migrateLegacyConfig P file.document e = .ok migrated ∧
          ∃ written, saveNew P disk.db migrated.1 migrated.2 = .ok written) := by
  rw [List.forall_mem_cons]
  unfold migrateFaulty
  simp only [bind, Except.bind]
  cases hread : f.run [.readLegacy] with
  | error error =>
    refine iff_of_true rfl fun h => ?_
    rw [run_ok_iff.2 (by simpa using h.1.1)] at hread
    cases hread
  | ok =>
    have hone : f .readLegacy = none := run_ok_iff.1 hread _ List.mem_cons_self
    cases hm : migrateLegacyConfig P file.document e with
    | error error => exact iff_of_true rfl fun h => by obtain ⟨-, _, h, -⟩ := h; cases h
    | ok migrated =>
      simp only [hone, true_and, Except.ok.injEq, exists_eq_left']
      rcases saveNewFaulty_db (P := P) (f := f) disk.db migrated.1 migrated.2 with
        ⟨⟨error, h⟩, hnot⟩ | ⟨h, hyes⟩
      · simp only [h]
        exact iff_of_true trivial hnot
      · refine iff_of_false (fun hsame => ?_) (not_not.2 hyes)
        -- there are settings now
        have hdb : (saveNewFaulty P f disk.db migrated.1 migrated.2).1 = disk.db := by
          have hsame := congrArg Disk.db hsame
          revert hsame
          cases saveNewFaulty P f disk.db migrated.1 migrated.2 with
          | mk db res =>
          cases res with
          | error error => exact id
          | ok r =>
            simp only
            split <;> exact id
        rw [hdb, hset] at h
        cases h

/-- **When `initialize` leaves the directory as it was.** -/
theorem initializeFaulty_quiet_iff (hP : P.Inverse) (disk : Disk) (e : Entropy) :
    (initializeFaulty P f disk e).1 = disk ↔ ¬ Recovers P f disk e ∧ ¬ Migrates P f disk e := by
  unfold Recovers Migrates
  simp only [List.forall_mem_append]
  cases hfirst : f.run firstSteps with
  | error error =>
    have hnot : ¬ ∀ step ∈ firstSteps, f step = none := fun h => by
      rw [run_ok_iff.2 h] at hfirst
      cases hfirst
    have hself : (initializeFaulty P f disk e).1 = disk := by
      unfold initializeFaulty
      rw [show [Step.prepareParent, .openFirst, .createSchema, .settingsExist] = firstSteps from rfl,
        hfirst]
    exact iff_of_true hself ⟨fun h => hnot h.2.1.1, fun h => hnot h.2.1.1⟩
  | ok =>
    have hok := run_ok_iff.1 hfirst
    have hdisk : (initializeFaulty P f disk e).1 = (initializeBranch P f disk e).1 := by
      unfold initializeFaulty
      rw [show [Step.prepareParent, .openFirst, .createSchema, .settingsExist] = firstSteps from rfl,
        hfirst]
      simp only
      split
      · rename_i hb; rw [hb]
      · rename_i hb
        rw [hb]
        split <;> rfl
    rw [hdisk]
    unfold initializeBranch
    cases hset : disk.db.settings.isSome with
    | true =>
      simp only [if_true, Bool.true_eq_false, false_and, not_false_eq_true, and_true, true_and]
      rw [and_iff_right hok, ← recover_changes_iff hP, ← recoverFaulty_changes_iff]
      cases hr : recoverFaulty P f disk.db disk.backups e.nonces with
      | error error => simp
      | ok db =>
        simp only [Except.ok.injEq, exists_eq_left', ne_eq, not_not]
        refine ⟨?_, ?_⟩
        · exact fun h => congrArg Disk.db h
        · rintro rfl; rfl
    | false =>
      simp only [Bool.false_eq_true, if_false, false_and, not_false_eq_true, true_and]
      rw [and_iff_right hok]
      cases hleg : disk.legacy with
      | none => simp
      | some file =>
        simp only [Option.some.injEq, exists_eq_left']
        exact migrateFaulty_quiet_iff hset file e

end

end OrangeFrp.Storage
