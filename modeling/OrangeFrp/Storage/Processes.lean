import OrangeFrp.Core.LTS
import OrangeFrp.Storage.Kept

/-!
# Several processes on one database (`frp-game-server/src/storage.rs`)

Any number of processes run `initialize`, `read`, `save` and `create` against
one data directory. Each of these opens several transactions, and another
process can commit between two of them: a step of the system is one
transaction, or one look at the files, of one process. `Phase` says where a
process stands between two steps and what it took from the last one.

The configurations that a process has read, created or saved are its
`versions`; it saves one of them under any changes, but with its revision. What
other processes have committed since is the ghost list `missed`. A transaction
that goes through while something is missed overwrites it.

`save` compares revisions, so a version that has missed a save or a creation is
refused. Three ways past the comparison remain, and `Orderly` excludes each:

* `create` and the migration look for the settings in one transaction and
  write in another, which neither looks again nor compares a revision;
* the recovery of passwords commits without a new revision;
* `save` advances the revision in the caller's configuration before it writes
  the snapshot, so that a snapshot that fails leaves a configuration with the
  revision of a save that another process may since have made.

* `lossless_iff`: after any orderly run, a step overwrites nothing exactly when it
  is orderly.
* `initializeStore_alone`, `read_alone`, `save_alone`, `create_alone`: undisturbed,
  the steps of a process come to the functions of `Storage.Store`.
-/
namespace OrangeFrp.Storage

open OrangeFrp.Core

/-! ## Processes -/

abbrev Pid := Nat

/-- What a commit was: of `save`, of `save_new`, or of the recovery of passwords. -/
inductive Kind where
  | saved | created | recovered
  deriving DecidableEq

structure Change where
  writer : Pid
  kind : Kind
  deriving DecidableEq

/-- A configuration in the memory of a process. `advanced` marks one that a failed
`save` or `create` has left with the revision it would have been given. -/
structure Version where
  config : ServerConfig
  missed : List Change
  advanced : Bool
  deriving DecidableEq

inductive Op where
  | initializeStore
  | read
  | save (version : Nat) (config : ServerConfig)

/-- Between two steps; `missed` is what was committed since the process saw that
there are no settings, or since its first `SELECT`. -/
inductive Phase where
  | idle
  | found (op : Op)
  | counted (op : Op)
  | recovering (op : Op) (candidates : List (Str × Str))
  | absent (op : Op) (missed : List Change)
  | legacy (op : Op) (missed : List Change)
  | migrating (op : Op) (config : ServerConfig) (missed : List Change)
  | renaming (op : Op) (name : Str)
  | ready (op : Op)
  | creating (config : ServerConfig) (missed : List Change)
  | selectedSettings (row : SettingsRow) (missed : List Change)
  | selectedUsers (row : SettingsRow) (users : Table userSchema) (missed : List Change)
  | selectedTunnels (row : SettingsRow) (users : Table userSchema) (tunnels : Table tunnelSchema)
      (missed : List Change)

structure Process where
  phase : Phase
  versions : List Version

/-- `create` has one transaction before `save_new`, the others start with `initialize`;
`stop` is a crash or an error of the operating system at any point. -/
inductive Act where
  | begin (op : Op)
  | create (config : ServerConfig)
  | next (e : Entropy)
  | stop

structure Commit where
  kind : Kind
  overwritten : List Change
  deriving DecidableEq

structure Outcome where
  disk : Disk
  process : Process
  commit : Option Commit

/-! ## Steps -/

def Process.to (q : Process) (phase : Phase) : Process := { q with phase := phase }

/-- The operation ends; its configuration stays in memory. -/
def Process.keep (q : Process) (v : Version) : Process := ⟨.idle, q.versions ++ [v]⟩

/-- A version is saved under any changes but to its revision. -/
def Process.may (q : Process) : Op → Bool
  | .save version config => q.versions[version]?.any fun v => v.config.revision = config.revision
  | _ => true

def Outcome.quiet (disk : Disk) (q : Process) : Outcome := ⟨disk, q, none⟩

section
variable (P : Primitives)

/-- The steps of `initialize` after its look at the settings.
mirrors crates/frp-game-server/src/storage.rs:93-123,484-584 -/
def Process.initializing (q : Process) (disk : Disk) (e : Entropy) : Option Outcome :=
  match q.phase with
  | .found op =>
    some (.quiet disk (q.to (if disk.db.users.rows.all fun r => r.passwordEncrypted ≠ [] then .ready op
      else .counted op)))
  | .counted op =>
    some (.quiet disk (q.to (if passwordCandidates disk.backups = [] then .ready op
      else .recovering op (passwordCandidates disk.backups))))
  | .recovering op candidates =>
    match recoverTransaction P disk.db candidates e.nonces with
    | .error _ => some (.quiet disk (q.to .idle))
    | .ok db => some {
        disk := { disk with db := db }
        process := q.to (.ready op)
        commit := if db = disk.db then none else some ⟨.recovered, []⟩ }
  | .absent op missed =>
    some (.quiet disk (q.to (if disk.legacy.isSome then .legacy op missed else .ready op)))
  | .legacy op missed =>
    match disk.legacy with
    | none => some (.quiet disk (q.to .idle))
    | some file =>
      match migrateLegacyConfig P file.document e with
      | .error _ => some (.quiet disk (q.to .idle))
      | .ok migrated => some (.quiet disk (q.to (.migrating op migrated.1 missed)))
  | .migrating op config missed =>
    match saveNew P disk.db config e with
    | .error _ => some (.quiet disk (q.to .idle))
    | .ok written => some {
        disk := { disk with db := written.1 }
        process := q.to (.renaming op (backupName written.2.1.updatedAt))
        commit := some ⟨.created, missed⟩ }
  | .renaming op name =>
    match disk.legacy with
    | none => some (.quiet disk (q.to .idle))
    | some file => some (.quiet
        { disk with
          legacy := none
          backups := (name, file.json) :: disk.backups.filter fun b => b.1 ≠ name }
        (q.to (.ready op)))
  | _ => none

/-- The `SELECT`s of `read`, each a transaction of its own. A recovery before the
second is seen by it.
mirrors crates/frp-game-server/src/storage.rs:135-251 -/
def Process.reading (q : Process) (disk : Disk) (e : Entropy) : Option Outcome :=
  match q.phase with
  | .ready .read =>
    match disk.db.settings with
    | none => some (.quiet disk (q.to .idle))
    | some row => some (.quiet disk (q.to (.selectedSettings row [])))
  | .selectedSettings row missed =>
    some (.quiet disk
      (q.to (.selectedUsers row disk.db.users (missed.filter fun change => change.kind ≠ .recovered))))
  | .selectedUsers row users missed =>
    some (.quiet disk (q.to (.selectedTunnels row users disk.db.tunnels missed)))
  | .selectedTunnels row users tunnels missed =>
    match loadConfig ⟨some row, users, tunnels, disk.db.traffic⟩ with
    | .error _ => some (.quiet disk (q.to .idle))
    | .ok config =>
      match normalizeLoadedConfig P config e.uuids with
      | .error _ => some (.quiet disk (q.to .idle))
      | .ok normalized => some (.quiet disk (q.keep ⟨normalized.1, missed, false⟩))
  | _ => none

/-- What a snapshot that fails leaves in the caller's configuration.
mirrors crates/frp-game-server/src/storage.rs:263-270 -/
def advanced (db : Db) (c : ServerConfig) : Option ServerConfig :=
  match db.settings with
  | none => none
  | some s => if s.revision ≠ c.revision then none else some { c with revision := nextRevision s.revision }

/-- The transactions of `save` and of `create`.
mirrors crates/frp-game-server/src/storage.rs:254-293 -/
def Process.writing (q : Process) (disk : Disk) (e : Entropy) : Option Outcome :=
  match q.phase with
  | .ready (.save version config) =>
    q.versions[version]?.bind fun v =>
      match normalizeLoadedConfig P config e.uuids with
      | .error _ => some (.quiet disk (q.to .idle))
      | .ok normalized =>
        match saveTransaction disk.db normalized.1 with
        | .ok written => some {
            disk := { disk with db := written.1 }
            process := q.keep ⟨written.2, [], false⟩
            commit := some ⟨.saved, v.missed⟩ }
        | .error _ =>
          match advanced disk.db normalized.1 with
          | none => some (.quiet disk (q.to .idle))
          | some config => some (.quiet disk (q.keep ⟨config, v.missed, true⟩))
  | .creating config missed =>
    match normalizeLoadedConfig P config e.uuids with
    | .error _ => some (.quiet disk (q.to .idle))
    | .ok normalized =>
      match createTransaction disk.db normalized.1 with
      | .ok written => some {
          disk := { disk with db := written.1 }
          process := q.keep ⟨written.2, [], false⟩
          commit := some ⟨.created, missed⟩ }
      | .error _ => some (.quiet disk (q.keep ⟨{ normalized.1 with revision := 1 }, missed, true⟩))
  | _ => none

def Process.step (q : Process) (disk : Disk) : Act → Option Outcome
  | .begin op =>
    match q.phase with
    | .idle =>
      if q.may op then
        some (.quiet disk (q.to (if isInitialized disk then .found op else .absent op [])))
      else none
    | _ => none
  | .create config =>
    match q.phase with
    | .idle => some (.quiet disk (q.to (if isInitialized disk then .idle else .creating config [])))
    | _ => none
  | .next e =>
    match q.phase with
    | .ready .initializeStore => some (.quiet disk (q.to .idle))
    | _ => (q.initializing P disk e).or ((q.reading P disk e).or (q.writing P disk e))
  | .stop => some (.quiet disk (q.to .idle))

end

/-! ## The system -/

def Version.miss (change : Change) (v : Version) : Version :=
  { v with missed := change :: v.missed }

def Phase.miss (change : Change) : Phase → Phase
  | .absent op missed => .absent op (change :: missed)
  | .legacy op missed => .legacy op (change :: missed)
  | .migrating op config missed => .migrating op config (change :: missed)
  | .creating config missed => .creating config (change :: missed)
  | .selectedSettings row missed => .selectedSettings row (change :: missed)
  | .selectedUsers row users missed => .selectedUsers row users (change :: missed)
  | .selectedTunnels row users tunnels missed => .selectedTunnels row users tunnels (change :: missed)
  | phase => phase

/-- Another process has committed. -/
def Process.miss (change : Change) (q : Process) : Process :=
  ⟨q.phase.miss change, q.versions.map (Version.miss change)⟩

structure System where
  disk : Disk
  processes : Pid → Process

/-- The commit of one process is missed by all others. -/
def System.settle (s : System) (p : Pid) (o : Outcome) : System where
  disk := o.disk
  processes i :=
    if i = p then o.process
    else match o.commit with
      | none => s.processes i
      | some commit => (s.processes i).miss ⟨p, commit.kind⟩

def System.outcome (P : Primitives) (s : System) (l : Pid × Act) : Option Outcome :=
  (s.processes l.1).step P s.disk l.2

def System.step (P : Primitives) (s : System) (l : Pid × Act) : Option System :=
  (s.outcome P l).map (s.settle l.1)

def System.fresh (disk : Disk) : System := ⟨disk, fun _ => ⟨.idle, []⟩⟩

/-- The processes start on any data directory. -/
def processes (P : Primitives) : LTS System (Pid × Act) :=
  .ofFn (fun s => ∃ disk, s = .fresh disk) (System.step P)

/-! ## Conditions -/

/-- No step overwrites what another process has committed. -/
def Lossless (P : Primitives) (s : System) (l : Pid × Act) : Prop :=
  ∀ o, s.outcome P l = some o → ∀ commit, o.commit = some commit → commit.overwritten = []

/-- A version may be saved when no recovery was missed, and one that a failed
write has advanced when nothing was. -/
def Version.Current (v : Version) : Prop :=
  (∀ change ∈ v.missed, change.kind ≠ .recovered) ∧ (v.advanced = true → v.missed = [])

/-- What the transaction of a phase does not check. -/
def Process.Unchecked (q : Process) (db : Db) : Prop :=
  match q.phase with
  | .migrating _ _ _ => db.settings = none
  | .creating _ _ => db.settings = none
  | .ready (.save version _) => ∀ v, q.versions[version]? = some v → v.Current
  | _ => True

/-- Where the transaction of a step goes through, it was right not to check. -/
def Orderly (P : Primitives) (s : System) (l : Pid × Act) : Prop :=
  ∀ o, s.outcome P l = some o → o.commit ≠ none → (s.processes l.1).Unchecked s.disk.db

/-- The stored revision is not at its end. -/
def Bounded (s : System) : Prop := ∀ row, s.disk.db.settings = some row → row.revision < I64_MAX

/-! ## What a process knows of the database -/

/-- How a commit moves the settings when it was right not to check. -/
inductive Advances : Kind → Option SettingsRow → Option SettingsRow → Prop
  | recovered (row : SettingsRow) : Advances .recovered (some row) (some row)
  | created (row : SettingsRow) : Advances .created none (some row)
  | saved {row row' : SettingsRow} (h : row'.revision = row.revision + 1) :
      Advances .saved (some row) (some row')

/-- How an outcome moves the settings. -/
def Moves (commit : Option Commit) (σ σ' : Option SettingsRow) : Prop :=
  match commit with
  | none => σ' = σ
  | some commit => Advances commit.kind σ σ'

/-- The stored revision is past `revision` once a save or a creation was missed. -/
def Known (σ : Option SettingsRow) (revision : Int) (missed : List Change) : Prop :=
  ∃ row, σ = some row ∧ revision ≤ row.revision ∧
    ((∃ change ∈ missed, change.kind ≠ .recovered) → revision < row.revision)

/-- There are settings once anything was missed. -/
def Unseen (σ : Option SettingsRow) (missed : List Change) : Prop := σ = none ↔ missed = []

def Phase.Sound (σ : Option SettingsRow) : Phase → Prop
  | .absent _ missed => Unseen σ missed
  | .legacy _ missed => Unseen σ missed
  | .migrating _ _ missed => Unseen σ missed
  | .creating _ missed => Unseen σ missed
  | .selectedSettings row missed => Known σ row.revision missed
  | .selectedUsers row _ missed => Known σ row.revision missed
  | .selectedTunnels row _ _ missed => Known σ row.revision missed
  | _ => True

/-- The operation under way. -/
def Phase.op : Phase → Option Op
  | .found op => some op
  | .counted op => some op
  | .recovering op _ => some op
  | .absent op _ => some op
  | .legacy op _ => some op
  | .migrating op _ _ => some op
  | .renaming op _ => some op
  | .ready op => some op
  | _ => none

structure Process.Sound (σ : Option SettingsRow) (q : Process) : Prop where
  versions : ∀ v ∈ q.versions, v.advanced = false → Known σ v.config.revision v.missed
  phase : q.phase.Sound σ
  op : ∀ op, q.phase.op = some op → q.may op = true

theorem Known.mono {σ : Option SettingsRow} {revision : Int} {missed missed' : List Change}
    (h : Known σ revision missed) (hm : ∀ change ∈ missed', change ∈ missed) :
    Known σ revision missed' := by
  obtain ⟨row, hset, hle, hlt⟩ := h
  exact ⟨row, hset, hle, fun ⟨change, hc, hk⟩ => hlt ⟨change, hm change hc, hk⟩⟩

theorem known_self (row : SettingsRow) : Known (some row) row.revision [] :=
  ⟨row, rfl, le_refl _, fun ⟨_, hc, _⟩ => by cases hc⟩

theorem unseen_none : Unseen none [] := ⟨fun _ => rfl, fun _ => rfl⟩

/-- A commit of the process itself. -/
theorem Known.moves {commit : Option Commit} {σ σ' : Option SettingsRow} {revision : Int}
    {missed : List Change} (hm : Moves commit σ σ') (h : Known σ revision missed) :
    Known σ' revision missed := by
  cases commit with
  | none => rw [show σ' = σ from hm]; exact h
  | some commit =>
    obtain ⟨row, hset, hle, hlt⟩ := h
    unfold Moves at hm
    cases hm' : commit.kind <;> simp only [hm'] at hm <;> cases hm
    · rename_i row₁ row' hrev
      cases hset
      exact ⟨row', rfl, by omega, fun hc => by have := hlt hc; omega⟩
    · cases hset
    · exact ⟨row, hset, hle, hlt⟩

/-- A commit of another process. -/
theorem Known.miss {kind : Kind} {σ σ' : Option SettingsRow} {revision : Int}
    {missed : List Change} (hm : Advances kind σ σ') (h : Known σ revision missed) (writer : Pid) :
    Known σ' revision (⟨writer, kind⟩ :: missed) := by
  obtain ⟨row, hset, hle, hlt⟩ := h
  cases hm with
  | recovered row₁ =>
    refine ⟨row, hset, hle, fun ⟨change, hc, hk⟩ => ?_⟩
    rcases List.mem_cons.1 hc with rfl | hc
    · exact absurd rfl hk
    · exact hlt ⟨change, hc, hk⟩
  | created row₁ => cases hset
  | saved hrev =>
    cases hset
    exact ⟨_, rfl, by omega, fun _ => by omega⟩

theorem Unseen.miss {kind : Kind} {σ σ' : Option SettingsRow} (hm : Advances kind σ σ')
    (missed : List Change) (writer : Pid) : Unseen σ' (⟨writer, kind⟩ :: missed) := by
  cases hm <;> simp [Unseen]

theorem Process.Sound.miss {kind : Kind} {σ σ' : Option SettingsRow} {q : Process}
    (hm : Advances kind σ σ') (h : q.Sound σ) (writer : Pid) : (q.miss ⟨writer, kind⟩).Sound σ' := by
  refine ⟨fun v hv ha => ?_, ?_, fun op hop => ?_⟩
  · obtain ⟨v₀, hv₀, rfl⟩ := List.mem_map.1 hv
    exact (h.versions v₀ hv₀ ha).miss hm writer
  · have hp := h.phase
    unfold Process.miss
    cases hq : q.phase <;> simp only [hq, Phase.Sound, Phase.miss] at hp ⊢
    all_goals first | exact Unseen.miss hm _ writer | exact hp.miss hm writer
  · have hop' : q.phase.op = some op := by
      unfold Process.miss at hop
      cases hq : q.phase <;> rw [hq] at hop <;> exact hop
    have := h.op op hop'
    cases op with
    | save version config =>
      simp only [Process.may, Process.miss, List.getElem?_map, Option.any_map] at this ⊢
      exact this
    | initializeStore => rfl
    | read => rfl

/-! ## One step of one process -/

theorem Process.Sound.to {m : Option Commit} {σ σ' : Option SettingsRow} {q : Process}
    (h : q.Sound σ) (hm : Moves m σ σ') {phase : Phase} (hp : phase.Sound σ')
    (hop : ∀ op, phase.op = some op → q.phase.op = some op) : (q.to phase).Sound σ' :=
  ⟨fun v hv ha => (h.versions v hv ha).moves hm, hp, fun op ho => h.op op (hop op ho)⟩

theorem Process.Sound.keep {m : Option Commit} {σ σ' : Option SettingsRow} {q : Process}
    (h : q.Sound σ) (hm : Moves m σ σ') {v : Version}
    (hv : v.advanced = false → Known σ' v.config.revision v.missed) : (q.keep v).Sound σ' := by
  refine ⟨fun w hw ha => ?_, trivial, fun op ho => by cases ho⟩
  rcases List.mem_append.1 hw with hw | hw
  · exact (h.versions w hw ha).moves hm
  · obtain rfl := List.mem_singleton.1 hw
    exact hv ha

theorem Process.Sound.idle {σ : Option SettingsRow} {q : Process} (h : q.Sound σ) :
    (q.to .idle).Sound σ :=
  h.to (m := none) rfl trivial fun op ho => by cases ho

section
variable {P : Primitives} {q : Process} {disk : Disk} {e : Entropy} {o : Outcome} {commit : Commit}

/-- What a commit was: from which phase, and what it left in the database. -/
inductive Commits (P : Primitives) (q : Process) (disk : Disk) (o : Outcome) : Commit → Prop
  | recovered {op : Op} {candidates : List (Str × Str)} {row : SettingsRow}
      (phase : q.phase = .recovering op candidates) (before : disk.db.settings = some row)
      (after : o.disk.db.settings = some row) : Commits P q disk o ⟨.recovered, []⟩
  | created {c : ServerConfig} {missed : List Change}
      (phase : (∃ op c₀, q.phase = .migrating op c₀ missed) ∨ ∃ c₀, q.phase = .creating c₀ missed)
      (valid : Valid P c) (holds : Holds o.disk.db c) : Commits P q disk o ⟨.created, missed⟩
  | saved {version : Nat} {config c : ServerConfig} {v : Version} {row : SettingsRow}
      (phase : q.phase = .ready (.save version config)) (held : q.versions[version]? = some v)
      (before : disk.db.settings = some row) (current : row.revision = config.revision)
      (valid : Valid P c) (holds : Holds o.disk.db c)
      (revision : c.revision = nextRevision row.revision) : Commits P q disk o ⟨.saved, v.missed⟩

theorem Commits.holds (h : Commits P q disk o commit) (hk : commit.kind ≠ .recovered) :
    ∃ c, Valid P c ∧ Holds o.disk.db c := by
  cases h with
  | recovered => exact absurd rfl hk
  | created _ valid holds => exact ⟨_, valid, holds⟩
  | saved _ _ _ _ valid holds => exact ⟨_, valid, holds⟩

theorem Commits.moves (h : Commits P q disk o commit)
    (hb : ∀ row, disk.db.settings = some row → row.revision < I64_MAX) (hun : q.Unchecked disk.db) :
    Advances commit.kind disk.db.settings o.disk.db.settings := by
  cases h with
  | recovered _ before after => rw [before, after]; exact .recovered _
  | created phase _ holds =>
    have hnone : disk.db.settings = none := by
      rcases phase with ⟨op, c₀, hq⟩ | ⟨c₀, hq⟩ <;> rwa [Process.Unchecked, hq] at hun
    rw [hnone, holds.settings]
    exact .created _
  | @saved version config c v row _ _ before _ _ holds revision =>
    rw [before, holds.settings]
    refine .saved ?_
    have := hb row before
    show c.revision = row.revision + 1
    rw [revision, nextRevision]
    omega

/-- A version that is accepted has missed no save and no creation, unless a failed
write has advanced it. -/
theorem Commits.overwrites_iff (h : Commits P q disk o commit) (hs : q.Sound disk.db.settings) :
    commit.overwritten = [] ↔ q.Unchecked disk.db := by
  cases h with
  | recovered phase => simp [Process.Unchecked, phase]
  | created phase =>
    have hp := hs.phase
    rcases phase with ⟨op, c₀, hq⟩ | ⟨c₀, hq⟩ <;> simp only [hq, Phase.Sound, Unseen] at hp <;>
      simp only [Process.Unchecked, hq] <;> exact hp.symm
  | @saved version config c v row phase held before current =>
    have hmay := hs.op (.save version config) (by rw [phase]; rfl)
    simp only [Process.may, held, Option.any_some, decide_eq_true_eq] at hmay
    simp only [Process.Unchecked, phase, held, Option.some.injEq, forall_eq']
    refine ⟨?_, ?_⟩
    · intro hm
      exact ⟨by rw [hm]; exact fun _ hc => absurd hc List.not_mem_nil, fun _ => hm⟩
    · intro hx
      obtain ⟨hrec, hadv⟩ := hx
      cases ha : v.advanced with
      | true => exact hadv ha
      | false =>
        obtain ⟨row', hset, -, hlt⟩ := hs.versions v (List.mem_of_getElem? held) ha
        rw [before] at hset
        cases hset
        by_contra hne
        obtain ⟨change, hc⟩ := List.exists_mem_of_ne_nil _ hne
        have := hlt ⟨change, hc, hrec change hc⟩
        omega

theorem recoverTransaction_settings {db db' : Db} {candidates : List (Str × Str)}
    {nonces : Stream' Bytes} (h : recoverTransaction P db candidates nonces = .ok db') :
    ∃ row, db.settings = some row ∧ db'.settings = some row := by
  unfold recoverTransaction at h
  split at h
  · cases h
  rename_i row hset
  obtain ⟨users, -, h⟩ := bind_eq_ok.1 h
  cases h
  exact ⟨row, hset, hset⟩

theorem initializing_commits (h : q.initializing P disk e = some o) (hc : o.commit = some commit) :
    Commits P q disk o commit := by
  unfold Process.initializing at h
  split at h
  · cases h; cases hc
  · cases h; cases hc
  · rename_i op candidates hq
    split at h
    · cases h; cases hc
    rename_i db hdb
    cases h
    obtain ⟨row, hset, hset'⟩ := recoverTransaction_settings hdb
    simp only at hc
    split at hc
    · cases hc
    · cases hc
      exact .recovered hq hset hset'
  · cases h; cases hc
  · split at h
    · cases h; cases hc
    split at h <;> cases h <;> cases hc
  · rename_i op config missed hq
    split at h
    · cases h; cases hc
    rename_i written hw
    cases h
    cases hc
    obtain ⟨hv, hh⟩ := saveNew_holds hw
    exact .created (.inl ⟨op, config, hq⟩) hv hh
  · split at h <;> cases h <;> cases hc
  · cases h

theorem reading_commits (h : q.reading P disk e = some o) : o.commit = none := by
  unfold Process.reading at h
  split at h
  · split at h <;> cases h <;> rfl
  · cases h; rfl
  · cases h; rfl
  · split at h
    · cases h; rfl
    split at h <;> cases h <;> rfl
  · cases h

theorem writing_commits (h : q.writing P disk e = some o) (hc : o.commit = some commit) :
    Commits P q disk o commit := by
  unfold Process.writing at h
  split at h
  · rename_i version config hq
    obtain ⟨v, hv, h⟩ := Option.bind_eq_some_iff.1 h
    split at h
    · cases h; cases hc
    rename_i normalized hn
    split at h
    · rename_i written hw
      cases h
      cases hc
      obtain ⟨⟨row, hset, hrev⟩, hcfg, hdb⟩ := saveTransaction_ok_iff.1 hw
      have hvalid : Valid P written.2 := by
        rw [hcfg]; exact (normalize_valid P hn).1.withRevision _
      refine .saved hq hv hset (hrev.trans (congrArg (·.revision) (normalize_valid P hn).2)) hvalid
        (writeSnapshot_holds hdb (newIn_empty.1 hvalid.distinct.ids)
          (newIn_empty.1 hvalid.distinct.tunnels.ids)) ?_
      rw [hcfg, hrev]
    · split at h <;> cases h <;> cases hc
  · rename_i config missed hq
    split at h
    · cases h; cases hc
    rename_i normalized hn
    split at h
    · rename_i written hw
      cases h
      cases hc
      have hnew : saveNew P disk.db config e =
          .ok (written.1, written.2, { e with uuids := normalized.2 }) := by
        rw [saveNew, hn]
        show createTransaction disk.db normalized.1 >>= _ = _
        rw [hw]
        rfl
      obtain ⟨hvalid, hh⟩ := saveNew_holds hnew
      exact .created (.inr ⟨config, hq⟩) hvalid hh
    · cases h; cases hc
  · cases h

theorem Process.step_commits {a : Act} (h : q.step P disk a = some o) (hc : o.commit = some commit) :
    Commits P q disk o commit := by
  cases a with
  | begin op =>
    simp only [Process.step] at h
    split at h
    · split at h
      · cases h; cases hc
      · cases h
    · cases h
  | create config =>
    simp only [Process.step] at h
    split at h <;> cases h
    cases hc
  | next e =>
    simp only [Process.step] at h
    split at h
    · cases h; cases hc
    · rcases Option.or_eq_some_iff.1 h with h | ⟨-, h⟩
      · exact initializing_commits h hc
      rcases Option.or_eq_some_iff.1 h with h | ⟨-, h⟩
      · rw [reading_commits h] at hc; cases hc
      · exact writing_commits h hc
  | stop => cases h; cases hc

/-! ## What a step leaves known -/

/-- What a step of a process that knows the database leaves. -/
def Leaves (q : Process) (disk : Disk) (o : Outcome) : Prop :=
  q.Sound disk.db.settings → (∀ commit, o.commit = some commit →
    Advances commit.kind disk.db.settings o.disk.db.settings) →
      Moves o.commit disk.db.settings o.disk.db.settings ∧ o.process.Sound o.disk.db.settings

theorem leaves_quiet {disk' : Disk} {q' : Process} (hset : disk'.db.settings = disk.db.settings)
    (h : q.Sound disk.db.settings → q'.Sound disk.db.settings) :
    Leaves q disk (.quiet disk' q') := by
  intro hs _
  exact ⟨hset, by rw [show (Outcome.quiet disk' q').disk = disk' from rfl, hset]; exact h hs⟩

theorem leaves_commit {disk' : Disk} {q' : Process} {commit : Commit}
    (h : q.Sound disk.db.settings → Moves (some commit) disk.db.settings disk'.db.settings →
      q'.Sound disk'.db.settings) : Leaves q disk ⟨disk', q', some commit⟩ :=
  fun hs hm => ⟨hm commit rfl, h hs (hm commit rfl)⟩

theorem initializing_leaves (h : q.initializing P disk e = some o) : Leaves q disk o := by
  unfold Process.initializing at h
  split at h
  · rename_i op hq
    cases h
    refine leaves_quiet rfl fun hs => hs.to (m := none) rfl ?_ ?_ <;> split
    exacts [trivial, trivial, fun _ ho => by rw [hq]; exact ho, fun _ ho => by rw [hq]; exact ho]
  · rename_i op hq
    cases h
    refine leaves_quiet rfl fun hs => hs.to (m := none) rfl ?_ ?_ <;> split
    exacts [trivial, trivial, fun _ ho => by rw [hq]; exact ho, fun _ ho => by rw [hq]; exact ho]
  · rename_i op candidates hq
    split at h
    · cases h; exact leaves_quiet rfl Process.Sound.idle
    rename_i db hdb
    cases h
    split
    · rename_i hsame
      refine leaves_quiet (congrArg (·.settings) hsame) fun hs => ?_
      exact hs.to (m := none) rfl trivial fun _ ho => by rw [hq]; exact ho
    · exact leaves_commit fun hs hm => hs.to hm trivial fun _ ho => by rw [hq]; exact ho
  · rename_i op missed hq
    cases h
    refine leaves_quiet rfl fun hs => hs.to (m := none) rfl ?_ ?_ <;> split
    · have hp := hs.phase
      rw [hq] at hp
      exact hp
    exacts [trivial, fun _ ho => by rw [hq]; exact ho, fun _ ho => by rw [hq]; exact ho]
  · rename_i op missed hq
    split at h
    · cases h; exact leaves_quiet rfl Process.Sound.idle
    split at h
    · cases h; exact leaves_quiet rfl Process.Sound.idle
    cases h
    refine leaves_quiet rfl fun hs => hs.to (m := none) rfl ?_ fun _ ho => by rw [hq]; exact ho
    have hp := hs.phase
    rw [hq] at hp
    exact hp
  · rename_i op config missed hq
    split at h
    · cases h; exact leaves_quiet rfl Process.Sound.idle
    cases h
    exact leaves_commit fun hs hm => hs.to hm trivial fun _ ho => by rw [hq]; exact ho
  · rename_i op name hq
    split at h
    · cases h; exact leaves_quiet rfl Process.Sound.idle
    cases h
    exact leaves_quiet rfl fun hs => hs.to (m := none) rfl trivial fun _ ho => by rw [hq]; exact ho
  · cases h

theorem reading_leaves (h : q.reading P disk e = some o) : Leaves q disk o := by
  unfold Process.reading at h
  split at h
  · split at h
    · cases h; exact leaves_quiet rfl Process.Sound.idle
    rename_i row hset
    cases h
    refine leaves_quiet rfl fun hs => hs.to (m := none) rfl ?_ fun _ ho => by cases ho
    rw [hset]
    exact known_self row
  · rename_i row missed hq
    cases h
    refine leaves_quiet rfl fun hs => hs.to (m := none) rfl ?_ fun _ ho => by cases ho
    have hp := hs.phase
    rw [hq] at hp
    exact Known.mono hp fun change hc => List.mem_of_mem_filter hc
  · rename_i row users missed hq
    cases h
    refine leaves_quiet rfl fun hs => hs.to (m := none) rfl ?_ fun _ ho => by cases ho
    have hp := hs.phase
    rw [hq] at hp
    exact hp
  · rename_i row users tunnels missed hq
    split at h
    · cases h; exact leaves_quiet rfl Process.Sound.idle
    rename_i config hl
    split at h
    · cases h; exact leaves_quiet rfl Process.Sound.idle
    rename_i normalized hn
    cases h
    refine leaves_quiet rfl fun hs => hs.keep (m := none) rfl fun _ => ?_
    have hp := hs.phase
    rw [hq] at hp
    cases hl
    rw [show normalized.1.revision = row.revision from
      congrArg (·.revision) (normalize_valid P hn).2]
    exact hp
  · cases h

theorem writing_leaves (h : q.writing P disk e = some o) : Leaves q disk o := by
  unfold Process.writing at h
  split at h
  · obtain ⟨v, -, h⟩ := Option.bind_eq_some_iff.1 h
    split at h
    · cases h; exact leaves_quiet rfl Process.Sound.idle
    split at h
    · rename_i written hw
      cases h
      refine leaves_commit fun hs hm => hs.keep hm fun _ => ?_
      rw [writeSnapshot_settings (saveTransaction_ok_iff.1 hw).2.2]
      exact known_self (SettingsRow.of written.2)
    · split at h
      · cases h; exact leaves_quiet rfl Process.Sound.idle
      · cases h
        exact leaves_quiet rfl fun hs => hs.keep (m := none) rfl fun ha => by cases ha
  · split at h
    · cases h; exact leaves_quiet rfl Process.Sound.idle
    split at h
    · rename_i written hw
      cases h
      refine leaves_commit fun hs hm => hs.keep hm fun _ => ?_
      obtain ⟨db, hdb, hw⟩ := bind_eq_ok.1 hw
      cases hw
      rw [writeSnapshot_settings hdb]
      exact known_self (SettingsRow.of _)
    · cases h
      exact leaves_quiet rfl fun hs => hs.keep (m := none) rfl fun ha => by cases ha
  · cases h

theorem isInitialized_eq_false (h : ¬ isInitialized disk = true) : disk.db.settings = none := by
  rwa [isInitialized, Bool.not_eq_true, Option.isSome_eq_false_iff, Option.isNone_iff_eq_none] at h

theorem Process.step_leaves {a : Act} (h : q.step P disk a = some o) : Leaves q disk o := by
  cases a with
  | begin op =>
    simp only [Process.step] at h
    split at h
    · split at h
      · rename_i hmay
        cases h
        refine leaves_quiet rfl fun hs => ⟨hs.versions, ?_, fun op' ho => ?_⟩
        · show Phase.Sound _ (if isInitialized disk then _ else _)
          split
          · trivial
          · rename_i hnot
            rw [isInitialized_eq_false hnot]
            exact unseen_none
        · have : op = op' := by
            simp only [Process.to] at ho
            split at ho <;> exact Option.some.inj ho
          subst this
          exact hmay
      · cases h
    · cases h
  | create config =>
    simp only [Process.step] at h
    split at h
    · cases h
      refine leaves_quiet rfl fun hs => hs.to (m := none) rfl ?_ fun op ho => ?_
      · split
        · trivial
        · rename_i hnot
          rw [isInitialized_eq_false hnot]
          exact unseen_none
      · split at ho <;> cases ho
    · cases h
  | next e =>
    simp only [Process.step] at h
    split at h
    · cases h; exact leaves_quiet rfl Process.Sound.idle
    · rcases Option.or_eq_some_iff.1 h with h | ⟨-, h⟩
      · exact initializing_leaves h
      rcases Option.or_eq_some_iff.1 h with h | ⟨-, h⟩
      · exact reading_leaves h
      · exact writing_leaves h
  | stop =>
    cases h
    exact leaves_quiet rfl Process.Sound.idle

end

/-! ## Every run -/

def System.Sound (s : System) : Prop := ∀ p, (s.processes p).Sound s.disk.db.settings

theorem System.settle_sound {s : System} {p : Pid} {o : Outcome} (h : s.Sound)
    (hm : Moves o.commit s.disk.db.settings o.disk.db.settings)
    (ho : o.process.Sound o.disk.db.settings) : (s.settle p o).Sound := by
  intro i
  show Process.Sound o.disk.db.settings (if i = p then _ else _)
  split
  · exact ho
  · split
    · rename_i hc
      rw [hc] at hm
      rw [show o.disk.db.settings = s.disk.db.settings from hm]
      exact h i
    · rename_i commit hc
      rw [hc] at hm
      exact (h i).miss hm p

section
variable {P : Primitives}

theorem processes_inductive :
    ((processes P).restrict fun s l => Bounded s ∧ Orderly P s l).Inductive System.Sound where
  init s h := by
    obtain ⟨disk, rfl⟩ := h
    exact fun _ => ⟨fun v hv => absurd hv List.not_mem_nil, trivial, fun op ho => by cases ho⟩
  step s l t h hst := by
    obtain ⟨hst, hb, ho⟩ := hst
    obtain ⟨o, hout, rfl⟩ := Option.map_eq_some_iff.1 hst
    obtain ⟨hm, hs⟩ := Process.step_leaves hout (h l.1) fun commit hc =>
      (Process.step_commits hout hc).moves hb (ho o hout (by rw [hc]; simp))
    exact System.settle_sound h hm hs

/-- **No update is lost** in an orderly run, and the next step of one overwrites nothing
exactly when it is orderly. -/
theorem lossless_iff {s : System}
    (h : ((processes P).restrict fun s l => Bounded s ∧ Orderly P s l).Reachable s)
    (l : Pid × Act) : Lossless P s l ↔ Orderly P s l := by
  have hs := processes_inductive.reachable s h
  refine ⟨?_, ?_⟩
  · intro hl o ho hc
    obtain ⟨commit, hcommit⟩ := Option.ne_none_iff_exists'.1 hc
    exact ((Process.step_commits ho hcommit).overwrites_iff (hs l.1)).1 (hl o ho commit hcommit)
  · intro hg o ho commit hcommit
    exact ((Process.step_commits ho hcommit).overwrites_iff (hs l.1)).2
      (hg o ho (by rw [hcommit]; simp))

end

/-! ## Two setups at once -/

instance (v : Version) : Decidable v.Current := by unfold Version.Current; infer_instance

instance (q : Process) (db : Db) : Decidable (q.Unchecked db) := by
  unfold Process.Unchecked
  cases q.phase with
  | ready op => cases op <;> infer_instance
  | _ => infer_instance

instance (P : Primitives) (s : System) (l : Pid × Act) : Decidable (Orderly P s l) := by
  unfold Orderly
  cases s.outcome P l with
  | none => exact isTrue fun o ho => by cases ho
  | some o =>
    exact decidable_of_iff (o.commit ≠ none → (s.processes l.1).Unchecked s.disk.db)
      ⟨fun h o' ho => by cases ho; exact h, fun h => h o rfl⟩

instance (s : System) : Decidable (Bounded s) := by unfold Bounded; infer_instance

/-- Process 0 finds no settings, then process 1 does, and process 0 writes. -/
def twoSetups : List (Pid × Act) :=
  [(0, .create (sampleConfig [])), (1, .create (sampleConfig [])), (0, .next Entropy.constant)]

theorem oneSetup_lossless : ∃ s o, s.outcome .plain (0, .next Entropy.constant) = some o ∧
    o.commit = some ⟨.created, []⟩ ∧ Lossless .plain s (0, .next Entropy.constant) := by
  have hexec : ((LTS.exec (fun s l => if Bounded s ∧ Orderly .plain s l then System.step .plain s l
      else none) (.fresh ⟨Db.empty, none, []⟩) (twoSetups.take 2)).bind fun s =>
        (s.outcome .plain (0, .next Entropy.constant)).map fun o =>
          (o.commit, decide (Orderly .plain s (0, .next Entropy.constant)))) =
      some (some ⟨.created, []⟩, true) := by decide +kernel
  obtain ⟨s, hs, hout⟩ := Option.bind_eq_some_iff.1 hexec
  obtain ⟨o, ho, hc⟩ := Option.map_eq_some_iff.1 hout
  simp only [Prod.mk.injEq, decide_eq_true_eq] at hc
  exact ⟨s, o, ho, hc.1, (lossless_iff ⟨_, _, ⟨_, rfl⟩, LTS.restrict_run_of_exec hs⟩ _).2 hc.2⟩

/-- Process 1 then resets the revision and overwrites what process 0 created. -/
theorem twoSetups_lossy : ∃ s, ((processes .plain).restrict fun s _ => Bounded s).Reachable s ∧
    Bounded s ∧ ¬ Lossless .plain s (1, .next Entropy.constant) := by
  have hexec : ((LTS.exec (fun s l => if Bounded s then System.step .plain s l else none)
      (.fresh ⟨Db.empty, none, []⟩) twoSetups).bind fun s =>
        (s.outcome .plain (1, .next Entropy.constant)).map fun o => (o.commit, decide (Bounded s))) =
      some (some ⟨.created, [⟨0, .created⟩]⟩, true) := by decide +kernel
  obtain ⟨s, hs, hout⟩ := Option.bind_eq_some_iff.1 hexec
  obtain ⟨o, ho, hc⟩ := Option.map_eq_some_iff.1 hout
  simp only [Prod.mk.injEq, decide_eq_true_eq] at hc
  refine ⟨s, ⟨_, _, ⟨_, rfl⟩, LTS.restrict_run_of_exec hs⟩, hc.2, fun hl => ?_⟩
  have := hl o ho _ hc.1
  cases this

/-! ## A process that is alone -/

/-- One process on the data directory. -/
def alone (P : Primitives) : LTS (Disk × Process) Act :=
  .ofFn (fun _ => True) fun s a => (s.2.step P s.1 a).map fun o => (o.disk, o.process)

section
variable {P : Primitives} {disk disk' : Disk} {q : Process} {e e' : Entropy}

theorem alone_cons {a : Act} {acts : List Act} {r : Disk × Process} (disk₁ : Disk) (q₁ : Process)
    (h : (q.step P disk a).map (fun o => (o.disk, o.process)) = some (disk₁, q₁))
    (hr : (alone P).Run (disk₁, q₁) acts r) : (alone P).Run (disk, q) (a :: acts) r :=
  .cons h hr

theorem recover_alone (q : Process) (op : Op) {db : Db}
    (h : recoverPasswordsFromLegacyBackups P disk.db disk.backups e.nonces = .ok db) :
    ∃ acts, (alone P).Run (disk, q.to (.found op)) acts ({ disk with db := db }, q.to (.ready op)) := by
  unfold recoverPasswordsFromLegacyBackups at h
  split at h
  · rename_i hall
    cases h
    refine ⟨[.next e], alone_cons disk (q.to (.ready op)) ?_ (.nil _)⟩
    simp only [Process.step, Process.initializing, Process.to, hall, if_true]
    rfl
  rename_i hall
  rw [Bool.not_eq_true] at hall
  have hcounted : ((q.to (.found op)).step P disk (.next e)).map (fun o => (o.disk, o.process)) =
      some (disk, q.to (.counted op)) := by
    simp only [Process.step, Process.initializing, Process.to, hall, Bool.false_eq_true, if_false]
    rfl
  split at h
  · rename_i hnil
    cases h
    refine ⟨[.next e, .next e], alone_cons _ _ hcounted (alone_cons disk (q.to (.ready op)) ?_ (.nil _))⟩
    simp only [Process.step, Process.initializing, Process.to, hnil, if_true]
    rfl
  · rename_i hne
    refine ⟨[.next e, .next e, .next e], alone_cons _ _ hcounted (alone_cons
      disk (q.to (.recovering op (passwordCandidates disk.backups))) ?_ (alone_cons _ _ ?_ (.nil _)))⟩
    · simp only [Process.step, Process.initializing, Process.to, hne, if_false]
      rfl
    · simp only [Process.step, Process.initializing, Process.to, h]
      rfl

theorem initializeStore_alone {op : Op} (h : initializeStore P disk e = .ok (disk', e'))
    (hq : q.phase = .idle) (hmay : q.may op = true) :
    ∃ acts, (alone P).Run (disk, q) acts (disk', q.to (.ready op)) := by
  unfold initializeStore at h
  split at h
  · rename_i hsome
    obtain ⟨db, hdb, h⟩ := bind_eq_ok.1 h
    cases h
    obtain ⟨acts, hrun⟩ := recover_alone q op hdb
    refine ⟨.begin op :: acts, alone_cons disk (q.to (.found op)) ?_ hrun⟩
    simp only [Process.step, hq, hmay, if_true, isInitialized, hsome]
    rfl
  · rename_i hnone
    have habsent : (q.step P disk (.begin op)).map (fun o => (o.disk, o.process)) =
        some (disk, q.to (.absent op [])) := by
      simp only [Process.step, hq, hmay, if_true, isInitialized, hnone, Bool.false_eq_true, if_false]
      rfl
    split at h
    · rename_i hlegacy
      cases h
      refine ⟨[.begin op, .next e], alone_cons _ _ habsent (alone_cons disk (q.to (.ready op)) ?_ (.nil _))⟩
      simp only [Process.step, Process.initializing, Process.to, hlegacy]
      rfl
    · rename_i file hlegacy
      obtain ⟨migrated, hmig, h⟩ := bind_eq_ok.1 h
      obtain ⟨written, hw, h⟩ := bind_eq_ok.1 h
      cases h
      refine ⟨[.begin op, .next e, .next e, .next migrated.2, .next e], alone_cons _ _ habsent
        (alone_cons disk (q.to (.legacy op [])) ?_ (alone_cons disk
          (q.to (.migrating op migrated.1 [])) ?_ (alone_cons { disk with db := written.1 }
            (q.to (.renaming op (backupName written.2.1.updatedAt))) ?_
            (alone_cons _ _ ?_ (.nil _)))))⟩
      · simp only [Process.step, Process.initializing, Process.to, hlegacy]
        rfl
      · simp only [Process.step, Process.initializing, Process.to, hlegacy, hmig]
        rfl
      · simp only [Process.step, Process.initializing, Process.to, hw]
        rfl
      · simp only [Process.step, Process.initializing, Process.to, hlegacy]
        rfl

/-- **Undisturbed**, the transactions of `read` come to `Storage.read`. -/
theorem read_alone {c : ServerConfig} (h : read P disk e = (disk', .ok (c, e')))
    (hq : q.phase = .idle) :
    ∃ acts, (alone P).Run (disk, q) acts (disk', q.keep ⟨c, [], false⟩) := by
  unfold read at h
  split at h
  · cases h
  rename_i disk₁ e₁ hi
  simp only [Prod.mk.injEq] at h
  obtain ⟨rfl, h⟩ := h
  obtain ⟨loaded, hl, h⟩ := bind_eq_ok.1 h
  obtain ⟨normalized, hn, h⟩ := bind_eq_ok.1 h
  cases h
  obtain ⟨acts, hrun⟩ := initializeStore_alone hi hq (show q.may .read = true from rfl)
  cases hset : disk₁.db.settings with
  | none => unfold loadConfig at hl; rw [hset] at hl; cases hl
  | some row =>
    have hl' : loadConfig ⟨some row, disk₁.db.users, disk₁.db.tunnels, disk₁.db.traffic⟩ =
        .ok loaded := by rw [← hset]; exact hl
    refine ⟨acts ++ [.next e₁, .next e₁, .next e₁, .next e₁], hrun.append (alone_cons disk₁
      (q.to (.selectedSettings row [])) ?_ (alone_cons disk₁
        (q.to (.selectedUsers row disk₁.db.users [])) ?_ (alone_cons disk₁
          (q.to (.selectedTunnels row disk₁.db.users disk₁.db.tunnels [])) ?_
          (alone_cons _ _ ?_ (.nil _)))))⟩
    · simp only [Process.step, Process.initializing, Process.reading, Process.to, hset]
      rfl
    · rfl
    · rfl
    · simp only [Process.step, Process.initializing, Process.reading, Process.to, hl', hn]
      rfl

theorem save_alone {c c' : ServerConfig} {i : Nat} {v : Version}
    (h : save P disk c e = (disk', .ok (c', e'))) (hq : q.phase = .idle)
    (hv : q.versions[i]? = some v) (hrev : v.config.revision = c.revision) :
    ∃ acts, (alone P).Run (disk, q) acts (disk', q.keep ⟨c', [], false⟩) := by
  obtain ⟨disk₁, e₁, hi, c₁, uuids, hn, db, ht, rfl, -⟩ := save_ok_iff.1 h
  obtain ⟨acts, hrun⟩ := initializeStore_alone hi hq (show q.may (.save i c) = true by
    simp only [Process.may, hv, Option.any_some, hrev, decide_true])
  refine ⟨acts ++ [.next e₁], hrun.append (alone_cons _ _ ?_ (.nil _))⟩
  simp only [Process.step, Process.initializing, Process.reading, Process.writing, Process.to, hv,
    Option.bind_some, hn, ht]
  rfl

theorem create_alone {c c' : ServerConfig} (h : create P disk c e = (disk', .ok (c', e')))
    (hq : q.phase = .idle) :
    ∃ acts, (alone P).Run (disk, q) acts (disk', q.keep ⟨c', [], false⟩) := by
  unfold create at h
  split at h
  · cases h
  rename_i hinit
  split at h
  · cases h
  rename_i db c₁ e₁ hnew
  cases h
  obtain ⟨normalized, hn, hw⟩ := bind_eq_ok.1 hnew
  obtain ⟨written, ht, hw⟩ := bind_eq_ok.1 hw
  cases hw
  refine ⟨[.create c, .next e], alone_cons disk (q.to (.creating c [])) ?_
    (alone_cons _ _ ?_ (.nil _))⟩
  · simp only [Process.step, hq, hinit]
    rfl
  · simp only [Process.step, Process.initializing, Process.reading, Process.writing, Process.to, hn, ht]
    rfl

end

end OrangeFrp.Storage
