import OrangeFrp.Core.Columns
import OrangeFrp.Core.Except
import OrangeFrp.Core.LTS
import OrangeFrp.Storage.Database

/-!
# Making and upgrading the tables (`frp-game-server/src/storage.rs`)

Every `initialize` runs `create_schema`: statements that SQLite commits one by one, with a look at
the columns of `users` before each `ALTER TABLE`. Any number of processes may be at it on one
database, new or of an older version, and each may be killed between two statements; others change
rows meanwhile. Of a column only its name is modelled, and of a table what it has in its rows; the
constraints are those of `OrangeFrp.Storage.Database`.

* `createSchema_ok`: the function on a database of any older version.
* `alone_ends`: a process that is left alone does what the function does.
* `schema_upgrades`: every run.
-/
namespace OrangeFrp.Storage

open OrangeFrp.Core

/-! ## The catalog -/

inductive TableName where
  | settings
  | users
  | tunnels
  | trafficRecords
  deriving DecidableEq

inductive Column where
  | id | revision | apiSalt | apiBind | apiPort | frpsBindPort | frpsToken | frpsBinary | pluginPort | publicBind
  | createdAt | updatedAt | account | passwordHash | passwordEncrypted | secret | tunnelLimit | trafficLimitBytes
  | trafficUsedBytes | speedLimitMbps | userId | proxyName | protocol | name | remark | localIp | localPort
  | publicPort | backendPort | trafficInBytes | trafficOutBytes | active
  deriving DecidableEq

inductive IndexName where
  | tunnelsUser
  | trafficUser
  deriving DecidableEq

inductive Cell where
  | int (n : Int)
  | text (s : Str)
  deriving DecidableEq

structure Catalog where
  tables : TableName → Option (Columns Column Cell)
  indexes : List IndexName
  userVersion : Nat

inductive Statement where
  | createTable (name : TableName) (columns : List Column)
  | createIndex (name : IndexName) (table : TableName) (column : Column)
  | addColumn (table : TableName) (column : Column) (default : Cell)
  | userVersion (n : Nat)

/-- `IF NOT EXISTS` stands with `CREATE`, and not with `ADD COLUMN`. -/
def Statement.run (k : Catalog) : Statement → Except String Catalog
  | .createTable name columns =>
    if (k.tables name).isSome then .ok k
    else if h : columns.Nodup then
      .ok { k with tables := Function.update k.tables name (some (.empty columns h)) }
    else .error "duplicate column name"
  | .createIndex name table column =>
    if name ∈ k.indexes then .ok k
    else
      match k.tables table with
      | none => .error "no such table"
      | some t =>
        if column ∈ t.names then .ok { k with indexes := name :: k.indexes } else .error "no such column"
  | .addColumn table column default =>
    match k.tables table with
    | none => .error "no such table"
    | some t =>
      if h : column ∈ t.names then .error "duplicate column name"
      else .ok { k with tables := Function.update k.tables table (some (t.add column default h)) }
  | .userVersion n => .ok { k with userVersion := n }

/-! ## The function -/

def SCHEMA_VERSION : Nat := 3

/-- mirrors crates/frp-game-server/src/storage.rs:393-441 -/
def columnsOf : TableName → List Column
  | .settings => [.id, .revision, .apiSalt, .apiBind, .apiPort, .frpsBindPort, .frpsToken, .frpsBinary, .pluginPort,
      .publicBind, .createdAt, .updatedAt]
  | .users => [.id, .account, .passwordHash, .passwordEncrypted, .secret, .tunnelLimit, .trafficLimitBytes,
      .trafficUsedBytes, .speedLimitMbps, .createdAt, .updatedAt]
  | .tunnels => [.id, .userId, .proxyName, .protocol, .name, .remark, .localIp, .localPort, .publicPort, .backendPort]
  | .trafficRecords => [.proxyName, .userId, .protocol, .publicPort, .trafficInBytes, .trafficOutBytes, .active]

/-- mirrors crates/frp-game-server/src/storage.rs:392-444 -/
def schemaBatch : List Statement := [
  .createTable .settings (columnsOf .settings),
  .createTable .users (columnsOf .users),
  .createTable .tunnels (columnsOf .tunnels),
  .createTable .trafficRecords (columnsOf .trafficRecords),
  .createIndex .tunnelsUser .tunnels .userId,
  .createIndex .trafficUser .trafficRecords .userId]

/-- The columns that `users` has got, with their defaults.
mirrors crates/frp-game-server/src/storage.rs:445-456 -/
def laterColumns : List (Column × Cell) := [(.passwordEncrypted, .text []), (.tunnelLimit, .int 256)]

/-- mirrors crates/frp-game-server/src/storage.rs:465-474 -/
def usersHasColumn (k : Catalog) (expected : Column) : Bool :=
  match k.tables .users with
  | none => false
  | some t => expected ∈ t.names

def executeBatch : List Statement → Catalog → Except String Catalog
  | [], k => .ok k
  | st :: rest, k => do
    let k ← st.run k
    executeBatch rest k

def addMissing : List (Column × Cell) → Catalog → Except String Catalog
  | [], k => .ok k
  | c :: rest, k => do
    let k ← if usersHasColumn k c.1 then .ok k else (Statement.addColumn .users c.1 c.2).run k
    addMissing rest k

/-- mirrors crates/frp-game-server/src/storage.rs:391-459 -/
def createSchema (k : Catalog) : Except String Catalog := do
  let k ← executeBatch schemaBatch k
  let k ← addMissing laterColumns k
  (Statement.userVersion SCHEMA_VERSION).run k

/-! ## The processes -/

/-- Where a process is: at a statement of the batch, at a look for a column, at the `ALTER TABLE`
that follows when it is not there, or at the last statement. -/
inductive SchemaPhase where
  | batch (rest : List Statement)
  | looking (rest : List (Column × Cell))
  | altering (column : Column × Cell) (rest : List (Column × Cell))
  | done
  | failed

def SchemaPhase.step (k : Catalog) : SchemaPhase → Option (Catalog × SchemaPhase)
  | .batch [] => some (k, .looking laterColumns)
  | .batch (st :: rest) =>
    match st.run k with
    | .ok k' => some (k', .batch rest)
    | .error _ => some (k, .failed)
  | .looking [] =>
    match (Statement.userVersion SCHEMA_VERSION).run k with
    | .ok k' => some (k', .done)
    | .error _ => some (k, .failed)
  | .looking (c :: rest) => some (k, if usersHasColumn k c.1 then .looking rest else .altering c rest)
  | .altering c rest =>
    match (Statement.addColumn .users c.1 c.2).run k with
    | .ok k' => some (k', .looking rest)
    | .error _ => some (k, .failed)
  | .done => none
  | .failed => none

structure Upgrading where
  catalog : Catalog
  processes : Nat → Option SchemaPhase

/-- `busy` is a statement that fails for a lock; `work` is what a transaction of another process
does to a table. -/
inductive UpgradeAct where
  | start (pid : Nat)
  | step (pid : Nat)
  | busy (pid : Nat)
  | kill (pid : Nat)
  | work (table : TableName) (rows : List (List Cell))

def Upgrading.put (s : Upgrading) (pid : Nat) (p : Option SchemaPhase) : Upgrading :=
  { s with processes := Function.update s.processes pid p }

def Upgrading.step (s : Upgrading) : UpgradeAct → Option Upgrading
  | .start pid => if (s.processes pid).isSome then none else some (s.put pid (some (.batch schemaBatch)))
  | .step pid => do
    let p ← s.processes pid
    let (catalog, p) ← p.step s.catalog
    some ({ s with catalog := catalog }.put pid (some p))
  | .busy pid => if (s.processes pid).isSome then some (s.put pid (some .failed)) else none
  | .kill pid => if (s.processes pid).isSome then some (s.put pid none) else none
  | .work table rows => do
    let t ← s.catalog.tables table
    if h : ∀ row ∈ rows, row.length = t.names.length then
      let tables := Function.update s.catalog.tables table (some (t.put rows h))
      some { s with catalog := { s.catalog with tables := tables } }
    else none

/-- A database of any version: new, or with tables in which `users` may have none of the columns it
has got. -/
def Catalog.Older (k : Catalog) : Prop :=
  ∀ n t, k.tables n = some t → ∀ c ∈ columnsOf n, c ∈ t.names ∨ n = .users ∧ c ∈ laterColumns.map Prod.fst

def upgrading : LTS Upgrading UpgradeAct :=
  .ofFn (fun s => s.catalog.Older ∧ ∀ pid, s.processes pid = none) Upgrading.step

/-! ## What a statement does -/

/-- No column is lost, and the version is the one there was, or ours. -/
structure Catalog.Keeps (k k' : Catalog) : Prop where
  tables : ∀ n t, k.tables n = some t → ∃ t', k'.tables n = some t' ∧ t.names ⊆ t'.names
  indexes : k.indexes ⊆ k'.indexes
  version : k'.userVersion = k.userVersion ∨ k'.userVersion = SCHEMA_VERSION

/-- Nothing but `users` has got columns, with their defaults. -/
structure Catalog.Grown (k k' : Catalog) : Prop where
  tables : ∀ n t, k.tables n = some t → ∃ more t', k'.tables n = some t' ∧ t.GrownBy more t' ∧
    more ⊆ laterColumns ∧ (n = .users ∨ more = [])
  indexes : k.indexes ⊆ k'.indexes
  version : k'.userVersion = k.userVersion ∨ k'.userVersion = SCHEMA_VERSION

/-- Every row is where it was and has what it had; what a later column has in it is its default. -/
def Catalog.SameCells (k k' : Catalog) : Prop :=
  ∀ n t, k.tables n = some t → ∃ t', k'.tables n = some t' ∧ t'.rows.length = t.rows.length ∧
    ∀ (i : Nat) (row : List Cell), t.rows[i]? = some row → ∃ row', t'.rows[i]? = some row' ∧
      (∀ col ∈ t.names, t'.cell row' col = t.cell row col) ∧
      ∀ col ∈ t'.names, col ∉ t.names → ∃ c ∈ laterColumns, c.1 = col ∧ t'.cell row' col = some c.2

/-- The statements of `create_schema`. -/
def Statement.Ours : Statement → Prop
  | .createTable name columns => columns = columnsOf name
  | .createIndex .. => True
  | .addColumn table column default => table = .users ∧ (column, default) ∈ laterColumns
  | .userVersion n => n = SCHEMA_VERSION

def Statement.Done (k : Catalog) : Statement → Prop
  | .createTable name _ => (k.tables name).isSome = true
  | .createIndex name _ _ => name ∈ k.indexes
  | .addColumn _ column _ => usersHasColumn k column = true
  | .userVersion n => k.userVersion = n

section
variable {k k' k'' : Catalog} {st : Statement} {column : Column}

theorem Catalog.Keeps.refl (k : Catalog) : k.Keeps k :=
  ⟨fun _ t ht => ⟨t, ht, List.Subset.refl _⟩, List.Subset.refl _, .inl rfl⟩

theorem Catalog.Keeps.trans (h : k.Keeps k') (h' : k'.Keeps k'') : k.Keeps k'' := by
  refine ⟨fun n t ht => ?_, List.Subset.trans h.indexes h'.indexes, ?_⟩
  · obtain ⟨t', ht', hsub⟩ := h.tables n t ht
    obtain ⟨t'', ht'', hsub'⟩ := h'.tables n t' ht'
    exact ⟨t'', ht'', List.Subset.trans hsub hsub'⟩
  · rcases h'.version with hv | hv
    · rw [hv]
      exact h.version
    · exact .inr hv

theorem Catalog.Grown.refl (k : Catalog) : k.Grown k :=
  ⟨fun _ t ht => ⟨[], t, ht, .refl t, List.nil_subset _, .inr rfl⟩, List.Subset.refl _, .inl rfl⟩

theorem Catalog.Grown.trans (h : k.Grown k') (h' : k'.Grown k'') : k.Grown k'' := by
  refine ⟨fun n t ht => ?_, List.Subset.trans h.indexes h'.indexes, ?_⟩
  · obtain ⟨more, t', ht', hgrown, hours, hwhich⟩ := h.tables n t ht
    obtain ⟨again, t'', ht'', hgrown', hours', hwhich'⟩ := h'.tables n t' ht'
    refine ⟨more ++ again, t'', ht'', hgrown.trans hgrown', List.append_subset.2 ⟨hours, hours'⟩, ?_⟩
    rcases hwhich with hn | rfl
    · exact .inl hn
    · exact hwhich'
  · rcases h'.version with hv | hv
    · rw [hv]
      exact h.version
    · exact .inr hv

theorem Catalog.Grown.keeps (h : k.Grown k') : k.Keeps k' := by
  refine ⟨fun n t ht => ?_, h.indexes, h.version⟩
  obtain ⟨more, t', ht', hgrown, -, -⟩ := h.tables n t ht
  refine ⟨t', ht', ?_⟩
  rw [hgrown.1]
  exact List.subset_append_left _ _

theorem Catalog.Grown.cells (h : k.Grown k') : k.SameCells k' := by
  intro n t ht
  obtain ⟨more, t', ht', hgrown, hours, -⟩ := h.tables n t ht
  refine ⟨t', ht', by simp [hgrown.2], fun i row hrow => ⟨row ++ more.map Prod.snd, by simp [hgrown.2, hrow], ?_, ?_⟩⟩
  · intro col hcol
    exact hgrown.cell_old (List.mem_of_getElem? hrow) hcol
  · intro col hcol hold
    rw [hgrown.1, List.mem_append] at hcol
    rcases hcol with hmem | hnew
    · exact absurd hmem hold
    · obtain ⟨c, hc, rfl⟩ := List.mem_map.1 hnew
      exact ⟨c, hours hc, rfl, hgrown.cell_new (List.mem_of_getElem? hrow) hc⟩

theorem usersHasColumn_iff : usersHasColumn k column = true ↔ ∃ t, k.tables .users = some t ∧ column ∈ t.names := by
  unfold usersHasColumn
  split
  · rename_i h
    simp [h]
  · rename_i t h
    simp [h]

theorem Catalog.Keeps.usersHasColumn (h : k.Keeps k') (hc : usersHasColumn k column = true) :
    usersHasColumn k' column = true := by
  obtain ⟨t, ht, hcol⟩ := usersHasColumn_iff.1 hc
  obtain ⟨t', ht', hsub⟩ := h.tables _ t ht
  exact usersHasColumn_iff.2 ⟨t', ht', hsub hcol⟩

theorem Statement.Done.keeps (h : k.Keeps k') (hd : st.Done k) (hours : st.Ours) : st.Done k' := by
  cases st with
  | createTable name columns =>
    obtain ⟨t, ht⟩ := Option.isSome_iff_exists.1 hd
    obtain ⟨t', ht', -⟩ := h.tables name t ht
    exact Option.isSome_iff_exists.2 ⟨t', ht'⟩
  | createIndex name table column => exact h.indexes hd
  | addColumn table column default => exact h.usersHasColumn hd
  | userVersion n =>
    rcases h.version with hv | hv
    · exact hv.trans hd
    · exact hv.trans hours.symm

/-- **A statement that succeeds** loses nothing, and is done. -/
theorem Statement.run_grown (hours : st.Ours) (h : st.run k = .ok k') : k.Grown k' ∧ st.Done k' := by
  cases st with
  | createTable name columns =>
    simp only [Statement.run] at h
    split at h
    · rename_i hsome
      cases h
      exact ⟨.refl k, hsome⟩
    · rename_i hnone
      split at h
      · cases h
        refine ⟨⟨fun n t ht => ⟨[], t, ?_, .refl t, List.nil_subset _, .inr rfl⟩, List.Subset.refl _, .inl rfl⟩, ?_⟩
        · have hne : n ≠ name := by
            rintro rfl
            rw [ht] at hnone
            exact hnone rfl
          exact (Function.update_of_ne hne ..).trans ht
        · simp [Statement.Done]
      · cases h
  | createIndex name table column =>
    simp only [Statement.run] at h
    split at h
    · rename_i hmem
      cases h
      exact ⟨.refl k, hmem⟩
    · split at h
      · cases h
      · split at h
        · cases h
          exact ⟨⟨(Catalog.Grown.refl k).tables, List.subset_cons_self _ _, .inl rfl⟩, List.mem_cons_self⟩
        · cases h
  | addColumn table column default =>
    obtain ⟨rfl, hlater⟩ := hours
    simp only [Statement.run] at h
    split at h
    · cases h
    · rename_i t ht
      split at h
      · cases h
      · rename_i hnew
        cases h
        refine ⟨⟨fun n t' ht' => ?_, List.Subset.refl _, .inl rfl⟩, ?_⟩
        · by_cases hn : n = .users
          · subst hn
            cases ht.symm.trans ht'
            refine ⟨[(column, default)], t.add column default hnew, ?_, Columns.add_grown default hnew, ?_, .inl rfl⟩
            · simp
            · simpa using hlater
          · exact ⟨[], t', (Function.update_of_ne hn ..).trans ht', .refl t', List.nil_subset _, .inr rfl⟩
        · refine usersHasColumn_iff.2 ⟨t.add column default hnew, ?_, ?_⟩
          · simp
          · simp [Columns.add]
  | userVersion n =>
    cases h
    exact ⟨⟨(Catalog.Grown.refl k).tables, List.Subset.refl _, .inr hours⟩, rfl⟩

/-- A database of an older version stays one. -/
theorem Statement.run_older (hk : k.Older) (hours : st.Ours) (h : st.run k = .ok k') : k'.Older := by
  intro n t' ht' c hc
  cases hold : k.tables n with
  | some t =>
    obtain ⟨more, t'', ht'', hgrown, -, -⟩ := (Statement.run_grown hours h).1.tables n t hold
    cases ht''.symm.trans ht'
    rcases hk n t hold c hc with hmem | hlater
    · exact .inl (hgrown.1 ▸ List.mem_append_left _ hmem)
    · exact .inr hlater
  | none =>
    -- a new table has all its columns
    cases st with
    | createTable name columns =>
      obtain rfl := hours
      simp only [Statement.run] at h
      split at h
      · cases h
        cases hold.symm.trans ht'
      · split at h
        · cases h
          by_cases hn : n = name
          · subst hn
            have ht := (Function.update_self ..).symm.trans ht'
            cases ht
            exact .inl hc
          · cases ((Function.update_of_ne hn ..).symm.trans ht').symm.trans hold
        · cases h
    | createIndex name table column =>
      simp only [Statement.run] at h
      split at h
      · cases h
        cases hold.symm.trans ht'
      · split at h
        · cases h
        · split at h
          · cases h
            cases hold.symm.trans ht'
          · cases h
    | addColumn table column default =>
      simp only [Statement.run] at h
      split at h
      · cases h
      · rename_i t ht
        split at h
        · cases h
        · cases h
          have hn : n ≠ table := by
            rintro rfl
            cases hold.symm.trans ht
          cases hold.symm.trans ((Function.update_of_ne hn ..).symm.trans ht')
    | userVersion m =>
      cases h
      cases hold.symm.trans ht'

theorem schemaBatch_ours : ∀ st ∈ schemaBatch, st.Ours := by
  intro st hst
  simp only [schemaBatch, List.mem_cons, List.not_mem_nil, or_false] at hst
  rcases hst with rfl | rfl | rfl | rfl | rfl | rfl
  all_goals simp [Statement.Ours]

/-- A table is made before the index on it. -/
theorem schemaBatch_run {past rest : List Statement} (hk : k.Older) (heq : past ++ st :: rest = schemaBatch)
    (hpast : ∀ st ∈ past, st.Done k) : ∃ k', st.run k = .ok k' := by
  have hindex (table : TableName) (hmade : (k.tables table).isSome = true) (hid : .userId ∈ columnsOf table)
      (i : IndexName) : ∃ k', (Statement.createIndex i table .userId).run k = .ok k' := by
    obtain ⟨t, ht⟩ := Option.isSome_iff_exists.1 hmade
    have hmem : .userId ∈ t.names := by
      rcases hk table t ht .userId hid with hmem | ⟨-, hlater⟩
      · exact hmem
      · simp [laterColumns] at hlater
    simp only [Statement.run, ht, hmem]
    split
    · exact ⟨_, rfl⟩
    · exact ⟨_, rfl⟩
  have htable (name : TableName) : ∃ k', (Statement.createTable name (columnsOf name)).run k = .ok k' := by
    have hnodup : (columnsOf name).Nodup := by cases name <;> decide
    simp only [Statement.run, hnodup]
    split
    · exact ⟨_, rfl⟩
    · exact ⟨_, rfl⟩
  have hmem : st ∈ schemaBatch := by
    rw [← heq]
    simp
  rw [schemaBatch] at heq
  rcases past with _ | ⟨a, _ | ⟨b, _ | ⟨c, _ | ⟨d, _ | ⟨e, _ | ⟨f, past⟩⟩⟩⟩⟩⟩
  all_goals simp only [List.nil_append, List.cons_append, List.cons.injEq] at heq
  · exact heq.1 ▸ htable .settings
  · exact heq.2.1 ▸ htable .users
  · exact heq.2.2.1 ▸ htable .tunnels
  · exact heq.2.2.2.1 ▸ htable .trafficRecords
  · have hmade := hpast c (by simp)
    rw [heq.2.2.1] at hmade
    exact heq.2.2.2.2.1 ▸ hindex .tunnels hmade (by decide) .tunnelsUser
  · have hmade := hpast d (by simp)
    rw [heq.2.2.2.1] at hmade
    exact heq.2.2.2.2.2.1 ▸ hindex .trafficRecords hmade (by decide) .trafficUser
  · simp at heq

end

/-! ## What a process knows of the catalog -/

structure Catalog.Full (k : Catalog) : Prop where
  tables : ∀ n, ∃ t, k.tables n = some t ∧ columnsOf n ⊆ t.names
  indexes : ∀ i, i ∈ k.indexes
  version : k.userVersion = SCHEMA_VERSION

/-- What a process has done is still done. -/
def SchemaPhase.Ok (k : Catalog) : SchemaPhase → Prop
  | .batch rest => ∃ past, past ++ rest = schemaBatch ∧ ∀ st ∈ past, st.Done k
  | .looking rest => (∀ st ∈ schemaBatch, st.Done k) ∧
      ∃ past, past ++ rest = laterColumns ∧ ∀ c ∈ past, usersHasColumn k c.1 = true
  | .altering c rest => (∀ st ∈ schemaBatch, st.Done k) ∧
      ∃ past, past ++ c :: rest = laterColumns ∧ ∀ c ∈ past, usersHasColumn k c.1 = true
  | .done => k.Full
  | .failed => True

section
variable {k k' : Catalog} {p p' : SchemaPhase}

theorem Catalog.Full.keeps (hf : k.Full) (h : k.Keeps k') : k'.Full := by
  refine ⟨fun n => ?_, fun i => h.indexes (hf.indexes i), ?_⟩
  · obtain ⟨t, ht, hsub⟩ := hf.tables n
    obtain ⟨t', ht', hsub'⟩ := h.tables n t ht
    exact ⟨t', ht', List.Subset.trans hsub hsub'⟩
  · rcases h.version with hv | hv
    · exact hv.trans hf.version
    · exact hv

theorem Catalog.Full.usersHasColumn (hf : k.Full) {c : Column × Cell} (hc : c ∈ laterColumns) :
    Storage.usersHasColumn k c.1 = true := by
  obtain ⟨t, ht, hsub⟩ := hf.tables .users
  have hcolumn : c.1 ∈ columnsOf .users := by
    simp only [laterColumns, List.mem_cons, List.not_mem_nil, or_false] at hc
    rcases hc with rfl | rfl
    · decide
    · decide
  exact usersHasColumn_iff.2 ⟨t, ht, hsub hcolumn⟩

theorem Catalog.Older.full (hk : k.Older) (hbatch : ∀ st ∈ schemaBatch, st.Done k)
    (hlater : ∀ c ∈ laterColumns, usersHasColumn k c.1 = true) (hv : k.userVersion = SCHEMA_VERSION) : k.Full := by
  refine ⟨fun n => ?_, fun i => ?_, hv⟩
  · have hmade : (k.tables n).isSome = true := by
      refine hbatch (.createTable n (columnsOf n)) ?_
      cases n <;> simp [schemaBatch]
    obtain ⟨t, ht⟩ := Option.isSome_iff_exists.1 hmade
    refine ⟨t, ht, fun c hc => ?_⟩
    rcases hk n t ht c hc with hmem | ⟨rfl, hnew⟩
    · exact hmem
    · obtain ⟨d, hd, rfl⟩ := List.mem_map.1 hnew
      obtain ⟨t', ht', hmem⟩ := usersHasColumn_iff.1 (hlater d hd)
      cases ht.symm.trans ht'
      exact hmem
  · cases i with
    | tunnelsUser => exact hbatch (.createIndex .tunnelsUser .tunnels .userId) (by simp [schemaBatch])
    | trafficUser => exact hbatch (.createIndex .trafficUser .trafficRecords .userId) (by simp [schemaBatch])

theorem schemaBatch_keeps (h : k.Keeps k') (hd : ∀ st ∈ schemaBatch, st.Done k) : ∀ st ∈ schemaBatch, st.Done k' :=
  fun st hst => (hd st hst).keeps h (schemaBatch_ours st hst)

theorem SchemaPhase.Ok.keeps (hp : p.Ok k) (h : k.Keeps k') : p.Ok k' := by
  cases p with
  | batch rest =>
    obtain ⟨past, heq, hpast⟩ := hp
    refine ⟨past, heq, fun st hst => (hpast st hst).keeps h (schemaBatch_ours st ?_)⟩
    rw [← heq]
    exact List.mem_append_left _ hst
  | looking rest =>
    obtain ⟨hbatch, past, heq, hpast⟩ := hp
    exact ⟨schemaBatch_keeps h hbatch, past, heq, fun c hc => h.usersHasColumn (hpast c hc)⟩
  | altering c rest =>
    obtain ⟨hbatch, past, heq, hpast⟩ := hp
    exact ⟨schemaBatch_keeps h hbatch, past, heq, fun c hc => h.usersHasColumn (hpast c hc)⟩
  | done => exact Catalog.Full.keeps hp h
  | failed => trivial

/-- A process fails only where it adds a column that has been added since it looked. -/
def SchemaPhase.Raced (k : Catalog) (p : SchemaPhase) : Prop :=
  ∃ c rest, p = .altering c rest ∧ usersHasColumn k c.1 = true

/-- **One step.** -/
theorem SchemaPhase.step_ok (hk : k.Older) (hp : p.Ok k) (h : p.step k = some (k', p')) :
    k'.Older ∧ k.Grown k' ∧ p'.Ok k' ∧ (p' = .failed → p.Raced k) := by
  cases p with
  | batch rest =>
    obtain ⟨past, heq, hpast⟩ := hp
    cases rest with
    | nil =>
      cases h
      rw [List.append_nil] at heq
      exact ⟨hk, .refl k, ⟨heq ▸ hpast, [], rfl, by simp⟩, by simp⟩
    | cons st rest =>
      obtain ⟨k₁, hrun⟩ := schemaBatch_run hk heq hpast
      simp only [SchemaPhase.step, hrun] at h
      cases h
      have hours : ∀ d ∈ past ++ [st], d.Ours := by
        intro d hd
        refine schemaBatch_ours d ?_
        rw [← heq, List.append_cons past st rest]
        exact List.mem_append_left _ hd
      obtain ⟨hgrown, hdone⟩ := Statement.run_grown (hours st (by simp)) hrun
      refine ⟨Statement.run_older hk (hours st (by simp)) hrun, hgrown, ⟨past ++ [st], ?_, fun d hd => ?_⟩, by simp⟩
      · rw [← heq, List.append_cons past st rest]
      · rcases List.mem_append.1 hd with hold | hnew
        · exact (hpast d hold).keeps hgrown.keeps (hours d (List.mem_append_left _ hold))
        · rw [List.mem_singleton.1 hnew]
          exact hdone
  | looking rest =>
    obtain ⟨hbatch, past, heq, hpast⟩ := hp
    cases rest with
    | nil =>
      have hours : (Statement.userVersion SCHEMA_VERSION).Ours := rfl
      have hrun : (Statement.userVersion SCHEMA_VERSION).run k = .ok { k with userVersion := SCHEMA_VERSION } := rfl
      simp only [SchemaPhase.step, hrun] at h
      cases h
      obtain ⟨hgrown, hdone⟩ := Statement.run_grown hours hrun
      have hk' := Statement.run_older hk hours hrun
      rw [List.append_nil] at heq
      refine ⟨hk', hgrown, hk'.full (schemaBatch_keeps hgrown.keeps hbatch) (fun c hc => ?_) hdone, by simp⟩
      exact hgrown.keeps.usersHasColumn (hpast c (heq ▸ hc))
    | cons c rest =>
      simp only [SchemaPhase.step, Option.some.injEq, Prod.mk.injEq] at h
      obtain ⟨rfl, rfl⟩ := h
      refine ⟨hk, .refl k, ?_, ?_⟩
      · split
        · rename_i hthere
          refine ⟨hbatch, past ++ [c], by simpa using heq, fun d hd => ?_⟩
          rcases List.mem_append.1 hd with hold | hnew
          · exact hpast d hold
          · rw [List.mem_singleton.1 hnew]
            exact hthere
        · exact ⟨hbatch, past, heq, hpast⟩
      · split <;> simp
  | altering c rest =>
    obtain ⟨hbatch, past, heq, hpast⟩ := hp
    cases hrun : (Statement.addColumn .users c.1 c.2).run k with
    | ok k₁ =>
      simp only [SchemaPhase.step, hrun] at h
      cases h
      have hours : (Statement.addColumn .users c.1 c.2).Ours := by
        refine ⟨rfl, ?_⟩
        rw [← heq]
        simp
      obtain ⟨hgrown, hdone⟩ := Statement.run_grown hours hrun
      refine ⟨Statement.run_older hk hours hrun, hgrown, ⟨schemaBatch_keeps hgrown.keeps hbatch, past ++ [c],
        by simpa using heq, fun d hd => ?_⟩, by simp⟩
      rcases List.mem_append.1 hd with hold | hnew
      · exact hgrown.keeps.usersHasColumn (hpast d hold)
      · rw [List.mem_singleton.1 hnew]
        exact hdone
    | error e =>
      simp only [SchemaPhase.step, hrun] at h
      cases h
      refine ⟨hk, .refl k, trivial, fun _ => ⟨c, rest, rfl, ?_⟩⟩
      have husers : (k.tables .users).isSome = true :=
        hbatch (.createTable .users (columnsOf .users)) (by simp [schemaBatch])
      obtain ⟨t, ht⟩ := Option.isSome_iff_exists.1 husers
      simp only [Statement.run, ht] at hrun
      split at hrun
      · rename_i hmem
        exact usersHasColumn_iff.2 ⟨t, ht, hmem⟩
      · cases hrun
  | done => cases h
  | failed => cases h

end

/-! ## A process that is left alone -/

/-- What the function still has to do. -/
def SchemaPhase.result (k : Catalog) : SchemaPhase → Except String Catalog
  | .batch rest => do
    let k ← executeBatch rest k
    let k ← addMissing laterColumns k
    (Statement.userVersion SCHEMA_VERSION).run k
  | .looking rest => do
    let k ← addMissing rest k
    (Statement.userVersion SCHEMA_VERSION).run k
  | .altering c rest => do
    let k ← (Statement.addColumn .users c.1 c.2).run k
    let k ← addMissing rest k
    (Statement.userVersion SCHEMA_VERSION).run k
  | .done => .ok k
  | .failed => .error ""

/-- The steps there are left, when every look finds its column missing. -/
def SchemaPhase.left : SchemaPhase → Nat
  | .batch rest => rest.length + 2 * laterColumns.length + 2
  | .looking rest => 2 * rest.length + 1
  | .altering _ rest => 2 * rest.length + 2
  | .done => 0
  | .failed => 0

section
variable {k k' : Catalog} {p p' : SchemaPhase}

theorem SchemaPhase.step_result (h : p.step k = some (k', p')) (hp : p' ≠ .failed) : p.result k = p'.result k' := by
  cases p with
  | batch rest =>
    cases rest with
    | nil =>
      cases h
      rfl
    | cons st rest =>
      cases hrun : st.run k with
      | ok k₁ =>
        simp only [SchemaPhase.step, hrun] at h
        cases h
        simp only [SchemaPhase.result, executeBatch, hrun]
        rfl
      | error e =>
        simp only [SchemaPhase.step, hrun] at h
        cases h
        exact absurd rfl hp
  | looking rest =>
    cases rest with
    | nil =>
      cases h
      rfl
    | cons c rest =>
      simp only [SchemaPhase.step, Option.some.injEq, Prod.mk.injEq] at h
      obtain ⟨rfl, rfl⟩ := h
      cases hthere : usersHasColumn k c.1 with
      | true =>
        simp only [SchemaPhase.result, addMissing, hthere, if_true]
        rfl
      | false =>
        simp only [SchemaPhase.result, addMissing, hthere, Bool.false_eq_true, if_false, bind_assoc]
  | altering c rest =>
    cases hrun : (Statement.addColumn .users c.1 c.2).run k with
    | ok k₁ =>
      simp only [SchemaPhase.step, hrun] at h
      cases h
      simp only [SchemaPhase.result, hrun]
      rfl
    | error e =>
      simp only [SchemaPhase.step, hrun] at h
      cases h
      exact absurd rfl hp
  | done => cases h
  | failed => cases h

theorem SchemaPhase.step_left (h : p.step k = some (k', p')) : p'.left < p.left := by
  cases p with
  | batch rest =>
    cases rest with
    | nil =>
      cases h
      simp [SchemaPhase.left]
    | cons st rest =>
      simp only [SchemaPhase.step] at h
      split at h
      all_goals
        cases h
        simp [SchemaPhase.left]
  | looking rest =>
    cases rest with
    | nil =>
      cases h
      simp [SchemaPhase.left]
    | cons c rest =>
      simp only [SchemaPhase.step, Option.some.injEq, Prod.mk.injEq] at h
      obtain ⟨-, rfl⟩ := h
      split
      · simp only [SchemaPhase.left, List.length_cons]
        omega
      · simp only [SchemaPhase.left, List.length_cons]
        omega
  | altering c rest =>
    simp only [SchemaPhase.step] at h
    split at h
    all_goals
      cases h
      simp [SchemaPhase.left]
  | done => cases h
  | failed => cases h

theorem SchemaPhase.step_some (k : Catalog) (hd : p ≠ .done) (hf : p ≠ .failed) :
    ∃ k' p', p.step k = some (k', p') := by
  cases p with
  | batch rest =>
    cases rest with
    | nil => exact ⟨_, _, rfl⟩
    | cons st rest =>
      simp only [SchemaPhase.step]
      split
      · exact ⟨_, _, rfl⟩
      · exact ⟨_, _, rfl⟩
  | looking rest =>
    cases rest with
    | nil => exact ⟨_, _, rfl⟩
    | cons c rest => exact ⟨_, _, rfl⟩
  | altering c rest =>
    simp only [SchemaPhase.step]
    split
    · exact ⟨_, _, rfl⟩
    · exact ⟨_, _, rfl⟩
  | done => exact absurd rfl hd
  | failed => exact absurd rfl hf

/-- After its own look, and before anyone else's step, a process has not raced. -/
theorem SchemaPhase.step_calm (h : p.step k = some (k', p')) : ¬ p'.Raced k' := by
  rintro ⟨c, rest, rfl, hthere⟩
  cases p with
  | batch todo =>
    cases todo with
    | nil => cases h
    | cons st todo =>
      simp only [SchemaPhase.step] at h
      split at h
      all_goals cases h
  | looking todo =>
    cases todo with
    | nil => cases h
    | cons d todo =>
      simp only [SchemaPhase.step, Option.some.injEq, Prod.mk.injEq] at h
      obtain ⟨rfl, h⟩ := h
      split at h
      · cases h
      · rename_i hmissing
        cases h
        exact hmissing hthere
  | altering d todo =>
    simp only [SchemaPhase.step] at h
    split at h
    all_goals cases h
  | done => cases h
  | failed => cases h

end

/-! ## All processes -/

structure Upgrading.Ok (s : Upgrading) : Prop where
  older : s.catalog.Older
  phases : ∀ pid p, s.processes pid = some p → p.Ok s.catalog

section
variable {s s' : Upgrading} {pid : Nat} {p : SchemaPhase} {a : UpgradeAct}

@[simp] theorem Upgrading.put_catalog (p : Option SchemaPhase) : (s.put pid p).catalog = s.catalog := rfl

@[simp] theorem Upgrading.put_self (p : Option SchemaPhase) : (s.put pid p).processes pid = p := Function.update_self ..

theorem Upgrading.put_other {q : Nat} (hq : q ≠ pid) (p : Option SchemaPhase) :
    (s.put pid p).processes q = s.processes q :=
  Function.update_of_ne hq ..

theorem Upgrading.step_cases (h : s.step a = some s') :
    (∃ pid, a = .start pid ∧ s.processes pid = none ∧ s' = s.put pid (some (.batch schemaBatch))) ∨
    (∃ pid p k' p', a = .step pid ∧ s.processes pid = some p ∧ p.step s.catalog = some (k', p') ∧
      s' = { s with catalog := k' }.put pid (some p')) ∨
    (∃ pid, a = .busy pid ∧ s' = s.put pid (some .failed)) ∨
    (∃ pid, a = .kill pid ∧ s' = s.put pid none) ∨
    ∃ table rows, a = .work table rows ∧ s'.processes = s.processes ∧ s.catalog.Keeps s'.catalog ∧
      (s.catalog.Older → s'.catalog.Older) := by
  cases a with
  | start pid =>
    simp only [Upgrading.step] at h
    split at h
    · cases h
    · rename_i hnone
      cases h
      exact .inl ⟨pid, rfl, by simpa using hnone, rfl⟩
  | step pid =>
    obtain ⟨p, hp, h⟩ := Option.bind_eq_some_iff.1 h
    obtain ⟨⟨k', p'⟩, hstep, h⟩ := Option.bind_eq_some_iff.1 h
    cases h
    exact .inr (.inl ⟨pid, p, k', p', rfl, hp, hstep, rfl⟩)
  | busy pid =>
    simp only [Upgrading.step] at h
    split at h
    · cases h
      exact .inr (.inr (.inl ⟨pid, rfl, rfl⟩))
    · cases h
  | kill pid =>
    simp only [Upgrading.step] at h
    split at h
    · cases h
      exact .inr (.inr (.inr (.inl ⟨pid, rfl, rfl⟩)))
    · cases h
  | work table rows =>
    obtain ⟨t, ht, h⟩ := Option.bind_eq_some_iff.1 h
    split at h
    · rename_i hrows
      cases h
      refine .inr (.inr (.inr (.inr ⟨table, rows, rfl, rfl, ⟨fun n u hu => ?_, List.Subset.refl _, .inl rfl⟩, ?_⟩)))
      · by_cases hn : n = table
        · subst hn
          cases ht.symm.trans hu
          exact ⟨t.put rows hrows, by simp, List.Subset.refl _⟩
        · exact ⟨u, (Function.update_of_ne hn ..).trans hu, List.Subset.refl _⟩
      · intro hk n u hu c hc
        by_cases hn : n = table
        · subst hn
          obtain rfl : t.put rows hrows = u := by simpa using hu
          exact hk n t ht c hc
        · exact hk n u ((Function.update_of_ne hn ..).symm.trans hu) c hc
    · cases h

/-- **One step of any of them.** -/
theorem Upgrading.Ok.step (hs : s.Ok) (h : s.step a = some s') :
    s'.Ok ∧ s.catalog.Keeps s'.catalog ∧ ((∀ table rows, a ≠ .work table rows) → s.catalog.Grown s'.catalog) := by
  have hput (q : Nat) (p : SchemaPhase) (hp : p.Ok s.catalog) : (s.put q (some p)).Ok := by
    refine ⟨hs.older, fun r p' hr => ?_⟩
    by_cases hrq : r = q
    · subst hrq
      obtain rfl : p = p' := by simpa using hr
      exact hp
    · exact hs.phases r p' ((Upgrading.put_other hrq _).symm.trans hr)
  rcases Upgrading.step_cases h with ⟨q, rfl, -, rfl⟩ | ⟨q, p, k', p', rfl, hq, hstep, rfl⟩ | ⟨q, rfl, rfl⟩ |
    ⟨q, rfl, rfl⟩ | ⟨table, rows, rfl, hprocesses, hkeeps, holder⟩
  · exact ⟨hput q _ ⟨[], rfl, by simp⟩, .refl _, fun _ => .refl _⟩
  · obtain ⟨hk', hgrown, hp', -⟩ := SchemaPhase.step_ok hs.older (hs.phases q p hq) hstep
    refine ⟨⟨hk', fun r p₁ hr => ?_⟩, hgrown.keeps, fun _ => hgrown⟩
    by_cases hrq : r = q
    · subst hrq
      obtain rfl : p' = p₁ := by simpa using hr
      exact hp'
    · exact (hs.phases r p₁ ((Upgrading.put_other hrq _).symm.trans hr)).keeps hgrown.keeps
  · exact ⟨hput q .failed trivial, .refl _, fun _ => .refl _⟩
  · refine ⟨⟨hs.older, fun r p hr => ?_⟩, .refl _, fun _ => .refl _⟩
    by_cases hrq : r = q
    · subst hrq
      simp at hr
    · exact hs.phases r p ((Upgrading.put_other hrq _).symm.trans hr)
  · refine ⟨⟨holder hs.older, fun r p hr => ?_⟩, hkeeps, fun hno => absurd rfl (hno table rows)⟩
    exact (hs.phases r p (hprocesses ▸ hr)).keeps hkeeps

theorem Upgrading.ok_inductive : upgrading.Inductive Upgrading.Ok where
  init s hs := ⟨hs.1, fun pid p hp => by simp [hs.2 pid] at hp⟩
  step s _ t hs hst := (hs.step hst).1

/-- **Alone.** A process at a point of the function where nobody has been in its way ends as the
rest of the function does. -/
theorem alone_ends (hs : s.Ok) (hp : s.processes pid = some p) (hcalm : ¬ p.Raced s.catalog) (hf : p ≠ .failed) :
    ∃ n ≤ p.left, ∃ s', LTS.exec Upgrading.step s (List.replicate n (.step pid)) = some s' ∧
      s'.processes pid = some .done ∧ s'.catalog.Full ∧ s.catalog.Grown s'.catalog ∧
      p.result s.catalog = .ok s'.catalog := by
  induction hleft : p.left using Nat.strong_induction_on generalizing s p with
  | _ m ih =>
    subst hleft
    by_cases hdone : p = .done
    · subst hdone
      exact ⟨0, le_refl _, s, rfl, hp, hs.phases pid _ hp, .refl _, rfl⟩
    · obtain ⟨k', p', hstep⟩ := SchemaPhase.step_some s.catalog hdone hf
      obtain ⟨-, hgrown, -, hfailed⟩ := SchemaPhase.step_ok hs.older (hs.phases pid p hp) hstep
      have hf' : p' ≠ .failed := fun h => hcalm (hfailed h)
      have hact : s.step (.step pid) = some ({ s with catalog := k' }.put pid (some p')) := by
        simp [Upgrading.step, hp, hstep]
      have hlt := SchemaPhase.step_left hstep
      obtain ⟨n, hn, s', hexec, hend, hfull, hgrown', hresult⟩ :=
        ih p'.left hlt (hs.step hact).1 (Upgrading.put_self _) (SchemaPhase.step_calm hstep) hf' rfl
      refine ⟨n + 1, by omega, s', ?_, hend, hfull, hgrown.trans hgrown', ?_⟩
      · rw [List.replicate_succ]
        exact Option.bind_eq_some_iff.2 ⟨_, hact, hexec⟩
      · exact (SchemaPhase.step_result hstep hf').trans hresult

end

/-- **The function** upgrades a database of any older version, and loses no column of it. -/
theorem createSchema_ok {k : Catalog} (hk : k.Older) : ∃ k', createSchema k = .ok k' ∧ k'.Full ∧ k.Grown k' := by
  let s : Upgrading := ⟨k, fun _ => some (.batch schemaBatch)⟩
  have hs : s.Ok := by
    refine ⟨hk, fun _ p hp => ?_⟩
    cases hp
    exact ⟨[], rfl, by simp⟩
  have hcalm : ¬ (SchemaPhase.batch schemaBatch).Raced k := by
    rintro ⟨c, rest, h, -⟩
    cases h
  obtain ⟨-, -, s', -, -, hfull, hgrown, hresult⟩ :=
    alone_ends hs (show s.processes 0 = some (.batch schemaBatch) from rfl) hcalm (by simp)
  exact ⟨s'.catalog, hresult, hfull, hgrown⟩

/-- A process that is started when all is made finds every column. -/
theorem Upgrading.late_ok {s s' : Upgrading} {ls : List UpgradeAct} {pid : Nat} (hs : s.Ok) (hfull : s.catalog.Full)
    (hnone : s.processes pid = none) (hbusy : .busy pid ∉ ls) (h : upgrading.Run s ls s') :
    s'.processes pid ≠ some .failed := by
  have hgoes : s.Ok ∧ s.catalog.Full ∧ s.processes pid ≠ some .failed ∧
      ∀ p, s.processes pid = some p → ¬ p.Raced s.catalog := ⟨hs, hfull, by simp [hnone], by simp [hnone]⟩
  clear hs hfull hnone
  induction h with
  | nil s => exact hgoes.2.2.1
  | @cons s t r a ls hst _ ih =>
    obtain ⟨hs, hfull, hf, hcalm⟩ := hgoes
    have hstep : s.step a = some t := hst
    obtain ⟨ht, hkeeps, -⟩ := hs.step hstep
    refine ih (fun hmem => hbusy (List.mem_cons_of_mem _ hmem)) ⟨ht, hfull.keeps hkeeps, ?_⟩
    have hsame (heq : t.processes pid = s.processes pid) : t.processes pid ≠ some .failed ∧
        ∀ p, t.processes pid = some p → ¬ p.Raced t.catalog := by
      refine ⟨heq ▸ hf, fun p hp hraced => ?_⟩
      obtain ⟨c, rest, rfl, -⟩ := hraced
      obtain ⟨-, past, hlater, -⟩ := hs.phases pid _ (heq ▸ hp)
      refine hcalm _ (heq ▸ hp) ⟨c, rest, rfl, hfull.usersHasColumn ?_⟩
      rw [← hlater]
      simp
    rcases Upgrading.step_cases hstep with ⟨q, rfl, -, rfl⟩ | ⟨q, p, k', p', rfl, hq, hrun, rfl⟩ | ⟨q, rfl, rfl⟩ |
      ⟨q, rfl, rfl⟩ | ⟨table, rows, rfl, hprocesses, -, -⟩
    · by_cases hpq : pid = q
      · subst hpq
        refine ⟨by simp, fun p hp => ?_⟩
        obtain rfl : .batch schemaBatch = p := by simpa using hp
        rintro ⟨c, rest, h, -⟩
        cases h
      · exact hsame (Upgrading.put_other hpq _)
    · by_cases hpq : pid = q
      · subst hpq
        obtain ⟨-, -, -, hfailed⟩ := SchemaPhase.step_ok hs.older (hs.phases pid p hq) hrun
        refine ⟨fun h => hcalm p hq (hfailed (by simpa using h)), fun p₁ hp₁ => ?_⟩
        obtain rfl : p' = p₁ := by simpa using hp₁
        exact SchemaPhase.step_calm hrun
      · exact hsame (Upgrading.put_other hpq _)
    · have hpq : pid ≠ q := by
        rintro rfl
        exact hbusy List.mem_cons_self
      exact hsame (Upgrading.put_other hpq _)
    · by_cases hpq : pid = q
      · subst hpq
        exact ⟨by simp, fun p hp => by simp at hp⟩
      · exact hsame (Upgrading.put_other hpq _)
    · exact hsame (congrFun hprocesses pid)

/-- **Upgrades.** Processes upgrade a database of any older version at one time, and are killed or
find it locked at any statement. No column is lost and no row but by a transaction; once one of them
is done all tables are there with all their columns and stay, and a process that is started then is
never failed by the upgrade. A process fails at a step of its own only where it adds a column that
another has added since it looked, and one that is left alone ends with what the function makes. -/
theorem schema_upgrades {s : Upgrading} (hr : upgrading.Reachable s) :
    (∀ ls s', upgrading.Run s ls s' →
      s.catalog.Keeps s'.catalog ∧
      ((∀ table rows, .work table rows ∉ ls) → s.catalog.SameCells s'.catalog) ∧
      ∀ pid, s.processes pid = some .done → s'.catalog.Full ∧
        ∀ later, s.processes later = none → .busy later ∉ ls → s'.processes later ≠ some .failed) ∧
    (∀ pid s', s.step (.step pid) = some s' → s'.processes pid = some .failed →
      ∃ p, s.processes pid = some p ∧ p.Raced s.catalog) ∧
    ∀ pid, s.processes pid = none → ∃ n ≤ 12, ∃ s',
      LTS.exec Upgrading.step s (.start pid :: List.replicate n (.step pid)) = some s' ∧
      s'.processes pid = some .done ∧ s'.catalog.Full ∧ s.catalog.Grown s'.catalog ∧
      createSchema s.catalog = .ok s'.catalog := by
  have hs := Upgrading.ok_inductive.reachable s hr
  refine ⟨fun ls s' hrun => ?_, fun pid s' hstep hfailed => ?_, fun pid hnone => ?_⟩
  · have hkeeps : s.catalog.Keeps s'.catalog ∧
        ((∀ table rows, .work table rows ∉ ls) → s.catalog.Grown s'.catalog) := by
      induction hrun with
      | nil s => exact ⟨.refl _, fun _ => .refl _⟩
      | @cons s t r a ls hst _ ih =>
        obtain ⟨ht, hkeeps, hgrown⟩ := hs.step hst
        obtain ⟨hkeeps', hgrown'⟩ := ih (hr.step hst) ht
        refine ⟨hkeeps.trans hkeeps', fun hno => ?_⟩
        refine (hgrown fun table rows h => ?_).trans (hgrown' fun table rows h => ?_)
        · exact hno table rows (h ▸ List.mem_cons_self)
        · exact hno table rows (List.mem_cons_of_mem _ h)
    refine ⟨hkeeps.1, fun hno => (hkeeps.2 hno).cells, fun pid hdone => ?_⟩
    have hfull : s.catalog.Full := hs.phases pid _ hdone
    exact ⟨hfull.keeps hkeeps.1, fun later hlater hbusy => Upgrading.late_ok hs hfull hlater hbusy hrun⟩
  · obtain ⟨p, hp, h⟩ := Option.bind_eq_some_iff.1 hstep
    obtain ⟨⟨k', p'⟩, hrun, h⟩ := Option.bind_eq_some_iff.1 h
    cases h
    obtain rfl : p' = .failed := by simpa using hfailed
    exact ⟨p, hp, (SchemaPhase.step_ok hs.older (hs.phases pid p hp) hrun).2.2.2 rfl⟩
  · have hstart : s.step (.start pid) = some (s.put pid (some (.batch schemaBatch))) := by
      simp [Upgrading.step, hnone]
    have hcalm : ¬ (SchemaPhase.batch schemaBatch).Raced (s.put pid (some (.batch schemaBatch))).catalog := by
      rintro ⟨c, rest, h, -⟩
      cases h
    obtain ⟨n, hn, s', hexec, hend, hfull, hgrown, hresult⟩ :=
      alone_ends (hs.step hstart).1 (Upgrading.put_self _) hcalm (by simp)
    exact ⟨n, hn, s', Option.bind_eq_some_iff.2 ⟨_, hstart, hexec⟩, hend, hfull, hgrown, hresult⟩

/-- A database from before both columns, with one user. -/
def firstVersion : Catalog where
  tables := fun
    | .users => some {
        names := [.id, .account, .passwordHash, .secret, .trafficLimitBytes, .trafficUsedBytes, .speedLimitMbps,
          .createdAt, .updatedAt]
        rows := [[.text ['u'], .text ['a'], .text ['h'], .text ['s'], .int 0, .int 7, .int 10, .int 1, .int 1]]
        distinct := by decide
        width := by decide }
    | _ => none
  indexes := []
  userVersion := 1

/-- Two processes find that there is no column for the password, and both add it. -/
def racing : List UpgradeAct :=
  [.start 0, .start 1] ++ List.replicate 8 (.step 0) ++ List.replicate 8 (.step 1) ++
    List.replicate 4 (.step 0) ++ [.step 1]

theorem firstVersion_older : firstVersion.Older := by
  intro n t ht c hc
  cases n with
  | users =>
    cases ht
    revert c
    decide
  | settings => cases ht
  | tunnels => cases ht
  | trafficRecords => cases ht

theorem racing_runs : ∃ s, LTS.exec Upgrading.step ⟨firstVersion, fun _ => none⟩ racing = some s ∧
    s.processes 0 = some .done ∧ s.processes 1 = some .failed ∧ s.processes 2 = none := by
  refine ⟨_, rfl, ?_, ?_, ?_⟩
  all_goals rfl

theorem racing_upgrades : ∃ s, upgrading.Reachable s ∧ s.processes 0 = some .done ∧ s.processes 1 = some .failed ∧
    s.catalog.Full ∧ ∃ n ≤ 12, ∃ s', LTS.exec Upgrading.step s (.start 2 :: List.replicate n (.step 2)) = some s' ∧
      s'.processes 2 = some .done ∧ createSchema s.catalog = .ok s'.catalog := by
  obtain ⟨s, hexec, h0, h1, h2⟩ := racing_runs
  have hr : upgrading.Reachable s := ⟨_, racing, ⟨firstVersion_older, fun _ => rfl⟩, LTS.run_of_exec hexec⟩
  obtain ⟨hruns, -, halone⟩ := schema_upgrades hr
  obtain ⟨n, hn, s', hexec', hend, -, -, hresult⟩ := halone 2 h2
  exact ⟨s, hr, h0, h1, ((hruns [] s (.nil s)).2.2 0 h0).1, n, hn, s', hexec', hend, hresult⟩

end OrangeFrp.Storage
