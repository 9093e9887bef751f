import OrangeFrp.Storage.Processes

/-!
# Reading one snapshot (`frp-game-server/src/storage.rs`)

`read` selects the settings, the users, the tunnels and the traffic records one
after the other, each in a transaction of its own, while every commit writes all
four tables in one. What it returns is one committed database only if no commit
comes between that touches what is still to be read.

`Watched` is the system of `Storage.Processes` with the databases it has been
through. `Spared` says of one commit that it leaves a read under way as it was:

* after the settings, it leaves the three tables, or the settings row that was
  read (a recovery of passwords);
* after the users, it leaves their tunnels and their records;
* after the tunnels, it leaves the users' records.

* `snapshot_reads`: in a run whose commits spare the reads of the others, every
  read that returns, returns one of the databases.
* `torn_read`: a save between the users and the tunnels, and `read` returns the
  revision before the save with the tunnels after it.
-/
namespace OrangeFrp.Storage

open OrangeFrp.Core

/-! ## The databases of a run -/

structure Watched where
  system : System
  past : List Db

def Watched.fresh (disk : Disk) : Watched := ⟨.fresh disk, [disk.db]⟩

def Watched.step (P : Primitives) (w : Watched) (l : Pid × Act) : Option Watched :=
  (w.system.step P l).map fun s => ⟨s, s.disk.db :: w.past⟩

def watched (P : Primitives) : LTS Watched (Pid × Act) :=
  .ofFn (fun w => ∃ disk, w = .fresh disk) (Watched.step P)

/-- A process at the last `SELECT` of `read`. -/
def Phase.Last : Phase → Prop
  | .selectedTunnels _ _ _ _ => True
  | _ => False

/-- What `read` makes of a database. -/
def Db.snapshot (P : Primitives) (db : Db) (e : Entropy) : Except String ServerConfig := do
  let loaded ← loadConfig db
  let normalized ← normalizeLoadedConfig P loaded e.uuids
  return normalized.1

/-- `c` is what `read` makes of one of the databases, and has its revision. -/
def OneOf (P : Primitives) (past : List Db) (e : Entropy) (c : ServerConfig) : Prop :=
  ∃ db ∈ past, db.snapshot P e = .ok c ∧ db.settings.map (·.revision) = some c.revision

/-- If `read` of process `p` returns now, it returns a committed snapshot. -/
def ReadsSnapshot (P : Primitives) (w : Watched) (p : Pid) : Prop :=
  (w.system.processes p).phase.Last → ∀ e o v, w.system.outcome P (p, .next e) = some o →
    o.process.versions = (w.system.processes p).versions ++ [v] → OneOf P w.past e v.config

/-! ## Commits that spare a read -/

/-- The rows of `tunnels` and of `traffic_records` that a read of `users` selects. -/
def SameTunnels (users : Table userSchema) (db db' : Db) : Prop :=
  ∀ r ∈ users.rows, db'.tunnelsOf r.id = db.tunnelsOf r.id

def SameRecords (users : Table userSchema) (db db' : Db) : Prop :=
  ∀ r ∈ users.rows, db'.trafficOf r.id = db.trafficOf r.id

/-- A commit from `db` to `db'` leaves what a read in this phase still selects. -/
def Phase.Spared (db db' : Db) : Phase → Prop
  | .selectedSettings row _ => db'.settings = some row ∨
      db'.users = db.users ∧ db'.tunnels = db.tunnels ∧ db'.traffic = db.traffic
  | .selectedUsers _ users _ => SameTunnels users db db' ∧ SameRecords users db db'
  | .selectedTunnels _ users _ _ => SameRecords users db db'
  | _ => True

/-- Where a step commits, it spares the reads of the other processes. -/
def Undisturbed (P : Primitives) (w : Watched) (l : Pid × Act) : Prop :=
  ∀ o, w.system.outcome P l = some o → o.commit ≠ none →
    ∀ q, q ≠ l.1 → (w.system.processes q).phase.Spared w.system.disk.db o.disk.db

/-- What a read has selected, and will select of `db`, is one database of `past`. -/
def Phase.Untorn (past : List Db) (db : Db) : Phase → Prop
  | .selectedSettings row _ => ∃ d ∈ past, d.settings = some row ∧
      d.users = db.users ∧ d.tunnels = db.tunnels ∧ d.traffic = db.traffic
  | .selectedUsers row users _ => ∃ d ∈ past, d.settings = some row ∧ d.users = users ∧
      SameTunnels users d db ∧ SameRecords users d db
  | .selectedTunnels row users tunnels _ => ∃ d ∈ past, d.settings = some row ∧ d.users = users ∧
      SameTunnels users d ⟨some row, users, tunnels, db.traffic⟩ ∧ SameRecords users d db
  | _ => True

theorem SameTunnels.trans {users : Table userSchema} {d db db' : Db} (h : SameTunnels users d db)
    (h' : SameTunnels users db db') : SameTunnels users d db' :=
  fun r hr => (h' r hr).trans (h r hr)

theorem SameRecords.trans {users : Table userSchema} {d db db' : Db} (h : SameRecords users d db)
    (h' : SameRecords users db db') : SameRecords users d db' :=
  fun r hr => (h' r hr).trans (h r hr)

theorem tunnelsOf_eq {db db' : Db} (h : db'.tunnels = db.tunnels) (id : Str) :
    db'.tunnelsOf id = db.tunnelsOf id := by
  unfold Db.tunnelsOf
  rw [h]

theorem trafficOf_eq {db db' : Db} (h : db'.traffic = db.traffic) (id : Str) :
    db'.trafficOf id = db.trafficOf id := by
  unfold Db.trafficOf
  simp only [h]

/-- A configuration is loaded from the settings, the users and the rows of these users. -/
theorem loadConfig_congr {db db' : Db} (hs : db'.settings = db.settings) (hu : db'.users = db.users)
    (ht : SameTunnels db.users db db') (hr : SameRecords db.users db db') :
    loadConfig db' = loadConfig db := by
  unfold loadConfig
  rw [hs, hu]
  have hrows : (db.users.rows.map fun r => r.user db') = db.users.rows.map fun r => r.user db := by
    refine List.map_congr_left fun r hmem => ?_
    simp only [UserRow.user, ht r hmem, hr r hmem]
  rw [hrows]

section
variable {past : List Db} {db db' : Db} {phase : Phase}

theorem Phase.Untorn.mono (h : phase.Untorn past db) (d : Db) : phase.Untorn (d :: past) db := by
  cases phase <;> simp only [Phase.Untorn] at h ⊢
  all_goals
    obtain ⟨d', hd', h⟩ := h
    exact ⟨d', List.mem_cons_of_mem _ hd', h⟩

theorem Phase.Untorn.miss (h : phase.Untorn past db) (change : Change) :
    (phase.miss change).Untorn past db := by
  cases phase <;> exact h

/-- A commit that spares a read leaves it untorn. -/
theorem Phase.Untorn.spared (h : phase.Untorn past db) (hs : phase.Spared db db') :
    phase.Untorn (db' :: past) db' := by
  cases phase <;> simp only [Phase.Untorn, Phase.Spared] at h hs ⊢
  case selectedSettings row missed =>
    rcases hs with hs | ⟨hu, ht, hr⟩
    · exact ⟨db', List.mem_cons_self, hs, rfl, rfl, rfl⟩
    · obtain ⟨d, hd, hset, hu', ht', hr'⟩ := h
      exact ⟨d, List.mem_cons_of_mem _ hd, hset, by rw [hu, hu'], by rw [ht, ht'], by rw [hr, hr']⟩
  case selectedUsers row users missed =>
    obtain ⟨d, hd, hset, hu, ht, hr⟩ := h
    exact ⟨d, List.mem_cons_of_mem _ hd, hset, hu, ht.trans hs.1, hr.trans hs.2⟩
  case selectedTunnels row users tunnels missed =>
    obtain ⟨d, hd, hset, hu, ht, hr⟩ := h
    refine ⟨d, List.mem_cons_of_mem _ hd, hset, hu, fun r hmem => ?_, hr.trans hs⟩
    exact (tunnelsOf_eq rfl r.id).trans (ht r hmem)

end

/-! ## One step -/

section
variable {P : Primitives} {q : Process} {disk : Disk} {e : Entropy} {o : Outcome} {past : List Db}

theorem initializing_quiet (h : q.initializing P disk e = some o) (hc : o.commit = none) :
    o.disk.db = disk.db := by
  unfold Process.initializing at h
  split at h
  · cases h; rfl
  · cases h; rfl
  · split at h
    · cases h; rfl
    cases h
    simp only at hc
    split at hc
    · assumption
    · cases hc
  · cases h; rfl
  · split at h
    · cases h; rfl
    split at h <;> cases h <;> rfl
  · split at h
    · cases h; rfl
    cases h; cases hc
  · split at h <;> cases h <;> rfl
  · cases h

theorem reading_disk (h : q.reading P disk e = some o) : o.disk = disk := by
  unfold Process.reading at h
  split at h
  · split at h <;> cases h <;> rfl
  · cases h; rfl
  · cases h; rfl
  · split at h
    · cases h; rfl
    split at h <;> cases h <;> rfl
  · cases h

theorem writing_quiet (h : q.writing P disk e = some o) (hc : o.commit = none) :
    o.disk.db = disk.db := by
  unfold Process.writing at h
  split at h
  · obtain ⟨v, -, h⟩ := Option.bind_eq_some_iff.1 h
    split at h
    · cases h; rfl
    split at h
    · cases h; cases hc
    · split at h <;> cases h <;> rfl
  · split at h
    · cases h; rfl
    split at h
    · cases h; cases hc
    · cases h; rfl
  · cases h

/-- A step that commits nothing leaves the database. -/
theorem Process.step_quiet {a : Act} (h : q.step P disk a = some o) (hc : o.commit = none) :
    o.disk.db = disk.db := by
  cases a with
  | begin op =>
    simp only [Process.step] at h
    split at h
    · split at h <;> cases h
      rfl
    · cases h
  | create config =>
    simp only [Process.step] at h
    split at h <;> cases h
    rfl
  | next e =>
    simp only [Process.step] at h
    split at h
    · cases h; rfl
    · rcases Option.or_eq_some_iff.1 h with h | ⟨-, h⟩
      · exact initializing_quiet h hc
      rcases Option.or_eq_some_iff.1 h with h | ⟨-, h⟩
      · rw [reading_disk h]
      · exact writing_quiet h hc
  | stop => cases h; rfl

theorem initializing_untorn {db : Db} (h : q.initializing P disk e = some o) :
    o.process.phase.Untorn past db := by
  unfold Process.initializing at h
  split at h
  · cases h
    show Phase.Untorn _ _ (if _ then _ else _)
    split <;> trivial
  · cases h
    show Phase.Untorn _ _ (if _ then _ else _)
    split <;> trivial
  · split at h <;> cases h <;> trivial
  · cases h
    show Phase.Untorn _ _ (if _ then _ else _)
    split <;> trivial
  · split at h
    · cases h; trivial
    split at h <;> cases h <;> trivial
  · split at h <;> cases h <;> trivial
  · split at h <;> cases h <;> trivial
  · cases h

theorem writing_untorn {db : Db} (h : q.writing P disk e = some o) :
    o.process.phase.Untorn past db := by
  unfold Process.writing at h
  split at h
  · obtain ⟨v, -, h⟩ := Option.bind_eq_some_iff.1 h
    split at h
    · cases h; trivial
    split at h
    · cases h; trivial
    · split at h <;> cases h <;> trivial
  · split at h
    · cases h; trivial
    split at h <;> cases h <;> trivial
  · cases h

/-- Each `SELECT` takes what the database of its turn still has. -/
theorem reading_untorn (h : q.reading P disk e = some o) (hp : disk.db ∈ past)
    (hu : q.phase.Untorn past disk.db) : o.process.phase.Untorn past disk.db := by
  unfold Process.reading at h
  split at h
  · split at h
    · cases h; trivial
    rename_i row hset
    cases h
    exact ⟨disk.db, hp, hset, rfl, rfl, rfl⟩
  · rename_i row missed hq
    cases h
    rw [hq] at hu
    obtain ⟨d, hd, hset, husers, htunnels, htraffic⟩ := hu
    exact ⟨d, hd, hset, husers, fun r _ => tunnelsOf_eq htunnels.symm r.id,
      fun r _ => trafficOf_eq htraffic.symm r.id⟩
  · rename_i row users missed hq
    cases h
    rw [hq] at hu
    obtain ⟨d, hd, hset, husers, ht, hr⟩ := hu
    exact ⟨d, hd, hset, husers, fun r hmem => (tunnelsOf_eq rfl r.id).trans (ht r hmem), hr⟩
  · split at h
    · cases h; trivial
    split at h <;> cases h <;> trivial
  · cases h

theorem Process.step_untorn {a : Act} (h : q.step P disk a = some o) (hp : disk.db ∈ past)
    (hu : q.phase.Untorn past disk.db) : o.process.phase.Untorn (o.disk.db :: past) o.disk.db := by
  cases a with
  | begin op =>
    simp only [Process.step] at h
    split at h
    · split at h <;> cases h
      show Phase.Untorn _ _ (if _ then _ else _)
      split <;> trivial
    · cases h
  | create config =>
    simp only [Process.step] at h
    split at h <;> cases h
    show Phase.Untorn _ _ (if _ then _ else _)
    split <;> trivial
  | next e =>
    simp only [Process.step] at h
    split at h
    · cases h; trivial
    · rcases Option.or_eq_some_iff.1 h with h | ⟨-, h⟩
      · exact initializing_untorn h
      rcases Option.or_eq_some_iff.1 h with h | ⟨-, h⟩
      · rw [reading_disk h]
        exact (reading_untorn h hp hu).mono _
      · exact writing_untorn h
  | stop => cases h; trivial

/-- A read that is untorn returns the database it is of. -/
theorem reading_oneOf {v : Version} (h : q.reading P disk e = some o) (hl : q.phase.Last)
    (hv : o.process.versions = q.versions ++ [v]) (hu : q.phase.Untorn past disk.db) : OneOf P past e v.config := by
  unfold Process.reading at h
  split at h
  · rename_i hq; rw [hq] at hl; cases hl
  · rename_i hq; rw [hq] at hl; cases hl
  · rename_i hq; rw [hq] at hl; cases hl
  · rename_i row users tunnels missed hq
    rw [hq] at hu
    obtain ⟨d, hd, hset, husers, ht, hr⟩ := hu
    subst husers
    split at h
    · cases h
      simp [Outcome.quiet, Process.to] at hv
    rename_i config hload
    have hload' : loadConfig d = .ok config := by
      rw [← hload]
      refine (loadConfig_congr ?_ ?_ ?_ ?_).symm
      · exact hset.symm
      · rfl
      · exact ht
      · exact fun r hmem => (trafficOf_eq rfl r.id).trans (hr r hmem)
    split at h
    · cases h
      simp [Outcome.quiet, Process.to] at hv
    rename_i normalized hn
    cases h
    obtain rfl : (⟨normalized.1, missed, false⟩ : Version) = v := by
      simpa [Outcome.quiet, Process.keep] using hv
    refine ⟨d, hd, bind_eq_ok.2 ⟨config, hload', bind_eq_ok.2 ⟨normalized, hn, rfl⟩⟩, ?_⟩
    cases hload
    have hrev : normalized.1.revision = row.revision :=
      congrArg (·.revision) (normalize_valid P hn).2
    rw [hset, Option.map_some, hrev]
  · cases h

end

/-! ## Every run -/

structure Watched.Untorn (w : Watched) : Prop where
  current : w.system.disk.db ∈ w.past
  reads : ∀ p, (w.system.processes p).phase.Untorn w.past w.system.disk.db

section
variable {P : Primitives}

/-- The databases are those of a run of the processes. -/
theorem watched_system {w w' : Watched} {ls : List (Pid × Act)} (h : (watched P).Run w ls w') :
    (processes P).Run w.system ls w'.system := by
  induction h with
  | nil w => exact .nil w.system
  | cons hst _ ih =>
    obtain ⟨s, hs, rfl⟩ := Option.map_eq_some_iff.1 hst
    exact .cons hs ih

theorem watched_inductive : ((watched P).restrict (Undisturbed P)).Inductive Watched.Untorn where
  init w h := by
    obtain ⟨disk, rfl⟩ := h
    exact ⟨List.mem_singleton.2 rfl, fun _ => trivial⟩
  step w l w' h hst := by
    obtain ⟨hst, hg⟩ := hst
    obtain ⟨s, hs, rfl⟩ := Option.map_eq_some_iff.1 hst
    obtain ⟨o, ho, rfl⟩ := Option.map_eq_some_iff.1 hs
    refine ⟨List.mem_cons_self, fun p => ?_⟩
    show Phase.Untorn (o.disk.db :: w.past) o.disk.db (Process.phase (if p = l.1 then _ else _))
    split
    · exact Process.step_untorn ho h.current (h.reads l.1)
    · rename_i hne
      split
      · rename_i hc
        rw [Process.step_quiet ho hc]
        exact (h.reads p).mono _
      · rename_i commit hc
        exact ((h.reads p).spared (hg o ho (by rw [hc]; simp) p hne)).miss _

/-- **A read returns one committed snapshot** in every run whose commits spare the
reads that other processes have begun. -/
theorem snapshot_reads {w : Watched} (h : ((watched P).restrict (Undisturbed P)).Reachable w)
    (p : Pid) : ReadsSnapshot P w p := by
  intro hl e o v ho hv
  have hw := watched_inductive.reachable w h
  have hstep : (w.system.processes p).step P w.system.disk (.next e) = some o := ho
  have hread : (w.system.processes p).reading P w.system.disk e = some o := by
    cases hq : (w.system.processes p).phase <;> rw [hq] at hl <;> try cases hl
    simpa [Process.step, Process.initializing, Process.writing, hq] using hstep
  exact reading_oneOf hread hl hv (hw.reads p)

end

/-! ## A save between the users and the tunnels -/

instance (P : Primitives) (past : List Db) (e : Entropy) (c : ServerConfig) :
    Decidable (OneOf P past e c) := by
  unfold OneOf
  infer_instance

instance (phase : Phase) : Decidable phase.Last := by
  unfold Phase.Last
  cases phase <;> infer_instance

/-- Process 0 has read and is about to save `c`; process 1 has selected the settings
and the users. -/
def halfRead (c : ServerConfig) : List (Pid × Act) :=
  [(0, .begin .read), (0, .next .constant), (0, .next .constant), (0, .next .constant),
    (0, .next .constant), (0, .next .constant), (0, .next .constant),
    (0, .begin (.save 0 c)), (0, .next .constant), (0, .next .constant),
    (1, .begin .read), (1, .next .constant), (1, .next .constant), (1, .next .constant),
    (1, .next .constant)]

/-- Process 0 saves, and process 1 selects the tunnels. -/
def saveBetween : List (Pid × Act) := [(0, .next .constant), (1, .next .constant)]

/-- Whether process 1 is at its last `SELECT` and returns, and what. -/
def Watched.returned (w : Watched) : Option (Outcome × Version) :=
  (w.system.outcome .plain (1, .next .constant)).bind fun o =>
    o.process.versions.getLast?.bind fun v =>
      if (w.system.processes 1).phase.Last ∧
        o.process.versions = (w.system.processes 1).versions ++ [v] then some (o, v) else none

theorem Watched.returned_eq {w : Watched} {o : Outcome} {v : Version}
    (h : w.returned = some (o, v)) : (w.system.processes 1).phase.Last ∧
      w.system.outcome .plain (1, .next .constant) = some o ∧
      o.process.versions = (w.system.processes 1).versions ++ [v] := by
  obtain ⟨o', ho, h⟩ := Option.bind_eq_some_iff.1 h
  obtain ⟨v', -, h⟩ := Option.bind_eq_some_iff.1 h
  split at h
  · rename_i hl
    cases h
    exact ⟨hl.1, ho, hl.2⟩
  · cases h

/-- **A torn read**: the revision before the save with the tunnels after it. -/
theorem torn_read : ∃ w, (watched .plain).Reachable w ∧ ¬ ReadsSnapshot .plain w 1 := by
  have hexec : ((LTS.exec (Watched.step .plain) (.fresh (.ofConfig oneTunnel))
      (halfRead (sampleConfig [sampleUser 'a' []]) ++ saveBetween)).bind fun w =>
        w.returned.map fun r => decide (OneOf .plain w.past .constant r.2.config)) = some false := by
    decide +kernel
  obtain ⟨w, hw, hr⟩ := Option.bind_eq_some_iff.1 hexec
  obtain ⟨⟨o, v⟩, hv, hn⟩ := Option.map_eq_some_iff.1 hr
  obtain ⟨hl, ho, hv⟩ := Watched.returned_eq hv
  refine ⟨w, ⟨_, _, ⟨_, rfl⟩, LTS.run_of_exec hw⟩, fun hs => ?_⟩
  exact (decide_eq_false_iff_not.1 hn) (hs hl _ o v ho hv)

/-- Of two processes the first commits nothing that the second is still to read. -/
def SparesSecond (w : Watched) (l : Pid × Act) : Prop :=
  l.1 < 2 ∧ ∀ o, w.system.outcome .plain l = some o → o.commit ≠ none →
    l.1 = 0 ∧ (w.system.processes 1).phase.Spared w.system.disk.db o.disk.db

instance (db db' : Db) (phase : Phase) : Decidable (phase.Spared db db') := by
  unfold Phase.Spared SameTunnels SameRecords
  cases phase <;> infer_instance

instance (w : Watched) (l : Pid × Act) : Decidable (SparesSecond w l) := by
  unfold SparesSecond
  cases w.system.outcome .plain l with
  | none => exact decidable_of_iff (l.1 < 2) ⟨fun h => ⟨h, fun _ ho => by cases ho⟩, And.left⟩
  | some o =>
    exact decidable_of_iff (l.1 < 2 ∧ (o.commit ≠ none → l.1 = 0 ∧
      (w.system.processes 1).phase.Spared w.system.disk.db o.disk.db))
      ⟨fun h => ⟨h.1, fun o' ho => by cases ho; exact h.2⟩, fun h => ⟨h.1, h.2 o rfl⟩⟩

theorem undisturbed_of_sparesSecond {w w' : Watched} {ls : List (Pid × Act)}
    (h : ((watched .plain).restrict SparesSecond).Run w ls w')
    (hi : ∀ p, 2 ≤ p → (w.system.processes p).phase = .idle) :
    ((watched .plain).restrict (Undisturbed .plain)).Run w ls w' := by
  induction h with
  | nil w => exact .nil w
  | @cons w w₁ w₂ l ls hst _ ih =>
    obtain ⟨hst, hlt, hg⟩ := hst
    refine .cons ⟨hst, fun o ho hc q hq => ?_⟩ (ih fun p hp => ?_)
    · obtain ⟨h0, hs⟩ := hg o ho hc
      rcases Nat.lt_or_ge q 2 with hlt | hge
      · have hne : q ≠ 0 := h0 ▸ hq
        obtain rfl : q = 1 := le_antisymm (Nat.le_of_lt_succ hlt) (Nat.one_le_iff_ne_zero.2 hne)
        exact hs
      · rw [hi q hge]
        trivial
    · obtain ⟨s, hs, rfl⟩ := Option.map_eq_some_iff.1 hst
      obtain ⟨o, -, rfl⟩ := Option.map_eq_some_iff.1 hs
      simp only [System.settle, if_neg (Nat.ne_of_gt (Nat.lt_of_lt_of_le hlt hp))]
      split
      · exact hi p hp
      · simp only [Process.miss, hi p hp, Phase.miss]

/-- A save that changes a limit only comes between as well. -/
theorem limit_saved_between : ∃ w o v,
    ((watched .plain).restrict (Undisturbed .plain)).Reachable w ∧
      w.returned = some (o, v) ∧ v.config.revision = 1 ∧
      w.system.disk.db.settings.map (·.revision) = some 2 ∧
      OneOf .plain w.past .constant v.config := by
  have hexec : ((LTS.exec (fun w l => if SparesSecond w l then Watched.step .plain w l else none)
      (.fresh (.ofConfig oneTunnel)) (halfRead
        (sampleConfig [{ sampleUser 'a' [sampleTunnel ['x'] 5 20000] with tunnelLimit := 7 }]) ++
        saveBetween)).bind fun w => w.returned.map fun r =>
          (r.2.config.revision, w.system.disk.db.settings.map (·.revision))) = some (1, some 2) := by
    decide +kernel
  obtain ⟨w, hw, hr⟩ := Option.bind_eq_some_iff.1 hexec
  obtain ⟨⟨o, v⟩, hv, hrev⟩ := Option.map_eq_some_iff.1 hr
  simp only [Prod.mk.injEq] at hrev
  have hreach : ((watched .plain).restrict (Undisturbed .plain)).Reachable w :=
    ⟨_, _, ⟨_, rfl⟩, undisturbed_of_sparesSecond (LTS.restrict_run_of_exec hw) fun _ _ => rfl⟩
  obtain ⟨hl, ho, hkeep⟩ := Watched.returned_eq hv
  exact ⟨w, o, v, hreach, hv, hrev.1, hrev.2, snapshot_reads hreach 1 hl _ o v ho hkeep⟩

end OrangeFrp.Storage
