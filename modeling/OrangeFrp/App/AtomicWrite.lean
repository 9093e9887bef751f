import OrangeFrp.App.FrpsConfig
import OrangeFrp.Core.Files
import OrangeFrp.Core.LTS

/-!
# Files that are replaced (`frp-game-server/src/app.rs`)

`atomic_write_file` writes a file beside its target, syncs it, gives it its mode and renames it.
Several processes may be at it, for the same target or others; each call may fail, a write may be
short, and a process or the whole machine may die between any two calls.

* `Machine.step_replaces`: what one step is to the targets.
* `atomic_write`: every run.
* `frps_reads`: what frps finds in `frps.toml`, however it is written meanwhile.
-/
namespace OrangeFrp.App

open OrangeFrp.Core OrangeFrp.Storage

/-! ## Paths -/

/-- A path that has a name. -/
structure Path where
  parent : Str
  name : Str
  deriving DecidableEq

/-- mirrors crates/frp-game-server/src/app.rs:306-312 -/
def temporary (path : Path) (pid : Nat) : Path :=
  ⟨path.parent, '.' :: (path.name ++ '.' :: (Nat.toDigits 10 pid ++ ".tmp".toList))⟩

theorem dot_notMem_digits (n : Nat) : '.' ∉ Nat.toDigits 10 n := by
  intro h
  exact absurd (Nat.isDigit_of_mem_toDigits (by decide) (by decide) h) (by decide)

/-- The last dot of a text is where it is. -/
theorem append_dot_inj {xs ys as bs : Str} (ha : '.' ∉ as) (hb : '.' ∉ bs) (h : xs ++ '.' :: as = ys ++ '.' :: bs) :
    xs = ys ∧ as = bs := by
  rcases List.append_eq_append_iff.1 h with ⟨zs, hys, hzs⟩ | ⟨zs, hxs, hzs⟩
  · cases zs with
    | nil => exact ⟨by simpa using hys.symm, by simpa using hzs⟩
    | cons z zs =>
      rw [(List.cons.inj hzs).2] at ha
      exact absurd (by simp) ha
  · cases zs with
    | nil => exact ⟨by simpa using hxs, by simpa using hzs.symm⟩
    | cons z zs =>
      rw [(List.cons.inj hzs).2] at hb
      exact absurd (by simp) hb

/-- No two processes and no two targets share a file to write. -/
theorem temporary_inj {p q : Path} {i j : Nat} (h : temporary p i = temporary q j) : p = q ∧ i = j := by
  obtain ⟨hparent, hname⟩ := Path.mk.inj h
  have hdots : (p.name ++ '.' :: Nat.toDigits 10 i) ++ ".tmp".toList =
      (q.name ++ '.' :: Nat.toDigits 10 j) ++ ".tmp".toList := by
    simpa using (List.cons.inj hname).2
  obtain ⟨hn, hd⟩ := append_dot_inj (dot_notMem_digits i) (dot_notMem_digits j) (List.append_cancel_right hdots)
  have hij := congrArg (fun s => Nat.ofDigitChars 10 s 0) hd
  simp only [Nat.ofDigitChars_ten_toDigits] at hij
  refine ⟨?_, hij⟩
  cases p
  cases q
  simp_all

/-- A path that no process writes beside its target. -/
def IsTarget (p : Path) : Prop := ∀ q pid, p ≠ temporary q pid

theorem isTarget_of_name {p : Path} (h : p.name.head? ≠ some '.') : IsTarget p := by
  rintro q pid rfl
  exact h rfl

/-! ## Processes -/

structure Job where
  path : Path
  data : Bytes
  mode : Nat

/-- The next call: `create_dir_all`, `open`, `write` or `sync_all`, `set_permissions`, `rename`,
the return with `Ok`, or `remove_file` and the return with an error. -/
inductive WritePhase where
  | making
  | opening
  | writing (file : Nat) (rest : Bytes)
  | synced (file : Nat)
  | ready (file : Nat)
  | renamed
  | failed
  deriving DecidableEq

structure Writer where
  job : Job
  mask : Nat
  phase : WritePhase

structure Machine where
  files : Files Path
  writers : Nat → Option Writer

inductive MachineEvent where
  | start (pid : Nat) (job : Job) (mask : Nat)
  /-- the call succeeds; `size` is how much a write has written, less one -/
  | proceed (pid : Nat) (size : Nat)
  | fail (pid : Nat)
  | kill (pid : Nat)
  | powerLoss (back : Nat) (found : Nat → File)

def MachineEvent.IsPowerLoss : MachineEvent → Prop
  | .powerLoss .. => True
  | _ => False

namespace Machine

def put (s : Machine) (pid : Nat) (w : Option Writer) : Machine := { s with writers := Function.update s.writers pid w }

@[simp] theorem put_self (s : Machine) (pid : Nat) (w : Option Writer) : (s.put pid w).writers pid = w :=
  Function.update_self ..

theorem put_of_ne {s : Machine} {pid i : Nat} {w : Option Writer} (h : i ≠ pid) :
    (s.put pid w).writers i = s.writers i := Function.update_of_ne h ..

/-- The files change, and the process goes on. -/
def goOn (s : Machine) (pid : Nat) (w : Writer) (files : Files Path) (phase : WritePhase) : Machine :=
  { s with files := files }.put pid (some { w with phase := phase })

/-- mirrors crates/frp-game-server/src/app.rs:303-333 -/
def proceed (s : Machine) (pid size : Nat) (w : Writer) : Machine :=
  match w.phase with
  | .making => s.goOn pid w s.files .opening
  | .opening =>
    let opened := s.files.openNew (temporary w.job.path pid) w.mask
    s.goOn pid w opened.1 (.writing opened.2 w.job.data)
  | .writing i [] => s.goOn pid w (s.files.sync i) (.synced i)
  | .writing i rest => s.goOn pid w (s.files.append i (rest.take (size + 1))) (.writing i (rest.drop (size + 1)))
  | .synced i =>
    match s.files.chmod (temporary w.job.path pid) w.job.mode with
    | some files => s.goOn pid w files (.ready i)
    | none => s.goOn pid w s.files .failed
  | .ready _ =>
    match s.files.rename (temporary w.job.path pid) w.job.path with
    | some files => s.goOn pid w files .renamed
    | none => s.goOn pid w s.files .failed
  | .renamed => s.put pid none
  | .failed => { s with files := (s.files.remove (temporary w.job.path pid)).getD s.files }.put pid none

/-- A call fails and leaves the files alone; no call is left after `rename`. -/
def fail (s : Machine) (pid : Nat) (w : Writer) : Option Machine :=
  match w.phase with
  | .making => some (s.put pid none)
  | .renamed => none
  | .failed => some (s.put pid none)
  | _ => some (s.goOn pid w s.files .failed)

def step (s : Machine) : MachineEvent → Option Machine
  | .start pid job mask => if (s.writers pid).isSome then none else some (s.put pid (some ⟨job, mask, .making⟩))
  | .proceed pid size => (s.writers pid).map (s.proceed pid size)
  | .fail pid => (s.writers pid).bind (s.fail pid)
  | .kill pid => if (s.writers pid).isSome then some (s.put pid none) else none
  | .powerLoss back found => some ⟨s.files.powerLoss back found, fun _ => none⟩

end Machine

/-- What is written: targets, with what is good for them. -/
def Writes (G : Path → Bytes → Prop) : MachineEvent → Prop
  | .start _ job _ => IsTarget job.path ∧ G job.path job.data
  | _ => True

/-- Before the first process everything is on the disk; what others left beside targets may be there. -/
def Machine.Starts (G : Path → Bytes → Prop) (s : Machine) : Prop :=
  (∀ pid, s.writers pid = none) ∧ s.files.earlier = [] ∧ (∀ i, (s.files.file i).synced = true) ∧
    ∀ p f, IsTarget p → s.files.read p = some f → G p f.bytes

def machine (G : Path → Bytes → Prop) : LTS Machine MachineEvent :=
  (LTS.ofFn (Machine.Starts G) Machine.step).restrict fun _ => Writes G

/-! ## What holds in every run -/

/-- Where a process is with its file. -/
def Writer.Holds (files : Files Path) (pid : Nat) (w : Writer) : Prop :=
  match w.phase with
  | .writing i rest =>
    files.dir.entry (temporary w.job.path pid) = some i ∧ (files.file i).bytes ++ rest = w.job.data
  | .synced i =>
    files.dir.entry (temporary w.job.path pid) = some i ∧ (files.file i).bytes = w.job.data ∧
      (files.file i).synced = true
  | .ready i =>
    files.dir.entry (temporary w.job.path pid) = some i ∧ files.file i = ⟨w.job.data, w.job.mode, true⟩
  | _ => True

structure Machine.Inv (G : Path → Bytes → Prop) (s : Machine) : Prop where
  settled : Files.Settled IsTarget G s.files
  writers : ∀ pid w, s.writers pid = some w →
    IsTarget w.job.path ∧ G w.job.path w.job.data ∧ w.Holds s.files pid

/-- What a step is to the targets: nothing, the whole of one job, or a loss of power. -/
inductive Replacement (s : Machine) (l : MachineEvent) (t : Machine) : Prop
  | kept (targets : ∀ p, IsTarget p → s.files.SameAt t.files p)
      (held : Files.Keeps IsTarget s.files t.files)
      (renamed : ∀ pid w, t.writers pid = some w → w.phase = .renamed → s.writers pid = some w)
  | installed (pid : Nat) (w : Writer) (before : s.writers pid = some w) (unreported : w.phase ≠ .renamed)
      (after : t.writers pid = some { w with phase := .renamed })
      (read : t.files.read w.job.path = some ⟨w.job.data, w.job.mode, true⟩)
      (targets : ∀ p, IsTarget p → p ≠ w.job.path → s.files.SameAt t.files p)
      (held : Files.Keeps IsTarget s.files t.files)
  | lost (power : l.IsPowerLoss) (died : ∀ pid, t.writers pid = none)
      (back : ∀ p i, IsTarget p → t.files.dir.entry p = some i →
        Files.Held IsTarget s.files i ∧ (t.files.file i).bytes = (s.files.file i).bytes)

section
variable {G : Path → Bytes → Prop} {s t : Machine} {l : MachineEvent} {pid size : Nat} {w : Writer}

theorem Writer.Holds.frame {files files' : Files Path} (h : w.Holds files pid)
    (hs : files.SameAt files' (temporary w.job.path pid)) : w.Holds files' pid := by
  obtain ⟨job, mask, phase⟩ := w
  cases phase with
  | writing i rest =>
    obtain ⟨hi, hbytes⟩ := h
    exact ⟨hs.1.trans hi, by rw [hs.2 i hi]; exact hbytes⟩
  | synced i =>
    obtain ⟨hi, hfile⟩ := h
    exact ⟨hs.1.trans hi, by rw [hs.2 i hi]; exact hfile⟩
  | ready i =>
    obtain ⟨hi, hfile⟩ := h
    exact ⟨hs.1.trans hi, by rw [hs.2 i hi]; exact hfile⟩
  | _ => trivial

/-- The other processes are at other files. -/
theorem Machine.Inv.others (h : s.Inv G) {files : Files Path} (hsettled : files.Settled IsTarget G)
    (hsame : ∀ q i, i ≠ pid → s.files.SameAt files (temporary q i)) {next : Option Writer}
    (hnext : ∀ v, next = some v → IsTarget v.job.path ∧ G v.job.path v.job.data ∧ v.Holds files pid) :
    ({ s with files := files }.put pid next).Inv G := by
  refine ⟨hsettled, fun i v hv => ?_⟩
  by_cases hi : i = pid
  · subst hi
    exact hnext v ((Machine.put_self _ i next).symm.trans hv)
  · have hv' : s.writers i = some v := (Machine.put_of_ne hi).symm.trans hv
    obtain ⟨htarget, hgood, hholds⟩ := h.writers i v hv'
    exact ⟨htarget, hgood, hholds.frame (hsame _ _ hi)⟩

/-- Work beside the target is nothing to the targets. -/
theorem Machine.Inv.work (h : s.Inv G) (hw : s.writers pid = some w) {files : Files Path}
    (hfiles : files.Settled IsTarget G ∧ s.files.Keeps IsTarget files)
    (hsame : ∀ n, n ≠ temporary w.job.path pid → s.files.SameAt files n) {phase : WritePhase}
    (hphase : phase ≠ .renamed) (hholds : Writer.Holds files pid { w with phase := phase }) :
    (s.goOn pid w files phase).Inv G ∧ Replacement s l (s.goOn pid w files phase) := by
  obtain ⟨htarget, hgood, -⟩ := h.writers pid w hw
  refine ⟨h.others hfiles.1 (fun q i hi => hsame _ fun he => hi (temporary_inj he).2) fun v hv => ?_,
    .kept (fun p hp => hsame p (hp _ _)) hfiles.2 fun i v hv hr => ?_⟩
  · cases hv
    exact ⟨htarget, hgood, hholds⟩
  · by_cases hi : i = pid
    · subst hi
      cases (Machine.put_self { s with files := files } i (some { w with phase := phase })).symm.trans hv
      exact absurd hr hphase
    · exact (Machine.put_of_ne hi).symm.trans hv

/-- A process returns, or dies. -/
theorem Machine.Inv.leave (h : s.Inv G) {files : Files Path}
    (hfiles : files.Settled IsTarget G ∧ s.files.Keeps IsTarget files) (q : Path)
    (hsame : ∀ n, n ≠ temporary q pid → s.files.SameAt files n) :
    ({ s with files := files }.put pid none).Inv G ∧ Replacement s l ({ s with files := files }.put pid none) := by
  refine ⟨h.others hfiles.1 (fun q i hi => hsame _ fun he => hi (temporary_inj he).2) nofun,
    .kept (fun p hp => hsame p (hp _ _)) hfiles.2 fun i v hv _ => ?_⟩
  by_cases hi : i = pid
  · subst hi
    cases (Machine.put_self _ i _).symm.trans hv
  · exact (Machine.put_of_ne hi).symm.trans hv

theorem Machine.Inv.still (h : s.Inv G) : s.files.Settled IsTarget G ∧ s.files.Keeps IsTarget s.files :=
  ⟨h.settled, .refl _⟩

theorem not_isTarget_temporary (q : Path) (pid : Nat) : ¬ IsTarget (temporary q pid) := fun h => h q pid rfl

/-- The target is replaced. -/
theorem Machine.Inv.rename (h : s.Inv G) (hw : s.writers pid = some w) {i : Nat} (hphase : w.phase = .ready i)
    {files : Files Path} (hr : s.files.rename (temporary w.job.path pid) w.job.path = some files) :
    (s.goOn pid w files .renamed).Inv G ∧ Replacement s l (s.goOn pid w files .renamed) := by
  obtain ⟨htarget, hgood, hholds⟩ := h.writers pid w hw
  obtain ⟨hentry, hfile⟩ : s.files.dir.entry (temporary w.job.path pid) = some i ∧
      s.files.file i = ⟨w.job.data, w.job.mode, true⟩ := by
    unfold Writer.Holds at hholds
    rw [hphase] at hholds
    exact hholds
  have hfiles := h.settled.rename (not_isTarget_temporary _ _) htarget hentry (by rw [hfile]) (by rwa [hfile]) hr
  refine ⟨h.others hfiles.1 (fun q j hj => Files.rename_sameAt ?_ ?_ hr) fun v hv => ?_,
    .installed pid w hw (by rw [hphase]; exact nofun) (Machine.put_self ..) ?_
      (fun p hp hne => Files.rename_sameAt (hp _ _) hne hr) hfiles.2⟩
  · exact fun he => hj (temporary_inj he).2
  · exact fun he => htarget _ _ he.symm
  · cases hv
    exact ⟨htarget, hgood, trivial⟩
  · show files.read w.job.path = _
    rw [Files.rename_read hr, Files.read, hentry, Option.map_some, hfile]

/-- **A call that succeeds.** -/
theorem Machine.Inv.proceed (h : s.Inv G) (hw : s.writers pid = some w) :
    (s.proceed pid size w).Inv G ∧ Replacement s l (s.proceed pid size w) := by
  obtain ⟨htarget, hgood, hholds⟩ := h.writers pid w hw
  have hbeside := not_isTarget_temporary w.job.path pid
  unfold Machine.proceed
  unfold Writer.Holds at hholds
  split
  · exact h.work hw h.still (fun _ _ => .refl _ _) (by simp) trivial
  · exact h.work hw (h.settled.openNew hbeside _) (fun n hn => Files.openNew_sameAt hn _) (by simp)
      ⟨(s.files.openNew_entry _ _).1, by rw [(s.files.openNew_entry _ _).2]; rfl⟩
  · rename_i i hphase
    rw [hphase] at hholds
    obtain ⟨hentry, hbytes⟩ := hholds
    refine h.work hw (h.settled.setFile hbeside hentry _) (fun n hn => Files.setFile_sameAt hentry hn _) (by simp)
      ⟨hentry, ?_, ?_⟩
    · simpa [Files.sync, Files.setFile] using hbytes
    · simp [Files.setFile]
  · rename_i i rest _ hphase
    rw [hphase] at hholds
    obtain ⟨hentry, hbytes⟩ := hholds
    refine h.work hw (h.settled.setFile hbeside hentry _) (fun n hn => Files.setFile_sameAt hentry hn _) (by simp)
      ⟨hentry, ?_⟩
    simpa [Files.append, Files.setFile] using hbytes
  · rename_i i hphase
    rw [hphase] at hholds
    obtain ⟨hentry, hbytes, hsynced⟩ := hholds
    simp only [Files.chmod, hentry, Option.map_some]
    refine h.work hw (h.settled.setFile hbeside hentry _) (fun n hn => Files.setFile_sameAt hentry hn _) (by simp)
      ⟨hentry, ?_⟩
    simp [Files.setFile, hbytes, hsynced]
  · rename_i i hphase
    split
    · rename_i files hr
      exact h.rename hw hphase hr
    · exact h.work hw h.still (fun _ _ => .refl _ _) (by simp) trivial
  · exact h.leave h.still w.job.path fun _ _ => .refl _ _
  · cases hr : s.files.remove (temporary w.job.path pid) with
    | none => exact h.leave h.still w.job.path fun _ _ => .refl _ _
    | some files => exact h.leave (h.settled.remove hr) w.job.path fun n hn => Files.remove_sameAt hn hr

theorem Machine.Inv.fail (h : s.Inv G) (hw : s.writers pid = some w) (hf : s.fail pid w = some t) :
    t.Inv G ∧ Replacement s l t := by
  unfold Machine.fail at hf
  split at hf
  · cases hf
    exact h.leave h.still w.job.path fun _ _ => .refl _ _
  · cases hf
  · cases hf
    exact h.leave h.still w.job.path fun _ _ => .refl _ _
  · cases hf
    exact h.work hw h.still (fun _ _ => .refl _ _) (by simp) trivial

/-- **Every step** leaves the targets alone, replaces one, or is a loss of power. -/
theorem Machine.step_replaces (h : s.Inv G) (hl : Writes G l) (hst : s.step l = some t) :
    t.Inv G ∧ Replacement s l t := by
  cases l with
  | start pid job mask =>
    simp only [Machine.step] at hst
    split at hst
    · cases hst
    · cases hst
      refine ⟨h.others h.settled (fun _ _ _ => .refl _ _) fun v hv => ?_,
        .kept (fun _ _ => .refl _ _) (.refl _) fun i v hv hr => ?_⟩
      · cases hv
        exact ⟨hl.1, hl.2, trivial⟩
      · by_cases hi : i = pid
        · subst hi
          cases (Machine.put_self _ i _).symm.trans hv
          cases hr
        · exact (Machine.put_of_ne hi).symm.trans hv
  | proceed pid size =>
    obtain ⟨w, hw, rfl⟩ := Option.map_eq_some_iff.1 hst
    exact h.proceed hw
  | fail pid =>
    obtain ⟨w, hw, hf⟩ := Option.bind_eq_some_iff.1 hst
    exact h.fail hw hf
  | kill pid =>
    simp only [Machine.step] at hst
    split at hst
    · cases hst
      exact h.leave h.still ⟨[], []⟩ fun _ _ => .refl _ _
    · cases hst
  | powerLoss back found =>
    cases hst
    obtain ⟨hsettled, hback⟩ := h.settled.powerLoss back found
    exact ⟨⟨hsettled, nofun⟩, .lost trivial (fun _ => rfl) hback⟩

theorem machine_inductive : (machine G).Inductive (Machine.Inv G) where
  init s h := by
    obtain ⟨hnone, hearlier, hsynced, hgood⟩ := h
    refine ⟨⟨fun i _ => hsynced i, fun d hd p i hp hi => ?_, fun i hi q hq hqi => ?_⟩, fun pid w hw => ?_⟩
    · rw [hearlier, List.mem_singleton] at hd
      subst hd
      exact hgood p (s.files.file i) hp (by rw [Files.read, hi]; rfl)
    · obtain ⟨d, hd, p, hp, hpi⟩ := hi
      rw [hearlier, List.mem_singleton] at hd
      subst hd
      exact hq (s.files.dir.single p q i hpi hqi ▸ hp)
    · cases (hnone pid).symm.trans hw
  step s l t h hst := (Machine.step_replaces h hst.2 hst.1).1

/-- As long as there is power, an open target stays as it is. -/
theorem run_keeps {ls : List MachineEvent} (h : s.Inv G)
    (hrun : (machine G).Run s ls t) (hl : ∀ l ∈ ls, ¬ l.IsPowerLoss) : s.files.Keeps IsTarget t.files := by
  induction hrun with
  | nil => exact .refl _
  | @cons s t r l ls hst _ ih =>
    obtain ⟨ht, hreplaces⟩ := Machine.step_replaces h hst.2 hst.1
    have hkeeps : s.files.Keeps IsTarget t.files := by
      cases hreplaces with
      | kept _ held _ => exact held
      | installed _ _ _ _ _ _ _ held => exact held
      | lost power _ _ => exact absurd power (hl l List.mem_cons_self)
    exact hkeeps.trans (ih ht fun l hl' => hl l (List.mem_cons_of_mem _ hl'))

/-- **A target is replaced as a whole.** However processes interleave, fail, are killed, or lose
power, what is under a target is good; a step leaves all targets alone, or gives one the data and
the mode of a job, whose process has not returned, or goes back to a directory of before. -/
theorem atomic_write (hr : (machine G).Reachable s) :
    (∀ p f, IsTarget p → s.files.read p = some f → G p f.bytes) ∧
      ∀ l t, (machine G).step s l t → Replacement s l t := by
  have h := machine_inductive.reachable s hr
  refine ⟨fun p f hp hf => ?_, fun l t hst => (Machine.step_replaces h hst.2 hst.1).2⟩
  obtain ⟨i, hi, rfl⟩ := Option.map_eq_some_iff.1 hf
  exact h.settled.good _ List.mem_cons_self p i hp hi

end

def emptyMachine : Machine where
  files := ⟨⟨fun _ => none, nofun⟩, [], fun _ => ⟨[], 0, true⟩, 0, by simp⟩
  writers _ := none

theorem emptyMachine_starts (G : Path → Bytes → Prop) : Machine.Starts G emptyMachine :=
  ⟨fun _ => rfl, rfl, fun _ => rfl, nofun⟩

def aTarget : Path := ⟨[], ['f']⟩

/-- Two processes are at one target; each has a part of its file when the other is at work. -/
def twoWriters : List MachineEvent := [
  .start 1 ⟨aTarget, [1, 2], 0o600⟩ 0o644, .start 2 ⟨aTarget, [3], 0o600⟩ 0o644,
  .proceed 1 0, .proceed 2 0, .proceed 1 0, .proceed 2 0, .proceed 1 0, .proceed 2 0, .proceed 2 0, .proceed 2 0,
  .proceed 2 0, .proceed 1 0, .proceed 1 0, .proceed 1 0]

/-- The first one finishes after the second. -/
theorem twoWriters_replaced : ∃ s t : Machine, LTS.exec Machine.step emptyMachine twoWriters = some s ∧
    s.files.read aTarget = some ⟨[3], 0o600, true⟩ ∧ s.step (.proceed 1 0) = some t ∧
    t.files.read aTarget = some ⟨[1, 2], 0o600, true⟩ ∧ Replacement s (.proceed 1 0) t := by
  have hexec : ((LTS.exec Machine.step emptyMachine twoWriters).bind fun s => (s.step (.proceed 1 0)).map fun t =>
      (s.files.read aTarget, t.files.read aTarget)) =
        some (some ⟨[3], 0o600, true⟩, some ⟨[1, 2], 0o600, true⟩) := by decide +kernel
  obtain ⟨s, hs, hexec⟩ := Option.bind_eq_some_iff.1 hexec
  obtain ⟨t, ht, hexec⟩ := Option.map_eq_some_iff.1 hexec
  obtain ⟨hread, hread'⟩ := Prod.mk.inj hexec
  have htarget : IsTarget aTarget := isTarget_of_name (by decide)
  have hwrites (l : MachineEvent) (hl : l ∈ twoWriters) : Writes (fun _ data => data ∈ [[1, 2], [3]]) l := by
    simp only [twoWriters, List.mem_cons, List.not_mem_nil, or_false] at hl
    rcases hl with rfl | rfl | hl
    · exact ⟨htarget, by decide⟩
    · exact ⟨htarget, by decide⟩
    · rcases hl with rfl | rfl | rfl | rfl | rfl | rfl | rfl | rfl | rfl | rfl | rfl | rfl <;> trivial
  have hreach : (machine fun _ data => data ∈ [[1, 2], [3]]).Reachable s :=
    ⟨emptyMachine, twoWriters, emptyMachine_starts _,
      (LTS.run_of_exec hs).mono fun _ l _ hl hst => ⟨hst, hwrites l hl⟩⟩
  exact ⟨s, t, hs, hread, ht, hread', (atomic_write hreach).2 _ t ⟨ht, trivial⟩⟩

/-! ## The configuration of frps -/

/-- mirrors crates/frp-game-server/src/app.rs:295-297 -/
def frpsConfigFile (configDir : Str) : Path := ⟨configDir, "frps.toml".toList⟩

/-- mirrors crates/frp-game-server/src/app.rs:1488-1489 -/
def frpsJob (J : SerdeJson) (configDir : Str) (c : ServerConfig) : Job :=
  ⟨frpsConfigFile configDir, utf8 (frpsContent J c), 0o600⟩

/-- What is under `frps.toml` is the configuration of frps for some configuration. -/
def FrpsWritten (J : SerdeJson) (configDir : Str) (p : Path) (data : Bytes) : Prop :=
  p = frpsConfigFile configDir → ∃ c, data = (frpsJob J configDir c).data

theorem frpsConfigFile_isTarget (configDir : Str) : IsTarget (frpsConfigFile configDir) :=
  isTarget_of_name (show "frps.toml".toList.head? ≠ some '.' by decide)

/-- **What frps reads.** Whoever opens `frps.toml` has the whole of the configuration of frps for
one configuration, to the end of reading it, whatever is written, renamed or removed meanwhile. -/
theorem frps_reads {J : SerdeJson} {configDir : Str} {s t : Machine} {ls : List MachineEvent} {i : Nat}
    (hr : (machine (FrpsWritten J configDir)).Reachable s)
    (hi : s.files.dir.entry (frpsConfigFile configDir) = some i)
    (hrun : (machine (FrpsWritten J configDir)).Run s ls t) (hl : ∀ l ∈ ls, ¬ l.IsPowerLoss) :
    t.files.file i = s.files.file i ∧ ∃ c, (t.files.file i).bytes = utf8 (frpsContent J c) := by
  have h := machine_inductive.reachable s hr
  have htarget := frpsConfigFile_isTarget configDir
  have hsame := (run_keeps h hrun hl i (.now htarget hi)).2
  obtain ⟨c, hc⟩ := h.settled.good _ List.mem_cons_self _ i htarget hi rfl
  exact ⟨hsame, c, by rw [hsame, hc]; rfl⟩

/-- The calls of one process from first to last. -/
def writesConfig (J : SerdeJson) (pid : Nat) (c : ServerConfig) : List MachineEvent :=
  .start pid (frpsJob J [] c) 0o600 :: List.replicate 6 (.proceed pid 10000)

theorem writesConfig_writes {J : SerdeJson} {pid : Nat} {c : ServerConfig} {l : MachineEvent}
    (hl : l ∈ writesConfig J pid c) : Writes (FrpsWritten J []) l ∧ ¬ l.IsPowerLoss := by
  rcases List.mem_cons.1 hl with rfl | hl
  · exact ⟨⟨frpsConfigFile_isTarget _, fun _ => ⟨c, rfl⟩⟩, id⟩
  · obtain ⟨-, rfl⟩ := List.mem_replicate.1 hl
    exact ⟨trivial, id⟩

/-- The file is open when another one takes its place. -/
theorem configs_read : ∃ s t : Machine,
    LTS.exec Machine.step emptyMachine (writesConfig ⟨some⟩ 1 (sampleConfig [])) = some s ∧
      LTS.exec Machine.step s (writesConfig ⟨some⟩ 2 { sampleConfig [] with frpsToken := ['x'] }) = some t ∧
      s.files.dir.entry (frpsConfigFile []) = some 0 ∧ t.files.dir.entry (frpsConfigFile []) = some 1 ∧
      t.files.file 0 = s.files.file 0 ∧ ∃ c, (t.files.file 0).bytes = utf8 (frpsContent ⟨some⟩ c) := by
  have hexec : ((LTS.exec Machine.step emptyMachine (writesConfig ⟨some⟩ 1 (sampleConfig []))).bind fun s =>
      (LTS.exec Machine.step s (writesConfig ⟨some⟩ 2 { sampleConfig [] with frpsToken := ['x'] })).map fun t =>
        (s.files.dir.entry (frpsConfigFile []), t.files.dir.entry (frpsConfigFile []))) =
      some (some 0, some 1) := by decide +kernel
  obtain ⟨s, hs, hexec⟩ := Option.bind_eq_some_iff.1 hexec
  obtain ⟨t, ht, hexec⟩ := Option.map_eq_some_iff.1 hexec
  obtain ⟨hfirst, hsecond⟩ := Prod.mk.inj hexec
  have hreach : (machine (FrpsWritten ⟨some⟩ [])).Reachable s :=
    ⟨emptyMachine, _, emptyMachine_starts _,
      (LTS.run_of_exec hs).mono fun _ _ _ hl hst => ⟨hst, (writesConfig_writes hl).1⟩⟩
  have hsteps : (LTS.ofFn (Machine.Starts (FrpsWritten ⟨some⟩ [])) Machine.step).Run s _ t := LTS.run_of_exec ht
  have hrun : (machine (FrpsWritten ⟨some⟩ [])).Run s _ t :=
    hsteps.mono fun _ _ _ hl hst => ⟨hst, (writesConfig_writes hl).1⟩
  exact ⟨s, t, hs, ht, hfirst, hsecond, frps_reads hreach hfirst hrun fun _ hl => (writesConfig_writes hl).2⟩

end OrangeFrp.App
