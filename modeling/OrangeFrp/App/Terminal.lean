import OrangeFrp.App.Prompts
import OrangeFrp.App.Site

/-!
# Administrators at work (`frp-game-server/src/app.rs`)

Any number of menus and of single commands are open on one site at one time. Each reads the
configuration, asks what it has to ask, and saves; meanwhile the others do the same, and the service
serves, flushes and restarts. An item of the menu that fails leaves the menu open; the menu is left
at `0`, when the update is done, or when nothing more can be read. What the update does is left out,
and a run ends where the server is uninstalled.

* `Site.step_onward`: what is stored goes on at every event of the site.
* `Desk.step_moved`: what a step is on the site.
* `terminals_administer`: every run.
-/
namespace OrangeFrp.App

open OrangeFrp.Core OrangeFrp.Storage OrangeFrp.Controller

/-! ## The menu -/

/-- mirrors crates/frp-game-server/src/app.rs:1371-1401 -/
inductive Choice where
  | run (cli : Commands)
  | checkUpdate
  | uninstall
  | leave
  | invalid

/-- mirrors crates/frp-game-server/src/app.rs:1371-1401 -/
def Choice.of (choice : Str) : Choice :=
  if choice = ['1'] then .run (.addUser none none none none none)
  else if choice = ['2'] then .run .viewUsers
  else if choice = ['3'] then .run .deleteUser
  else if choice = ['4'] then .run (.viewTraffic none)
  else if choice = ['5'] then .run (.setTrafficLimit none none)
  else if choice = ['6'] then .run (.setTrafficUsed none none)
  else if choice = ['7'] then .run (.setSpeedLimit none none)
  else if choice = ['8'] then .run (.setTunnelLimit none none)
  else if choice = ['9'] then .checkUpdate
  else if choice = ['1', '0'] then .uninstall
  else if choice = ['0'] ∨ choice = ['q'] ∨ choice = ['Q'] then .leave
  else .invalid

/-- mirrors crates/frp-game-server/src/app.rs:1345-1351 -/
def pause : Dialog Typed String Unit :=
  .of fun typed =>
    match typed.lines with
    | [] => (.ok (), typed)
    | none :: lines => (.error "stream did not contain valid UTF-8", { typed with lines := lines })
    | some _ :: lines => (.ok (), { typed with lines := lines })

/-- What `command_check_update` asks, and whether the update has been made.
mirrors crates/frp-game-server/src/app.rs:677-731 -/
def checkUpdate (newer installed : Bool) : Dialog Typed String Bool := do
  if newer then
    let yes ← confirmed
    return yes && installed
  else return false

/-! ## The desk -/

/-- A command that has read the configuration. -/
structure Asking where
  cli : Commands
  ofMenu : Bool
  typed : Typed

/-- `site.commands` is what the commands of `asking` have read. -/
structure Desk (τ : Type) where
  site : Site τ
  menus : List Typed
  asking : List Asking

inductive DeskEvent where
  | menu (typed : Typed)
  | shell (cli : Commands) (typed : Typed) (e : Entropy)
  | choose (position : Nat) (newer installed : Bool) (e : Entropy)
  | answer (position : Nat) (secret : Str) (now : Int) (drawn e : Entropy)
  | other (event : SiteEvent)

/-- An event that is not of a command that reads the configuration before it saves; `create`
is the save of `init` and `setup` where nothing is stored yet. -/
def SiteEvent.foreign : SiteEvent → Bool
  | .commandRead _ => false
  | .commandSave .. => false
  | _ => true

section
variable {τ : Type} [Double τ] (P : Primitives) (parseF64 : Str → Option Float)

/-- The menu after an item, when it can be read on. -/
def Desk.back (d : Desk τ) (ofMenu : Bool) (typed : Typed) : Desk τ :=
  if ofMenu then
    match pause.on typed with
    | (.ok (), rest) => { d with menus := rest :: d.menus }
    | (.error _, _) => d
  else d

/-- A command up to its first question. -/
def Desk.start (d : Desk τ) (cli : Commands) (ofMenu : Bool) (typed : Typed) (e : Entropy) : Desk τ :=
  match cli.before.on typed with
  | (.ok true, rest) =>
    match Storage.read P d.site.disk e with
    | (disk, .ok (c, _)) =>
      { d with
        site := { d.site with disk := disk, commands := c :: d.site.commands }
        asking := ⟨cli, ofMenu, rest⟩ :: d.asking }
    | (disk, .error _) => { d with site := { d.site with disk := disk } }.back ofMenu rest
  | (_, rest) => d.back ofMenu rest

/-- mirrors crates/frp-game-server/src/app.rs:1353-1407 -/
def Desk.choose (d : Desk τ) (typed : Typed) (newer installed : Bool) (e : Entropy) : Option (Desk τ) :=
  match promptNonEmpty.on typed with
  | (.error _, _) => some d
  | (.ok choice, rest) =>
    match Choice.of choice with
    | .run cli => some (d.start P cli true rest e)
    | .checkUpdate =>
      match (checkUpdate newer installed).on rest with
      | (.ok true, _) => some d
      | (_, rest) => some (d.back true rest)
    | .uninstall =>
      match confirmed.on rest with
      | (.ok true, _) => none
      | (.ok false, rest) => some (d.back true rest)
      | (.error _, _) => some d
    | .leave => some d
    | .invalid => some (d.back true rest)

/-- The questions of a command, and what it saves. -/
def Desk.answer (d : Desk τ) (position : Nat) (secret : Str) (now : Int) (drawn e : Entropy) : Option (Desk τ) := do
  let asking ← d.asking[position]?
  let c ← d.site.commands[position]?
  let (result, rest) := (asking.cli.dialog parseF64 c secret).on asking.typed
  let d := { d with asking := d.asking.eraseIdx position }
  match result with
  | .ok (some command) =>
    let site ← Site.step P d.site (.commandSave position command now drawn e)
    some ({ d with site := site }.back asking.ofMenu rest)
  | _ =>
    let site := { d.site with commands := d.site.commands.eraseIdx position }
    some ({ d with site := site }.back asking.ofMenu rest)

def Desk.step (d : Desk τ) : DeskEvent → Option (Desk τ)
  | .menu typed => some { d with menus := typed :: d.menus }
  | .shell cli typed e => some (d.start P cli false typed e)
  | .choose position newer installed e => do
    let typed ← d.menus[position]?
    { d with menus := d.menus.eraseIdx position }.choose P typed newer installed e
  | .answer position secret now drawn e => d.answer P parseF64 position secret now drawn e
  | .other event =>
    if event.foreign then do
      let site ← Site.step P d.site event
      some { d with site := site }
    else none

def desk : LTS (Desk τ) DeskEvent :=
  .ofFn (fun d => (d.site.disk.db.settings = none ∧ d.site.commands = [] ∧ d.site.server = none) ∧
    d.menus = [] ∧ d.asking = []) (Desk.step P parseF64)

end

/-! ## Revisions -/

/-- A later state of a database: as long as the revision is below `i64::MAX`, where it stays, it
has risen, or nothing but passwords has been recovered. -/
def Onward (db db' : Db) : Prop :=
  ∀ s, db.settings = some s → ∃ s', db'.settings = some s' ∧
    (s'.revision < I64_MAX → s.revision ≤ s'.revision ∧ (s'.revision = s.revision → SameButPasswords db db'))

section
variable {P : Primitives} {db db' db'' : Db} {disk disk' : Disk} {c : ServerConfig} {e : Entropy}

theorem onward_of_same (h : SameButPasswords db db') : Onward db db' :=
  fun s hs => ⟨s, h.settings.trans hs, fun _ => ⟨le_refl _, fun _ => h⟩⟩

theorem Onward.refl (db : Db) : Onward db db := onward_of_same (.refl db)

theorem Onward.trans (h : Onward db db') (h' : Onward db' db'') : Onward db db'' := by
  intro s hs
  obtain ⟨s', hs', hnext⟩ := h s hs
  obtain ⟨s'', hs'', hnext'⟩ := h' s' hs'
  refine ⟨s'', hs'', fun hlt => ?_⟩
  obtain ⟨hle', hsame'⟩ := hnext' hlt
  obtain ⟨hle, hsame⟩ := hnext (by omega)
  exact ⟨by omega, fun heq => (hsame (by omega)).trans (hsame' (by omega))⟩

theorem initialize_onward {e' : Entropy} (h : initializeStore P disk e = .ok (disk', e')) :
    Onward disk.db disk'.db :=
  fun s hs => onward_of_same (initializeStore_initialized hs h).1 s hs

theorem read_onward (P : Primitives) (disk : Disk) (e : Entropy) :
    Onward disk.db (Storage.read P disk e).1.db := by
  unfold Storage.read
  split
  · exact .refl _
  · rename_i hi
    exact initialize_onward hi

/-- What is saved has the revision that is stored. -/
theorem save_current {stored : ServerConfig × Entropy} {s : SettingsRow} (hset : disk.db.settings = some s)
    (h : save P disk c e = (disk', .ok stored)) : s.revision = c.revision := by
  obtain ⟨disk₁, e₁, hsaved⟩ := save_saved h
  obtain ⟨s₁, hs₁, hrev⟩ := hsaved.current
  have hsame := (initializeStore_initialized hset hsaved.initialized).1.settings
  obtain rfl : s₁ = s := Option.some.inj (hs₁.symm.trans (hsame.trans hset))
  exact hrev

theorem save_onward (P : Primitives) (disk : Disk) (c : ServerConfig) (e : Entropy) :
    Onward disk.db (save P disk c e).1.db := by
  intro s hs
  rcases hsave : save P disk c e with ⟨disk', _ | ⟨c', e'⟩⟩
  · exact onward_of_same (save_error hs hsave).1 s hs
  · have hrev := save_current hs hsave
    obtain ⟨disk₁, e₁, hsaved⟩ := save_saved hsave
    obtain ⟨c₁, -, rfl⟩ := hsaved.normalized
    refine ⟨_, hsaved.holds.settings, fun hlt => ?_⟩
    have hlt : min (c.revision + 1) I64_MAX < I64_MAX := hlt
    have hrisen :
        (SettingsRow.of { c₁ with revision := nextRevision c.revision }).revision = s.revision + 1 := by
      show min (c.revision + 1) I64_MAX = s.revision + 1
      omega
    exact ⟨by omega, fun heq => by omega⟩

theorem create_onward (P : Primitives) (disk : Disk) (c : ServerConfig) (e : Entropy) :
    Onward disk.db (create P disk c e).1.db := by
  intro s hs
  have hinit : isInitialized disk = true := by simp [isInitialized, hs]
  rw [create, hinit, if_pos rfl]
  exact Onward.refl _ s hs

end

section
variable {τ : Type} [Double τ] {P : Primitives} {s t : Site τ} {event : SiteEvent}

theorem saveTunnels_onward {s : Server τ} {i : Nat} {a : ServerUser} {env : Env}
    (submitted : Option (List Tunnel)) :
    Onward s.disk.db (saveTunnels P s i a submitted env).1.disk.db := by
  have hfirst {ts : List Tunnel} {disk : Disk} {r : Except String (ServerConfig × Entropy)}
      (h : save P s.disk (candidate s.config i a ts env.now) env.first = (disk, r)) :
      Onward s.disk.db disk.db := by
    have := save_onward P s.disk (candidate s.config i a ts env.now) env.first
    rwa [h] at this
  rcases @saveTunnels_cases τ _ P s i a env submitted with
    h | ⟨ts, disk, error, -, hs, h⟩ | ⟨ts, disk, stored, ⟨-, e', hs⟩, h, -⟩ |
      ⟨ts, disk, stored, k, error, ⟨-, e', hs⟩, -, -, h⟩
  · rw [h]
    exact .refl _
  · rw [h]
    exact hfirst hs
  · rw [h]
    exact hfirst hs
  · rw [h]
    refine (hfirst hs).trans ?_
    have hsecond := save_onward P disk { s.config with revision := stored.revision } env.second
    unfold rollback
    dsimp only
    split
    · rename_i hr
      rwa [hr] at hsecond
    · rename_i hr
      rwa [hr] at hsecond

theorem flushPending_onward (disk : Disk) (c : ServerConfig) (pending : Pending) (e : Entropy) :
    Onward disk.db (flushPending P disk c pending e).1.db := by
  have hsave := save_onward P disk (accounted c pending) e
  rcases flushPending_cases (P := P) disk c pending e with
    ⟨-, h⟩ | ⟨disk', error, hs, h⟩ | ⟨disk', stored, e', -, hs, h⟩
  · rw [h]
    exact .refl _
  · rw [h]
    rwa [hs] at hsave
  · rw [h]
    rwa [hs] at hsave

/-- **What is stored goes on** at every event of a site. -/
theorem Site.step_onward (h : Site.step P s event = some t) : Onward s.disk.db t.disk.db := by
  cases event with
  | initializeStore e =>
    simp only [Site.step] at h
    split at h
    · rename_i hi
      cases h
      exact initialize_onward hi
    · cases h
      exact .refl _
  | create new now e =>
    cases h
    exact create_onward P s.disk _ e
  | commandRead e =>
    have hread := read_onward P s.disk e
    simp only [Site.step] at h
    split at h
    all_goals
      rename_i hr
      cases h
      rwa [hr] at hread
  | commandSave position command now drawn e =>
    obtain ⟨c, -, h⟩ := Option.bind_eq_some_iff.1 h
    dsimp only at h
    split at h
    · cases h
      exact .refl _
    · cases h
      exact save_onward _ _ _ _
  | serve apiOnly world e =>
    have hread := read_onward P s.disk e
    simp only [Site.step] at h
    split at h
    · cases h
    split at h
    all_goals
      rename_i hr
      cases h
      rwa [hr] at hread
  | request userIndex action env =>
    obtain ⟨server, -, h⟩ := Option.bind_eq_some_iff.1 h
    obtain ⟨current, -, h⟩ := Option.bind_eq_some_iff.1 h
    cases h
    cases action with
    | list => exact .refl _
    | save submitted => exact saveTunnels_onward (s := ⟨s.disk, server.config, server.controller⟩) submitted
    | unknown => exact .refl _
  | flush pending e =>
    obtain ⟨server, -, h⟩ := Option.bind_eq_some_iff.1 h
    cases h
    exact flushPending_onward _ _ _ _
  | stop =>
    cases h
    exact .refl _

end

/-! ## What a step does to the site -/

section
variable {τ : Type} [Double τ] {P : Primitives} {parseF64 : Str → Option Float} {d d' : Desk τ} {l : DeskEvent}

/-- A step of a command or of a menu. -/
inductive Moved (P : Primitives) (parseF64 : Str → Option Float) (l : DeskEvent) (site : Site τ)
    (asking : List Asking) : Site τ → List Asking → Prop
  | still : Moved P parseF64 l site asking site asking
  | refused {e : Entropy} {disk : Disk} {error : String} (hread : Storage.read P site.disk e = (disk, .error error)) :
    Moved P parseF64 l site asking { site with disk := disk } asking
  | read {e e' : Entropy} {disk : Disk} {c : ServerConfig} (a : Asking)
      (hread : Storage.read P site.disk e = (disk, .ok (c, e'))) :
    Moved P parseF64 l site asking { site with disk := disk, commands := c :: site.commands } (a :: asking)
  | dropped {position : Nat} {a : Asking} {c : ServerConfig} (ha : asking[position]? = some a)
      (hc : site.commands[position]? = some c) :
    Moved P parseF64 l site asking { site with commands := site.commands.eraseIdx position }
      (asking.eraseIdx position)
  | saved {position : Nat} {a : Asking} {c : ServerConfig} {secret : Str} {command : Command} {rest : Typed}
      {now : Int} {drawn e : Entropy} {site' : Site τ} (hl : l = .answer position secret now drawn e)
      (ha : asking[position]? = some a) (hc : site.commands[position]? = some c)
      (hdialog : (a.cli.dialog parseF64 c secret).on a.typed = (.ok (some command), rest))
      (hsave : Site.step P site (.commandSave position command now drawn e) = some site') :
    Moved P parseF64 l site asking site' (asking.eraseIdx position)

omit [Double τ] in
theorem Desk.back_same (d : Desk τ) (ofMenu : Bool) (typed : Typed) :
    (d.back ofMenu typed).site = d.site ∧ (d.back ofMenu typed).asking = d.asking := by
  unfold Desk.back
  split
  · split
    · exact ⟨rfl, rfl⟩
    · exact ⟨rfl, rfl⟩
  · exact ⟨rfl, rfl⟩

theorem Desk.start_moved (d : Desk τ) (cli : Commands) (ofMenu : Bool) (typed : Typed) (e : Entropy) :
    Moved P parseF64 l d.site d.asking (d.start P cli ofMenu typed e).site
      (d.start P cli ofMenu typed e).asking := by
  unfold Desk.start
  split
  · split
    · rename_i hread
      exact .read _ hread
    · rename_i disk _ hread
      obtain ⟨hsite, hasking⟩ := Desk.back_same { d with site := { d.site with disk := disk } } ofMenu _
      rw [hsite, hasking]
      exact .refused hread
  · obtain ⟨hsite, hasking⟩ := Desk.back_same d ofMenu _
    rw [hsite, hasking]
    exact .still

theorem Desk.back_moved {site : Site τ} {asking : List Asking} (ofMenu : Bool) (typed : Typed)
    (h : Moved P parseF64 l site asking d.site d.asking) :
    Moved P parseF64 l site asking (d.back ofMenu typed).site (d.back ofMenu typed).asking := by
  obtain ⟨hsite, hasking⟩ := Desk.back_same d ofMenu typed
  rw [hsite, hasking]
  exact h

theorem Desk.choose_moved {typed : Typed} {newer installed : Bool} {e : Entropy}
    (h : d.choose P typed newer installed e = some d') : Moved P parseF64 l d.site d.asking d'.site d'.asking := by
  unfold Desk.choose at h
  split at h
  · cases h
    exact .still
  split at h
  · cases h
    exact Desk.start_moved ..
  · split at h
    · cases h
      exact .still
    · cases h
      exact Desk.back_moved true _ .still
  · split at h
    · cases h
    · cases h
      exact Desk.back_moved true _ .still
    · cases h
      exact .still
  · cases h
    exact .still
  · cases h
    exact Desk.back_moved true _ .still

theorem Desk.answer_moved {position : Nat} {secret : Str} {now : Int} {drawn e : Entropy}
    (h : d.answer P parseF64 position secret now drawn e = some d') :
    Moved P parseF64 (.answer position secret now drawn e) d.site d.asking d'.site d'.asking := by
  obtain ⟨a, ha, h⟩ := Option.bind_eq_some_iff.1 h
  obtain ⟨c, hc, h⟩ := Option.bind_eq_some_iff.1 h
  rcases hdialog : (a.cli.dialog parseF64 c secret).on a.typed with ⟨_ | _ | command, rest⟩
  · rw [hdialog] at h
    cases h
    exact Desk.back_moved a.ofMenu rest (.dropped ha hc)
  · rw [hdialog] at h
    cases h
    exact Desk.back_moved a.ofMenu rest (.dropped ha hc)
  · rw [hdialog] at h
    obtain ⟨site, hsave, h⟩ := Option.bind_eq_some_iff.1 h
    cases h
    exact Desk.back_moved a.ofMenu rest (.saved rfl ha hc hdialog hsave)

/-- **What a step can be.** -/
theorem Desk.step_moved (h : Desk.step P parseF64 d l = some d') :
    (∃ event, l = .other event ∧ event.foreign = true ∧ Site.step P d.site event = some d'.site ∧
      d'.asking = d.asking) ∨
    (∀ event, l ≠ .other event) ∧ Moved P parseF64 l d.site d.asking d'.site d'.asking := by
  cases l with
  | menu typed =>
    cases h
    exact .inr ⟨by simp, .still⟩
  | shell cli typed e =>
    cases h
    exact .inr ⟨by simp, Desk.start_moved d cli false typed e⟩
  | choose position newer installed e =>
    obtain ⟨typed, -, h⟩ := Option.bind_eq_some_iff.1 h
    exact .inr ⟨by simp, Desk.choose_moved (d := { d with menus := d.menus.eraseIdx position }) h⟩
  | answer position secret now drawn e => exact .inr ⟨by simp, Desk.answer_moved h⟩
  | other event =>
    simp only [Desk.step] at h
    split at h
    · rename_i hforeign
      obtain ⟨site, hsite, h⟩ := Option.bind_eq_some_iff.1 h
      cases h
      exact .inl ⟨event, rfl, hforeign, hsite, rfl⟩
    · cases h

theorem foreign_commands {s t : Site τ} {event : SiteEvent} (hf : event.foreign = true)
    (h : Site.step P s event = some t) : t.commands = s.commands := by
  cases event with
  | initializeStore e =>
    simp only [Site.step] at h
    split at h
    all_goals
      cases h
      rfl
  | create new now e =>
    cases h
    rfl
  | commandRead e => cases hf
  | commandSave position command now drawn e => cases hf
  | serve apiOnly world e =>
    simp only [Site.step] at h
    split at h
    · cases h
    split at h
    all_goals
      cases h
      rfl
  | request userIndex action env =>
    obtain ⟨server, -, h⟩ := Option.bind_eq_some_iff.1 h
    obtain ⟨current, -, h⟩ := Option.bind_eq_some_iff.1 h
    cases h
    rfl
  | flush pending e =>
    obtain ⟨server, -, h⟩ := Option.bind_eq_some_iff.1 h
    cases h
    rfl
  | stop =>
    cases h
    rfl

end

/-! ## What a command has read -/

section
variable {τ : Type} [Double τ] {P : Primitives} {parseF64 : Str → Option Float} {d d' : Desk τ} {l : DeskEvent}

/-- The configuration was read, and the database has gone on since. -/
def ReadBefore (P : Primitives) (c : ServerConfig) (db : Db) : Prop :=
  ∃ disk e disk' e', Storage.read P disk e = (disk', .ok (c, e')) ∧ Onward disk'.db db

theorem read_revision {disk disk' : Disk} {e e' : Entropy} {c : ServerConfig}
    (h : Storage.read P disk e = (disk', .ok (c, e'))) :
    ∃ s, disk'.db.settings = some s ∧ s.revision = c.revision := by
  unfold Storage.read at h
  split at h
  · cases h
  rename_i disk₁ e₁ hi
  rw [Prod.mk.injEq] at h
  obtain ⟨rfl, h⟩ := h
  obtain ⟨c₁, hl, h⟩ := bind_eq_ok.1 h
  obtain ⟨normalized, hn, h⟩ := bind_eq_ok.1 h
  cases h
  unfold loadConfig at hl
  split at hl
  · cases hl
  · rename_i s hs
    cases hl
    exact ⟨s, hs, (congrArg ServerConfig.revision (normalize_valid P hn).2).symm⟩

theorem ReadBefore.onward {c : ServerConfig} {db db' : Db} (h : ReadBefore P c db) (hnext : Onward db db') :
    ReadBefore P c db' := by
  obtain ⟨disk, e, disk', e', hread, honward⟩ := h
  exact ⟨disk, e, disk', e', hread, honward.trans hnext⟩

structure Desk.Kept (P : Primitives) (d : Desk τ) : Prop where
  site : (App.site P).Reachable d.site
  aligned : d.asking.length = d.site.commands.length
  read : ∀ c ∈ d.site.commands, ReadBefore P c d.site.disk.db

/-- Dropping a command is, on the site, a command that cannot be applied. -/
theorem drop_step {s : Site τ} {position : Nat} {c : ServerConfig} (h : s.commands[position]? = some c)
    (e : Entropy) :
    Site.step P s (.commandSave position (.deleteUser c.users.length) 0 e e) =
      some { s with commands := s.commands.eraseIdx position } := by
  have hfails : Command.apply P c 0 e (.deleteUser c.users.length) = .error "index out of bounds" := by
    simp [Command.apply, commandDeleteUser]
  simp [Site.step, h, hfails]

theorem Desk.Kept.step (hd : d.Kept P) (h : Desk.step P parseF64 d l = some d') : d'.Kept P := by
  rcases Desk.step_moved h with ⟨event, -, hforeign, hsite, hasking⟩ | ⟨-, hmoved⟩
  · have hcommands := foreign_commands hforeign hsite
    refine ⟨hd.site.step hsite, ?_, fun c hc => ?_⟩
    · rw [hasking, hcommands]
      exact hd.aligned
    · exact (hd.read c (hcommands ▸ hc)).onward (Site.step_onward hsite)
  · have herase {position : Nat} :
        (d.asking.eraseIdx position).length = (d.site.commands.eraseIdx position).length := by
      rw [List.length_eraseIdx, List.length_eraseIdx, hd.aligned]
    obtain ⟨site', menus', asking'⟩ := d'
    dsimp only at hmoved
    cases hmoved with
    | still => exact ⟨hd.site, hd.aligned, hd.read⟩
    | @refused e disk error hread =>
      have hstep : Site.step P d.site (.commandRead e) = some { d.site with disk := disk } := by
        simp [Site.step, hread]
      exact ⟨hd.site.step hstep, hd.aligned, fun c hc => (hd.read c hc).onward (Site.step_onward hstep)⟩
    | @read e e' disk c a hread =>
      have hstep : Site.step P d.site (.commandRead e) =
          some { d.site with disk := disk, commands := c :: d.site.commands } := by
        simp [Site.step, hread]
      refine ⟨hd.site.step hstep, congrArg (· + 1) hd.aligned, fun k hk => ?_⟩
      rcases List.mem_cons.1 hk with rfl | hold
      · exact ⟨d.site.disk, e, disk, e', hread, .refl _⟩
      · exact (hd.read k hold).onward (Site.step_onward hstep)
    | @dropped position a c ha hc =>
      have hstep := drop_step (P := P) hc zeros
      exact ⟨hd.site.step hstep, herase, fun k hk => hd.read k (List.mem_of_mem_eraseIdx hk)⟩
    | @saved position a c secret command rest now drawn e _ _ ha hc hdialog hsave =>
      have hcommands : site'.commands = d.site.commands.eraseIdx position := by
        obtain ⟨k, -, hs⟩ := Option.bind_eq_some_iff.1 hsave
        dsimp only at hs
        split at hs
        all_goals
          cases hs
          rfl
      refine ⟨hd.site.step hsave, ?_, fun k hk => ?_⟩
      · exact herase.trans (congrArg List.length hcommands).symm
      · rw [hcommands] at hk
        exact (hd.read k (List.mem_of_mem_eraseIdx hk)).onward (Site.step_onward hsave)

end

/-! ## How long it lasts -/

section
variable {α : Type} {x : Dialog Typed String α}

/-- The lines that are still typed. -/
def Typed.left (typed : Typed) : Nat := typed.lines.length

theorem within_askLine (accept : Str → Option α) : Dialog.Within Typed.left (askLine accept) :=
  fun typed => Dialog.ask_le typed.lines

theorem within_lift (x : Except String α) : Dialog.Within Typed.left (liftM x : Dialog Typed String α) :=
  fun _ => le_refl _

theorem within_promptPassword (confirm : Bool) : Dialog.Within Typed.left (promptPassword confirm) :=
  fun _ => le_refl _

theorem within_orAsk {given : Option α} (h : Dialog.Within Typed.left x) :
    Dialog.Within Typed.left (orAsk given x) := by
  cases given with
  | none => exact h
  | some value => exact .pure value

theorem within_confirmed : Dialog.Within Typed.left confirmed := (within_askLine _).bind fun _ => .pure _

theorem within_checkUpdate (newer installed : Bool) : Dialog.Within Typed.left (checkUpdate newer installed) := by
  unfold checkUpdate
  split
  · exact within_confirmed.bind fun _ => .pure _
  · exact .pure false

theorem within_pause : Dialog.Within Typed.left pause := by
  intro typed
  simp only [pause, Dialog.on_of]
  split
  · exact Nat.le_refl _
  · rename_i hlines
    simp [Typed.left, hlines]
  · rename_i hlines
    simp [Typed.left, hlines]

theorem within_select (c : ServerConfig) : Dialog.Within Typed.left (selectUserIndex c) := by
  unfold selectUserIndex
  split
  · exact .pure none
  · refine (within_askLine _).bind fun choice => ?_
    split
    · exact .pure _
    · split
      · exact .pure _
      · exact .pure _

theorem within_resolve (c : ServerConfig) (account : Option Str) :
    Dialog.Within Typed.left (resolveUserIndex c account) := by
  cases account with
  | none => exact within_select c
  | some account => exact .pure _

theorem within_forUser {select : Dialog Typed String (Option Nat)} {f : Nat → Dialog Typed String (Option Command)}
    (hselect : Dialog.Within Typed.left select) (hf : ∀ index, Dialog.Within Typed.left (f index)) :
    Dialog.Within Typed.left (forUser select f) := by
  refine hselect.bind fun selected => ?_
  cases selected with
  | none => exact .pure none
  | some index => exact hf index

theorem within_newAccount (c : ServerConfig) (account : Option Str) :
    Dialog.Within Typed.left (newAccount c account) := by
  cases account with
  | none => exact within_askLine _
  | some account => exact (within_lift _).bind fun _ => (within_lift _).bind fun _ => .pure _

theorem within_newPassword (password : Option Str) : Dialog.Within Typed.left (newPassword password) := by
  refine Dialog.Within.bind ?_ fun _ => (within_lift _).bind fun _ => .pure _
  cases password with
  | none => exact within_promptPassword true
  | some password => exact (within_lift _).bind fun _ => .pure _

theorem within_newTunnelLimit (default : U32) (limit : Option U32) :
    Dialog.Within Typed.left (newTunnelLimit default limit) := by
  cases limit with
  | none => exact within_askLine _
  | some limit => exact (within_lift _).bind fun _ => .pure _

theorem within_newAmount (parseF64 : Str → Option Float) (gb : Option Float) :
    Dialog.Within Typed.left (newAmount parseF64 gb) :=
  (within_orAsk (within_askLine _)).bind fun _ => within_lift _

theorem within_before (cli : Commands) : Dialog.Within Typed.left cli.before := by
  cases cli with
  | rotateKey yes =>
    cases yes with
    | true => exact .pure true
    | false => exact within_confirmed
  | _ => exact .pure true

/-- **No dialogue** types more lines. -/
theorem within_dialog (parseF64 : Str → Option Float) (c : ServerConfig) (secret : Str) (cli : Commands) :
    Dialog.Within Typed.left (cli.dialog parseF64 c secret) := by
  have hselect := within_select c
  cases cli with
  | setup apiBind apiPort frpsPort frpsBinary => exact .pure _
  | addUser account password gb mbps limit =>
    exact (within_newAccount c account).bind fun _ => (within_newPassword password).bind fun _ =>
      (within_orAsk (within_askLine _)).bind fun _ => (within_orAsk (within_askLine _)).bind fun _ =>
      (within_newTunnelLimit 5 limit).bind fun _ => (within_lift _).bind fun _ => .pure _
  | viewUsers => exact within_forUser hselect fun _ => .pure none
  | deleteUser => exact within_forUser hselect fun _ => within_confirmed.bind fun _ => .pure _
  | viewTraffic account => exact within_forUser (within_resolve c account) fun _ => .pure none
  | setTrafficLimit account gb =>
    exact within_forUser (within_resolve c account) fun _ => (within_newAmount parseF64 gb).bind fun _ => .pure _
  | setTrafficUsed account gb =>
    exact within_forUser (within_resolve c account) fun _ => (within_newAmount parseF64 gb).bind fun _ => .pure _
  | setSpeedLimit account mbps =>
    exact within_forUser (within_resolve c account) fun _ => (within_orAsk (within_askLine _)).bind fun _ => .pure _
  | setTunnelLimit account limit =>
    exact within_forUser (within_resolve c account) fun _ => (within_newTunnelLimit _ limit).bind fun _ => .pure _
  | changeAccount => exact within_forUser hselect fun _ => (within_askLine _).bind fun _ => .pure _
  | changePassword => exact within_forUser hselect fun _ => (within_newPassword none).bind fun _ => .pure _
  | rotateKey yes => exact within_forUser hselect fun _ => .pure _

end

section
variable {τ : Type} [Double τ] {P : Primitives} {parseF64 : Str → Option Float} {d d' : Desk τ} {l : DeskEvent}

/-- The steps that what is typed can still take. -/
def Desk.left (d : Desk τ) : Nat :=
  (d.menus.map fun typed => 2 * typed.left + 1).sum + (d.asking.map fun a => 2 * a.typed.left + 2).sum

/-- The steps that an event brings along. -/
def DeskEvent.brought : DeskEvent → Nat
  | .menu typed => 2 * typed.left + 1
  | .shell _ typed _ => 2 * typed.left + 2
  | _ => 0

/-- A choice or an answer is a step of a terminal. -/
def DeskEvent.taken : DeskEvent → Nat
  | .choose .. => 1
  | .answer .. => 1
  | _ => 0

omit [Double τ] in
theorem Desk.back_left (d : Desk τ) (ofMenu : Bool) (typed : Typed) :
    (d.back ofMenu typed).left ≤ d.left + 2 * typed.left + 1 := by
  unfold Desk.back
  split
  · split
    · rename_i rest hpause
      have hle := within_pause typed
      rw [hpause] at hle
      have hle : rest.left ≤ typed.left := hle
      simp only [Desk.left, List.map_cons, List.sum_cons]
      omega
    · omega
  · omega

omit [Double τ] in
theorem Desk.start_left (d : Desk τ) (cli : Commands) (ofMenu : Bool) (typed : Typed) (e : Entropy) :
    (d.start P cli ofMenu typed e).left ≤ d.left + 2 * typed.left + 2 := by
  have hbefore := within_before cli typed
  unfold Desk.start
  split
  · rename_i rest hrest
    rw [hrest] at hbefore
    have hbefore : rest.left ≤ typed.left := hbefore
    split
    · simp only [Desk.left, List.map_cons, List.sum_cons]
      omega
    · rename_i disk _ _
      have hback := Desk.back_left { d with site := { d.site with disk := disk } } ofMenu rest
      have hsame : ({ d with site := { d.site with disk := disk } } : Desk τ).left = d.left := rfl
      omega
  · rename_i rest _ hrest
    rw [hrest] at hbefore
    have hbefore : rest.left ≤ typed.left := hbefore
    have hback := Desk.back_left d ofMenu rest
    omega

omit [Double τ] in
theorem Desk.choose_left {typed : Typed} {newer installed : Bool} {e : Entropy}
    (h : d.choose P typed newer installed e = some d') : d'.left ≤ d.left + 2 * typed.left := by
  unfold Desk.choose at h
  split at h
  · cases h
    omega
  rename_i choice rest hchoice
  have hlt : rest.left < typed.left := by
    have hrest := congrArg (fun r => Typed.left r.2) hchoice
    dsimp only at hrest
    rw [← hrest]
    cases hlines : typed.lines with
    | nil =>
      exfalso
      simp [promptNonEmpty, askLine, hlines, Dialog.ask] at hchoice
    | cons line lines =>
      simp only [promptNonEmpty, askLine, Dialog.on_of, Typed.left, hlines]
      exact Dialog.ask_lt line lines
  have hback (after : Typed) (hafter : after.left ≤ rest.left) :
      (d.back true after).left ≤ d.left + 2 * typed.left := by
    have := Desk.back_left d true after
    omega
  split at h
  · rename_i cli _
    cases h
    have := Desk.start_left (P := P) d cli true rest e
    omega
  · split at h
    · cases h
      omega
    · rename_i after _ hafter
      cases h
      have hle := within_checkUpdate newer installed rest
      rw [hafter] at hle
      exact hback after hle
  · split at h
    · cases h
    · rename_i after hafter
      cases h
      have hle := within_confirmed rest
      rw [hafter] at hle
      exact hback after hle
    · cases h
      omega
  · cases h
    omega
  · cases h
    exact hback rest (Nat.le_refl _)

theorem Desk.answer_left {position : Nat} {secret : Str} {now : Int} {drawn e : Entropy}
    (h : d.answer P parseF64 position secret now drawn e = some d') : d'.left + 1 ≤ d.left := by
  obtain ⟨a, ha, h⟩ := Option.bind_eq_some_iff.1 h
  obtain ⟨c, hc, h⟩ := Option.bind_eq_some_iff.1 h
  have hle := within_dialog parseF64 c secret a.cli a.typed
  have herase := Core.sum_map_eraseIdx ha fun a : Asking => 2 * a.typed.left + 2
  have hback (site : Site τ) (rest : Typed) (hrest : rest.left ≤ a.typed.left) :
      (({ d with site := site, asking := d.asking.eraseIdx position } : Desk τ).back a.ofMenu rest).left + 1 ≤
        d.left := by
    have := Desk.back_left ({ d with site := site, asking := d.asking.eraseIdx position } : Desk τ) a.ofMenu rest
    simp only [Desk.left] at this herase ⊢
    omega
  rcases hdialog : (a.cli.dialog parseF64 c secret).on a.typed with ⟨_ | _ | command, rest⟩
  · rw [hdialog] at h hle
    cases h
    exact hback _ rest hle
  · rw [hdialog] at h hle
    cases h
    exact hback _ rest hle
  · rw [hdialog] at h hle
    obtain ⟨site, -, h⟩ := Option.bind_eq_some_iff.1 h
    cases h
    exact hback site rest hle

/-- **Every step of a terminal** uses up one that was brought. -/
theorem Desk.step_left (h : Desk.step P parseF64 d l = some d') : d'.left + l.taken ≤ d.left + l.brought := by
  cases l with
  | menu typed =>
    cases h
    simp only [Desk.left, DeskEvent.taken, DeskEvent.brought, List.map_cons, List.sum_cons]
    omega
  | shell cli typed e =>
    cases h
    have := Desk.start_left (P := P) d cli false typed e
    simp only [DeskEvent.taken, DeskEvent.brought]
    omega
  | choose position newer installed e =>
    obtain ⟨typed, htyped, h⟩ := Option.bind_eq_some_iff.1 h
    have hchoose := Desk.choose_left h
    have herase := Core.sum_map_eraseIdx htyped fun typed : Typed => 2 * typed.left + 1
    simp only [Desk.left, DeskEvent.taken, DeskEvent.brought] at hchoose herase ⊢
    omega
  | answer position secret now drawn e => exact Desk.answer_left h
  | other event =>
    simp only [Desk.step] at h
    split at h
    · obtain ⟨site, -, h⟩ := Option.bind_eq_some_iff.1 h
      cases h
      exact Nat.le_refl _
    · cases h

theorem Desk.run_left {ls : List DeskEvent} (h : (desk P parseF64).Run d ls d') :
    d'.left + (ls.map DeskEvent.taken).sum ≤ d.left + (ls.map DeskEvent.brought).sum := by
  induction h with
  | nil d => simp
  | cons hst _ ih =>
    have := Desk.step_left hst
    simp only [List.map_cons, List.sum_cons]
    omega

end

/-! ## Every run -/

section
variable {τ : Type} [Double τ] {P : Primitives} {parseF64 : Str → Option Float} {d d' : Desk τ}

/-- Nothing is saved: what there is is as it was, or as a read or a refused save leaves it. -/
def Quiet (P : Primitives) (disk disk' : Disk) : Prop :=
  disk' = disk ∨ (∃ e, disk' = (Storage.read P disk e).1) ∨ ∃ c e error, save P disk c e = (disk', .error error)

/-- A command is answered with a drawn secret, and what it makes of the configuration it had read is
saved. As long as the revision is below `i64::MAX`, that configuration was read from what is stored now, up to
passwords that have been recovered. -/
structure Administers (P : Primitives) (parseF64 : Str → Option Float) (disk disk' : Disk) (a : Asking)
    (c : ServerConfig) (command : Command) (secret : Str) (now : Int) (drawn e : Entropy) : Prop where
  answered : Answers parseF64 c secret a.cli command
  confirmed : a.cli = .deleteUser → a.typed.Confirmed
  saved : ∃ changed stored, Command.apply P c now drawn command = .ok changed ∧
    save P disk changed e = (disk', .ok stored)
  current : ∃ s, disk.db.settings = some s ∧ s.revision = c.revision ∧ (s.revision < I64_MAX →
    ∃ before e read e', Storage.read P before e = (read, .ok (c, e')) ∧ SameButPasswords read.db disk.db)

theorem apply_revision {c c' : ServerConfig} {now : Int} {drawn : Entropy} {command : Command}
    (h : Command.apply P c now drawn command = .ok c') : c'.revision = c.revision := by
  have hedit {index : Nat} {edit : ServerUser → Except String ServerUser}
      (h : editUser c index now edit = .ok c') : c'.revision = c.revision := by
    unfold editUser at h
    split at h
    · cases h
    · obtain ⟨u, -, h⟩ := bind_eq_ok.1 h
      cases h
      rfl
  cases command with
  | addUser new =>
    obtain ⟨_, -, h⟩ := bind_eq_ok.1 h
    obtain ⟨-, h⟩ := bailIf_bind_eq_ok.1 h
    obtain ⟨-, h⟩ := bailIf_bind_eq_ok.1 h
    obtain ⟨_, -, h⟩ := bind_eq_ok.1 h
    obtain ⟨_, -, h⟩ := bind_eq_ok.1 h
    obtain ⟨_, -, h⟩ := bind_eq_ok.1 h
    obtain ⟨_, -, h⟩ := bind_eq_ok.1 h
    cases h
    rfl
  | deleteUser index =>
    simp only [Command.apply, commandDeleteUser] at h
    split at h
    · cases h
      rfl
    · cases h
  | changeAccount index account =>
    obtain ⟨_, -, h⟩ := bind_eq_ok.1 h
    obtain ⟨-, h⟩ := bailIf_bind_eq_ok.1 h
    exact hedit h
  | changePassword index password =>
    obtain ⟨_, -, h⟩ := bind_eq_ok.1 h
    exact hedit h
  | rotateKey index secret => exact hedit h
  | setTrafficLimit index bytes => exact hedit h
  | setTrafficUsed index bytes => exact hedit h
  | setSpeedLimit index mbps => exact hedit h
  | setTunnelLimit index limit =>
    obtain ⟨_, -, h⟩ := bind_eq_ok.1 h
    exact hedit h
  | setup apiBind apiPort frpsPort frpsBinary =>
    cases h
    rfl

/-- The step is the last answer to the command at a position of the desk, which administers with
what this command has read. -/
def AdministersAt (P : Primitives) (parseF64 : Str → Option Float) (d : Desk τ) (l : DeskEvent)
    (disk' : Disk) : Prop :=
  ∃ position secret now drawn e a c command, l = .answer position secret now drawn e ∧
    d.asking[position]? = some a ∧ d.site.commands[position]? = some c ∧
    Administers P parseF64 d.site.disk disk' a c command secret now drawn e

theorem Desk.Kept.moved (hd : d.Kept P) {l : DeskEvent} {site : Site τ} {asking : List Asking}
    (h : Moved P parseF64 l d.site d.asking site asking) : Quiet P d.site.disk site.disk ∨
      AdministersAt P parseF64 d l site.disk := by
  cases h with
  | still => exact .inl (.inl rfl)
  | refused hread => exact .inl (.inr (.inl ⟨_, (congrArg Prod.fst hread).symm⟩))
  | read a hread => exact .inl (.inr (.inl ⟨_, (congrArg Prod.fst hread).symm⟩))
  | dropped ha hc => exact .inl (.inl rfl)
  | @saved position a c secret command rest now drawn e _ hl ha hc hdialog hsave =>
    obtain ⟨k, hk, hsave⟩ := Option.bind_eq_some_iff.1 hsave
    cases hc.symm.trans hk
    cases happly : Command.apply P c now drawn command with
    | error error =>
      rw [happly] at hsave
      cases hsave
      exact .inl (.inl rfl)
    | ok changed =>
      rw [happly] at hsave
      cases hsave
      rcases hresult : save P d.site.disk changed e with ⟨disk', _ | stored⟩
      · exact .inl (.inr (.inr ⟨changed, e, _, hresult⟩))
      refine .inr ⟨position, secret, now, drawn, e, a, c, command, hl, ha, hc, dialog_sound hdialog,
        fun hcli => ?_, ⟨changed, stored, happly, hresult⟩, ?_⟩
      · rw [hcli] at hdialog
        exact delete_confirmed hdialog
      · obtain ⟨before, e₀, read, e', hread, hnext⟩ := hd.read c (List.mem_of_getElem? hc)
        obtain ⟨s₀, hs₀, hrev₀⟩ := read_revision hread
        obtain ⟨s, hs, hlater⟩ := hnext s₀ hs₀
        have hrev := (save_current hs hresult).trans (apply_revision happly)
        refine ⟨s, hs, hrev, fun hlt => ⟨before, e₀, read, e', hread, ?_⟩⟩
        exact (hlater hlt).2 (hrev.trans hrev₀.symm)

theorem Desk.kept_inductive : (desk P parseF64 : LTS (Desk τ) DeskEvent).Inductive (Desk.Kept P) where
  init d hd := by
    obtain ⟨⟨hset, hcommands, hserver⟩, -, hasking⟩ := hd
    refine ⟨LTS.reachable_init ⟨hset, hcommands, hserver⟩, ?_, fun c hc => ?_⟩
    · rw [hasking, hcommands]
      rfl
    · rw [hcommands] at hc
      cases hc
  step d l d' hd hst := hd.step hst

/-- **Terminals.** However many menus and commands are open on a site, whatever is typed at them, and
whatever happens on the site meanwhile: the site stays a reachable one; a step of a terminal saves
nothing, or it is the last answer to a command and saves its change of what that command had read,
which is what is stored at that moment; and together the terminals take no more steps than what is
typed at them allows, so that none goes on forever. A run ends with a confirmed uninstall. -/
theorem terminals_administer (hr : (desk P parseF64).Reachable d) :
    (site P).Reachable d.site ∧ d.asking.length = d.site.commands.length ∧
    (∀ l d', Desk.step P parseF64 d l = some d' → (∀ event, l ≠ .other event) →
      Quiet P d.site.disk d'.site.disk ∨ AdministersAt P parseF64 d l d'.site.disk) ∧
    ∀ ls d', (desk P parseF64).Run d ls d' →
      (ls.map DeskEvent.taken).sum ≤ d.left + (ls.map DeskEvent.brought).sum := by
  have hd := Desk.kept_inductive.reachable d hr
  refine ⟨hd.site, hd.aligned, fun l d' hstep hl => ?_, fun ls d' hrun => ?_⟩
  · rcases Desk.step_moved hstep with ⟨event, heq, -⟩ | ⟨-, hmoved⟩
    · exact absurd heq (hl event)
    · exact hd.moved hmoved
  · have := Desk.run_left hrun
    omega

end

/-- An installation is set up again while a user is looked for in a menu. -/
def busyMorning : List DeskEvent := [
  .other (.create ⟨['h'], API_PORT, FRPS_PORT, ['f'], List.replicate 32 's', ['t']⟩ 1 zeros),
  .shell (.setup ['h'] API_PORT FRPS_PORT ['g']) nothing zeros,
  .menu ⟨[some ⟨['3'], by decide⟩, some ⟨[], by decide⟩, some ⟨['0'], by decide⟩], []⟩,
  .choose 0 false false zeros]

def afterBusyMorning : Option (Desk Rat) :=
  LTS.exec (Desk.step Primitives.copying fun _ => none) ⟨⟨⟨Db.empty, none, []⟩, [], none⟩, [], []⟩ busyMorning

theorem setup_administers : ∃ d d' : Desk Rat, afterBusyMorning = some d ∧ d.asking.length = 2 ∧
    Desk.step Primitives.copying (fun _ => none) d (.answer 1 [] 2 zeros zeros) = some d' ∧
    (loadConfig d'.site.disk.db).toOption.map (·.frpsBinary) = some ['g'] ∧
    (Quiet .copying d.site.disk d'.site.disk ∨
      AdministersAt .copying (fun _ => none) d (.answer 1 [] 2 zeros zeros) d'.site.disk) := by
  have hsome : (afterBusyMorning.bind fun d => (Desk.step Primitives.copying (fun _ => none) d
      (.answer 1 [] 2 zeros zeros)).map fun d' =>
        (d.asking.length, (loadConfig d'.site.disk.db).toOption.map (·.frpsBinary))) = some (2, some ['g']) := by
    decide +kernel
  obtain ⟨d, hd, hsome⟩ := Option.bind_eq_some_iff.1 hsome
  obtain ⟨d', hd', hsome⟩ := Option.map_eq_some_iff.1 hsome
  rw [Prod.mk.injEq] at hsome
  have hr : (desk Primitives.copying fun _ => none).Reachable d :=
    ⟨_, busyMorning, ⟨⟨rfl, rfl, rfl⟩, rfl, rfl⟩, LTS.run_of_exec hd⟩
  obtain ⟨-, -, hsteps, -⟩ := terminals_administer hr
  exact ⟨d, d', hd, hsome.1, hd', hsome.2, hsteps _ d' hd' (by simp)⟩

end OrangeFrp.App
