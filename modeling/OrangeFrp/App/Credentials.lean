import OrangeFrp.App.Site
import OrangeFrp.Storage.Passwords

/-!
# Credentials over the lifetime of a site (`frp-game-server/src/app.rs`)

The processes of `Storage.Processes`, where each saves what the program makes of
the configurations it holds: the result of a command, a list of tunnels, a flush,
or an earlier configuration under a newer revision. They start on a data
directory that is empty, has no users yet, has only a legacy file, or was just
upgraded to the column of encrypted passwords.

* `Edits.agrees`: whatever is saved agrees when all that is held does.
* `rotateKey_password`: the new secret decrypts to the old password.
* `passwords_agree`: every stored state, and every rotation in one.
-/
namespace OrangeFrp.App

open OrangeFrp.Core OrangeFrp.Storage OrangeFrp.Controller

/-! ## Commands -/

section
variable {P : Primitives} {apiSalt : Str} {c c' : ServerConfig} {now : Int} {e : Entropy}

/-- What `editUser` has changed. -/
theorem editUser_ok {index : Nat} {edit : ServerUser → Except String ServerUser}
    (h : editUser c index now edit = .ok c') :
    ∃ u v, c.users[index]? = some u ∧ edit u = .ok v ∧
      c' = { c with users := c.users.set index { v with updatedAt := now }, updatedAt := now } := by
  unfold editUser at h
  split at h
  · cases h
  rename_i u hu
  obtain ⟨v, hv, h⟩ := bind_eq_ok.1 h
  cases h
  exact ⟨u, v, hu, hv, rfl⟩

theorem set_agrees (h : c.Agrees P apiSalt) {index : Nat} {v : ServerUser}
    (hv : v.credentials.Agree P apiSalt) :
    ∀ u ∈ c.users.set index v, u.credentials.Agree P apiSalt := by
  intro u hu
  rcases List.mem_or_eq_of_mem_set hu with hu | rfl
  · exact h.users u hu
  · exact hv

theorem editUser_agrees (h : c.Agrees P apiSalt) {index : Nat}
    {edit : ServerUser → Except String ServerUser} (he : editUser c index now edit = .ok c')
    (hk : ∀ u v, c.users[index]? = some u → edit u = .ok v → v.credentials.Agree P apiSalt) :
    c'.Agrees P apiSalt := by
  obtain ⟨u, v, hu, hv, rfl⟩ := editUser_ok he
  exact ⟨h.salt, set_agrees h (hk u v hu hv)⟩

/-- A command that does not touch the user's credentials. -/
theorem editUser_keeps (h : c.Agrees P apiSalt) {index : Nat}
    {edit : ServerUser → Except String ServerUser} (he : editUser c index now edit = .ok c')
    (hk : ∀ u v, edit u = .ok v → v.credentials = u.credentials) : c'.Agrees P apiSalt := by
  refine editUser_agrees h he fun u v hu hv => ?_
  rw [hk u v hv]
  exact h.users u (List.mem_of_getElem? hu)

theorem commandAddUser_agrees (hP : P.Inverse) (h : c.Agrees P apiSalt) (hd : e.Drawn)
    {new : NewUser} (ha : commandAddUser P c now e new = .ok c') : c'.Agrees P apiSalt := by
  unfold commandAddUser at ha
  obtain ⟨-, -, ha⟩ := bind_eq_ok.1 ha
  obtain ⟨-, ha⟩ := bailIf_bind_eq_ok.1 ha
  obtain ⟨-, ha⟩ := bailIf_bind_eq_ok.1 ha
  obtain ⟨-, -, ha⟩ := bind_eq_ok.1 ha
  obtain ⟨-, -, ha⟩ := bind_eq_ok.1 ha
  obtain ⟨passwordHash, hh, ha⟩ := bind_eq_ok.1 ha
  obtain ⟨passwordEncrypted, hp, ha⟩ := bind_eq_ok.1 ha
  cases ha
  rw [h.salt] at hp
  refine ⟨h.salt, fun u hu => ?_⟩
  rcases List.mem_append.1 hu with hu | hu
  · exact h.users u hu
  · obtain rfl := List.mem_singleton.1 hu
    exact encryptUserPassword_agrees hP (hd 0) hh hp

theorem commandChangePassword_agrees (hP : P.Inverse) (h : c.Agrees P apiSalt) (hd : e.Drawn)
    {index : Nat} {password : Str}
    (ha : commandChangePassword P c now e index password = .ok c') : c'.Agrees P apiSalt := by
  obtain ⟨-, -, ha⟩ := bind_eq_ok.1 ha
  refine editUser_agrees h ha fun u v hu hv => ?_
  obtain ⟨passwordEncrypted, hp, hv⟩ := bind_eq_ok.1 hv
  obtain ⟨passwordHash, hh, hv⟩ := bind_eq_ok.1 hv
  cases hv
  rw [h.salt] at hp
  exact encryptUserPassword_agrees hP (hd 0) hh hp

/-- **A rotation leaves the recoverable password**, and everybody else. -/
theorem rotateKey_password (hP : P.Inverse) (hd : e.Drawn) {index : Nat} {secret : Str}
    (h : commandRotateKey P c now e index secret = .ok c') :
    ∃ u v, c.users[index]? = some u ∧ c'.users = c.users.set index v ∧ c'.apiSalt = c.apiSalt ∧
      v.secret = secret ∧ v.passwordHash = u.passwordHash ∧ v.id = u.id ∧
      decryptUserPassword P c.apiSalt secret v.passwordEncrypted =
        decryptUserPassword P c.apiSalt u.secret u.passwordEncrypted := by
  obtain ⟨u, v, hu, hv, rfl⟩ := editUser_ok h
  obtain ⟨password, hdec, hv⟩ := bind_eq_ok.1 hv
  refine ⟨u, { v with updatedAt := now }, hu, rfl, rfl, ?_⟩
  cases password with
  | none =>
    cases hv
    exact ⟨rfl, rfl, rfl, hdec.symm⟩
  | some password =>
    obtain ⟨passwordEncrypted, henc, hv⟩ := bind_eq_ok.1 hv
    cases hv
    exact ⟨rfl, rfl, rfl, (decryptUserPassword_encrypt hP (hd 0) henc).trans hdec.symm⟩

theorem decryptUserPassword_eq_none {secret passwordEncrypted : Str} :
    decryptUserPassword P apiSalt secret passwordEncrypted = .ok none ↔
      isBlank passwordEncrypted = true := by
  unfold decryptUserPassword
  split
  · simp_all
  · rename_i hb
    split <;> simp_all

theorem commandRotateKey_agrees (hP : P.Inverse) (h : c.Agrees P apiSalt) (hd : e.Drawn)
    {index : Nat} {secret : Str} (ha : commandRotateKey P c now e index secret = .ok c') :
    c'.Agrees P apiSalt := by
  obtain ⟨u, v, hu, hus, hsalt, hsec, hhash, -, hdec⟩ := rotateKey_password hP hd ha
  refine ⟨hsalt.trans h.salt, ?_⟩
  rw [hus]
  refine set_agrees h ?_
  rw [h.salt] at hdec
  rcases h.users u (List.mem_of_getElem? hu) with hb | ⟨password, hp, hv⟩
  · exact .inl (decryptUserPassword_eq_none.1 (hdec.trans (decryptUserPassword_eq_none.2 hb)))
  · refine .inr ⟨password, ?_, ?_⟩
    · show decryptUserPassword P apiSalt v.secret v.passwordEncrypted = _
      rw [hsec]
      exact hdec.trans hp
    · show verifyPassword P v.passwordHash password = true
      rw [hhash]
      exact hv

/-- **Every command** leaves the salt and agreeing credentials. -/
theorem Command.apply_agrees (hP : P.Inverse) (h : c.Agrees P apiSalt) (hd : e.Drawn)
    {command : Command} (ha : Command.apply P c now e command = .ok c') : c'.Agrees P apiSalt := by
  cases command with
  | addUser new => exact commandAddUser_agrees hP h hd ha
  | deleteUser index =>
    simp only [Command.apply, commandDeleteUser] at ha
    split at ha
    · cases ha
      exact ⟨h.salt, fun u hu => h.users u ((List.eraseIdx_sublist c.users index).mem hu)⟩
    · cases ha
  | changeAccount index account =>
    obtain ⟨-, -, ha⟩ := bind_eq_ok.1 ha
    obtain ⟨-, ha⟩ := bailIf_bind_eq_ok.1 ha
    exact editUser_keeps h ha fun u v hv => by cases hv; rfl
  | changePassword index password => exact commandChangePassword_agrees hP h hd ha
  | rotateKey index secret => exact commandRotateKey_agrees hP h hd ha
  | setTrafficLimit index bytes => exact editUser_keeps h ha fun u v hv => by cases hv; rfl
  | setTrafficUsed index bytes => exact editUser_keeps h ha fun u v hv => by cases hv; rfl
  | setSpeedLimit index mbps => exact editUser_keeps h ha fun u v hv => by cases hv; rfl
  | setTunnelLimit index limit =>
    obtain ⟨-, -, ha⟩ := bind_eq_ok.1 ha
    exact editUser_keeps h ha fun u v hv => by cases hv; rfl
  | setup apiBind apiPort frpsPort frpsBinary =>
    cases ha
    exact ⟨h.salt, h.users⟩

end

/-! ## What is saved -/

/-- What the program saves, of the configurations it holds. -/
inductive Edits (P : Primitives) (held : List ServerConfig) : ServerConfig → Prop
  | command {c c' : ServerConfig} {now : Int} {e : Entropy} {command : Command} (mem : c ∈ held)
      (drawn : e.Drawn) (result : Command.apply P c now e command = .ok c') : Edits P held c'
  | tunnels {c : ServerConfig} {userIndex : Nat} {current : ServerUser} (mem : c ∈ held)
      (user : c.users[userIndex]? = some current) (tunnels : List Tunnel) (now : Int) :
      Edits P held (candidate c userIndex current tunnels now)
  | flush {c : ServerConfig} (mem : c ∈ held) (pending : Pending) : Edits P held (accounted c pending)
  | restore {c : ServerConfig} (mem : c ∈ held) (revision : Int) :
      Edits P held { c with revision := revision }

section
variable {P : Primitives} {apiSalt : Str}

theorem accountUser_credentials (pending : Pending) (u : ServerUser) :
    (accountUser pending u).credentials = u.credentials := by
  unfold accountUser
  split <;> rfl

/-- **Whatever is saved agrees** when all that is held does. -/
theorem Edits.agrees (hP : P.Inverse) {held : List ServerConfig} {c : ServerConfig}
    (h : ∀ c ∈ held, c.Agrees P apiSalt) (he : Edits P held c) : c.Agrees P apiSalt := by
  cases he with
  | command mem drawn result => exact Command.apply_agrees hP (h _ mem) drawn result
  | @tunnels c userIndex current mem user tunnels now =>
    have hu : (withTunnels current tunnels now).credentials.Agree P apiSalt :=
      (h c mem).users current (List.mem_of_getElem? user)
    exact ⟨(h c mem).salt, set_agrees (h c mem) hu⟩
  | flush mem pending =>
    refine ⟨(h _ mem).salt, fun u hu => ?_⟩
    obtain ⟨v, hv, rfl⟩ := List.mem_map.1 hu
    rw [accountUser_credentials]
    exact (h _ mem).users v hv
  | restore mem revision => exact (h _ mem).withRevision revision

/-! ## Every run -/

/-- The acts of the program after the installation. -/
def Edited (P : Primitives) (s : System) (l : Pid × Act) : Prop :=
  match l.2 with
  | .begin (.save _ config) => Edits P ((s.processes l.1).versions.map (·.config)) config
  | .begin _ => True
  | .create _ => False
  | .next e => e.Drawn
  | .stop => True

def administered (P : Primitives) : LTS System (Pid × Act) :=
  { (processes P).restrict (Edited P) with
    init := fun s => ∃ disk : Disk, s = .fresh { disk with db := disk.db.upgraded } }

theorem Edited.agrees (hP : P.Inverse) {s : System} {l : Pid × Act} (h : s.Agrees P apiSalt)
    (he : Edited P s l) : l.2.Agrees P apiSalt := by
  obtain ⟨p, a⟩ := l
  cases a with
  | begin op =>
    cases op with
    | save version config =>
      refine Edits.agrees hP (fun c hc => ?_) he
      obtain ⟨v, hv, rfl⟩ := List.mem_map.1 hc
      exact (h.processes p).versions v hv
    | initializeStore => trivial
    | read => trivial
  | create config => exact absurd he id
  | next e => exact he
  | stop => trivial

theorem administered_agrees (hP : P.Inverse) {s : System} (h : (administered P).Reachable s) :
    ∃ apiSalt, s.Agrees P apiSalt := by
  obtain ⟨s₀, ls, ⟨disk, rfl⟩, hrun⟩ := h
  refine ⟨disk.salt, ?_⟩
  generalize hs₀ : System.fresh { disk with db := disk.db.upgraded } = s₀ at hrun
  have hinit : s₀.Agrees P disk.salt := hs₀ ▸ fresh_agrees P disk
  clear hs₀
  induction hrun with
  | nil => exact hinit
  | cons hst _ ih =>
    obtain ⟨hst, he⟩ := hst
    obtain ⟨o, ho, rfl⟩ := Option.map_eq_some_iff.1 hst
    exact ih (System.step_agrees hP hinit ho (Edited.agrees hP hinit he))

/-- The user of this secret is stored with an encrypted password that decrypts so. -/
def Recovers (P : Primitives) (db : Db) (secret : Str) (password : Except String (Option Str)) :
    Prop :=
  ∃ row, db.settings = some row ∧ ∃ r ∈ db.users.rows, r.secret = secret ∧
    decryptUserPassword P row.apiSalt r.secret r.passwordEncrypted = password

/-- What is saved is stored with its credentials. -/
theorem saved_credentials {c : ServerConfig} {d : Draws} {normalized : ServerConfig × Draws}
    {db : Db} {written : Db × ServerConfig} (hn : normalizeLoadedConfig P c d = .ok normalized)
    (hw : saveTransaction db normalized.1 = .ok written) :
    (∃ row, written.1.settings = some row ∧ row.apiSalt = c.apiSalt) ∧
      ∀ u ∈ c.users, ∃ r ∈ written.1.users.rows, r.credentials = u.credentials := by
  obtain ⟨-, hc, hdb⟩ := saveTransaction_ok_iff.1 hw
  have hvalid : Valid P written.2 := by rw [hc]; exact (normalize_valid P hn).1.withRevision _
  have hholds := writeSnapshot_holds hdb (newIn_empty.1 hvalid.distinct.ids)
    (newIn_empty.1 hvalid.distinct.tunnels.ids)
  refine ⟨⟨_, hholds.settings, ?_⟩, fun u hu => ?_⟩
  · rw [hc]
    exact congrArg (·.apiSalt) (normalize_valid P hn).2
  · obtain ⟨v, hv, hcred⟩ := List.mem_map.1
      ((normalize_credentials hn).mem_iff.2 (List.mem_map_of_mem (f := (·.credentials)) hu))
    refine ⟨UserRow.of v, (hholds.users _).2 ⟨v, ?_, rfl⟩, hcred⟩
    rw [hc]
    exact hv

/-- **The digest and the encrypted password agree** in every stored state; and a
rotation that is saved leaves the password that can be recovered. -/
theorem passwords_agree (hP : P.Inverse) {s : System} (h : (administered P).Reachable s) :
    (∀ row, s.disk.db.settings = some row →
      ∀ r ∈ s.disk.db.users.rows, r.credentials.Agree P row.apiSalt) ∧
    ∀ (c c' : ServerConfig) (now : Int) (e : Entropy) (index : Nat) (secret : Str), e.Drawn →
      commandRotateKey P c now e index secret = .ok c' →
      ∃ u, c.users[index]? = some u ∧ ∀ (db : Db) d normalized written,
        normalizeLoadedConfig P c' d = .ok normalized →
        saveTransaction db normalized.1 = .ok written →
        Recovers P written.1 secret
          (decryptUserPassword P c.apiSalt u.secret u.passwordEncrypted) := by
  refine ⟨?_, ?_⟩
  · obtain ⟨apiSalt, hs⟩ := administered_agrees hP h
    intro row hrow
    rw [hs.db.salt row hrow]
    exact hs.db.users
  · intro c c' now e index secret hd hr
    obtain ⟨u, v, hu, hus, hsalt, hsec, -, -, hdec⟩ := rotateKey_password hP hd hr
    refine ⟨u, hu, fun db d normalized written hn hw => ?_⟩
    obtain ⟨⟨row, hrow, hrs⟩, hstored⟩ := saved_credentials hn hw
    have hmem : v ∈ c'.users := by
      rw [hus]
      exact List.mem_set (List.getElem?_eq_some_iff.1 hu).1 v
    obtain ⟨r, hr, hcred⟩ := hstored v hmem
    have hrsec : r.secret = secret := (congrArg Credentials.secret hcred).trans hsec
    refine ⟨row, hrow, r, hr, hrsec, ?_⟩
    rw [hrs, hsalt, hrsec, show r.passwordEncrypted = v.passwordEncrypted from
      congrArg Credentials.passwordEncrypted hcred]
    exact hdec

end

/-! ## A user whose key is rotated -/

/-- An installation without users. -/
def installed : ServerConfig := { sampleConfig [] with apiSalt := List.replicate 32 's' }

def addA : Command := .addUser ⟨['a'], "password".toList, 0, 0, 5, List.replicate 36 'x'⟩

def rotateA : Command := .rotateKey 0 (List.replicate 36 'y')

def Command.result (command : Command) (c : ServerConfig) : ServerConfig :=
  (command.apply Primitives.tagging c 1 zeros).toOption.getD c

def withA : ServerConfig := addA.result installed

/-- Process 0 reads, adds the user, and rotates the key of what it has saved. -/
def addThenRotate : List (Pid × Act) := [
  (0, .begin .read), (0, .next zeros), (0, .next zeros), (0, .next zeros), (0, .next zeros),
  (0, .next zeros), (0, .begin (.save 0 withA)), (0, .next zeros), (0, .next zeros),
  (0, .begin (.save 1 (rotateA.result { withA with revision := 2 }))), (0, .next zeros),
  (0, .next zeros)]

/-- Every save is of one of the two commands. -/
def ByCommand (s : System) (l : Pid × Act) : Prop :=
  match l.2 with
  | .begin (.save _ config) => ∃ command ∈ [addA, rotateA], ∃ v ∈ (s.processes l.1).versions,
      command.apply Primitives.tagging v.config 1 zeros = .ok config
  | .create _ => False
  | _ => True

instance (s : System) (l : Pid × Act) : Decidable (ByCommand s l) := by
  unfold ByCommand
  split <;> infer_instance

theorem ByCommand.edited {s : System} {l : Pid × Act} (hl : l ∈ addThenRotate) (h : ByCommand s l) :
    Edited Primitives.tagging s l := by
  obtain ⟨p, a⟩ := l
  cases a with
  | begin op =>
    cases op with
    | save version config =>
      obtain ⟨command, -, v, hv, hr⟩ := h
      exact .command (List.mem_map_of_mem hv) zeros_drawn hr
    | initializeStore => trivial
    | read => trivial
  | create config => exact h
  | next e =>
    have he : p = 0 ∧ e = zeros := by simpa [addThenRotate] using hl
    exact he.2 ▸ zeros_drawn
  | stop => trivial

theorem rotated_agrees : ∃ s r row, (administered Primitives.tagging).Reachable s ∧
    s.disk.db.settings = some row ∧ r ∈ s.disk.db.users.rows ∧ r.secret = List.replicate 36 'y' ∧
    isBlank r.passwordEncrypted = false ∧ r.credentials.Agree Primitives.tagging row.apiSalt := by
  have hexec : ((LTS.exec (fun s l => if ByCommand s l then System.step Primitives.tagging s l else none)
      (.fresh { Disk.ofConfig installed with db := (Db.ofConfig installed).upgraded })
      addThenRotate).bind fun s => s.disk.db.settings.bind fun _ => s.disk.db.users.rows.head?.map
        fun r => (r.secret, isBlank r.passwordEncrypted)) = some (List.replicate 36 'y', false) := by
    decide +kernel
  obtain ⟨s, hs, hexec⟩ := Option.bind_eq_some_iff.1 hexec
  obtain ⟨row, hrow, hexec⟩ := Option.bind_eq_some_iff.1 hexec
  obtain ⟨r, hr, hsec⟩ := Option.map_eq_some_iff.1 hexec
  simp only [Prod.mk.injEq] at hsec
  have hmem : r ∈ s.disk.db.users.rows := List.mem_of_mem_head? hr
  have hrun : ((processes Primitives.tagging).restrict ByCommand).Run _ _ s :=
    LTS.restrict_run_of_exec hs
  have hreach : (administered Primitives.tagging).Reachable s :=
    ⟨_, _, ⟨Disk.ofConfig installed, rfl⟩, hrun.mono fun _ _ _ hl hst => ⟨hst.1, hst.2.edited hl⟩⟩
  exact ⟨s, r, row, hreach, hrow, hmem, hsec.1, hsec.2,
    (passwords_agree tagging_inverse hreach).1 row hrow r hmem⟩

end OrangeFrp.App
