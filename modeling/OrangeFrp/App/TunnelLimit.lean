import OrangeFrp.App.Credentials
import OrangeFrp.Storage.Migration

/-!
# The tunnel limit over the history of a site (`frp-game-server/src/app.rs`)

`normalize_user_tunnels` compares the length of the submitted list with the limit and with
the number of tunnels the user has. It does not look which tunnels are new. After the
administrator has lowered the limit below that number, a list that is no longer than the
old one passes, whatever its ids.

Nothing else lets a user have more tunnels than the limit: where nobody has, and no command
lowers a limit below the number of tunnels, nobody ever has (`Site.step_within`), and the check
is then one of the limit alone.

* `save_within`, `read_within`, `apply_within`: what the store and the commands keep.
* `limit_kept`: the accepted saves of a history.
-/
namespace OrangeFrp.App

open OrangeFrp.Core OrangeFrp.Core.Table OrangeFrp.Storage OrangeFrp.Controller

/-! ## Nobody over the limit -/

/-- What the length check looks at. -/
def room (u : ServerUser) : Nat × Nat := (u.tunnels.length, u.tunnelLimit)

/-- Every user has as many tunnels as the limit allows. -/
def Within (c : ServerConfig) : Prop := ∀ u ∈ c.users, u.tunnels.length ≤ u.tunnelLimit

instance (c : ServerConfig) : Decidable (Within c) := by unfold Within; infer_instance

/-- The rows of every user are as many as the limit allows. -/
def RowsWithin (db : Db) : Prop := ∀ r ∈ db.users.rows, (db.tunnelsOf r.id).length ≤ r.tunnelLimit

/-- Nobody is over the limit in what is stored, or in a legacy file that is not imported yet. -/
structure DiskWithin (disk : Disk) : Prop where
  stored : ∀ c, loadConfig disk.db = .ok c → Within c
  legacy : ∀ file, disk.legacy = some file → ∀ legacy, file.document.serverConfig = .ok legacy →
    ∀ v ∈ legacy.users, v.tunnels.length ≤ v.tunnelLimit

theorem within_of_rooms {c k : ServerConfig} (h : Within c)
    (hk : ∀ u ∈ k.users, room u ∈ c.users.map room) : Within k := by
  intro u hu
  obtain ⟨v, hv, he⟩ := List.mem_map.1 (hk u hu)
  obtain ⟨hlen, hlimit⟩ := Prod.mk.inj he
  rw [← hlen, ← hlimit]
  exact h v hv

section
variable {P : Primitives} {db db' : Db} {c c' : ServerConfig}

theorem loaded_within (hl : loadConfig db = .ok c) : Within c ↔ RowsWithin db := by
  unfold loadConfig at hl
  split at hl
  · cases hl
  cases hl
  have hperm := sortUsers_perm (db.users.rows.map fun r => r.user db)
  refine ⟨fun h r hr => h _ (hperm.mem_iff.2 (List.mem_map_of_mem hr)), fun h u hu => ?_⟩
  obtain ⟨r, hr, rfl⟩ := List.mem_map.1 (hperm.mem_iff.1 hu)
  exact h r hr

theorem RowsWithin.samePasswords (h : RowsWithin db) (hs : SameButPasswords db db') : RowsWithin db' := by
  intro r hr
  have hmem : (r.id, r.tunnelLimit) ∈ db'.users.rows.map fun r => (r.id, r.tunnelLimit) := List.mem_map_of_mem hr
  rw [hs.column (fun r => (r.id, r.tunnelLimit)) fun _ => rfl] at hmem
  obtain ⟨r₀, hr₀, he⟩ := List.mem_map.1 hmem
  obtain ⟨hid, hlimit⟩ := Prod.mk.inj he
  have htunnels : db'.tunnelsOf r.id = db.tunnelsOf r₀.id := by
    unfold Db.tunnelsOf
    rw [hs.tunnels, hid]
  rw [htunnels, ← hlimit]
  exact h r₀ hr₀

theorem rowsWithin_of_holds (hh : Holds db c) (hv : Valid P c) (h : Within c) : RowsWithin db := by
  intro r hr
  obtain ⟨u, hu, rfl⟩ := (hh.users r).1 hr
  have hperm := hh.tunnelsOf_perm (newIn_empty.1 hv.distinct.ids) (newIn_empty.1 hv.distinct.tunnels.ids) hu
  show (db.tunnelsOf u.id).length ≤ u.tunnelLimit
  rw [hperm.length_eq]
  exact h u hu

/-! ## What the store keeps -/

theorem checkUser_room {apiSalt : Str} {reserved : List Port} {seen : Seen} {u : ServerUser} {d : Draws}
    {r : Seen × ServerUser × Draws} (h : checkUser P apiSalt reserved seen u d = .ok r) :
    room r.2.1 = room u := by
  unfold checkUser at h
  simp only [bailIf_bind_eq_ok] at h
  obtain ⟨-, -, -, -, h⟩ := h
  obtain ⟨_, -, h⟩ := bind_eq_ok.1 h
  simp only [bailIf_bind_eq_ok] at h
  obtain ⟨-, -, h⟩ := h
  obtain ⟨normalized, hn, h⟩ := bind_eq_ok.1 h
  obtain ⟨checked, hck, h⟩ := bind_eq_ok.1 h
  cases h
  rw [mapError_eq_ok] at hn
  obtain ⟨-, rfl⟩ := checkTunnels_ok_iff.1 hck
  have hlen := (renameTunnels_forall₂ normalized.1 normalized.2).length_eq.symm.trans
    (normalizeTunnels_wellFormed hn).2
  exact congrArg (·, u.tunnelLimit) hlen

theorem checkUsers_room {apiSalt : Str} {reserved : List Port} {seen : Seen} {us : List ServerUser}
    {d : Draws} {r : Seen × List ServerUser × Draws}
    (h : checkUsers P apiSalt reserved seen us d = .ok r) : r.2.1.map room = us.map room := by
  induction us generalizing seen d r with
  | nil =>
    cases h
    rfl
  | cons u us ih =>
    obtain ⟨one, h₁, h⟩ := bind_eq_ok.1 h
    obtain ⟨rest, h₂, h⟩ := bind_eq_ok.1 h
    cases h
    rw [List.map_cons, List.map_cons, checkUser_room h₁, ih h₂]

theorem normalize_within {d : Draws} {r : ServerConfig × Draws} (hn : normalizeLoadedConfig P c d = .ok r)
    (h : Within c) : Within r.1 := by
  obtain ⟨-, k, hk, -, rfl⟩ := (normalize_ok_iff P).1 hn
  refine within_of_rooms h fun u hu => ?_
  rw [← checkUsers_room hk]
  exact List.mem_map_of_mem ((sortUsers_perm _).mem_iff.1 hu)

theorem saveNew_within {e : Entropy} {r : Db × ServerConfig × Entropy} (hs : saveNew P db c e = .ok r)
    (h : Within c) : RowsWithin r.1 := by
  obtain ⟨hv, hh⟩ : Valid P r.2.1 ∧ Holds r.1 r.2.1 := saveNew_holds hs
  obtain ⟨normalized, hn, hs⟩ := bind_eq_ok.1 hs
  obtain ⟨written, hw, hs⟩ := bind_eq_ok.1 hs
  obtain ⟨db₁, hw₁, hw⟩ := bind_eq_ok.1 hw
  cases hw
  cases hs
  exact rowsWithin_of_holds hh hv (normalize_within hn h)

theorem migrateUser_room {apiSalt : Str} {used : List Port} {v : LegacyUser} {e : Entropy}
    {r : ServerUser × List Port × Entropy} (h : migrateUser P apiSalt used v e = .ok r) :
    room r.1 = (v.tunnels.length, v.tunnelLimit) := by
  obtain ⟨normalized, hn, h⟩ := bind_eq_ok.1 h
  obtain ⟨tunnels, ht, h⟩ := bind_eq_ok.1 h
  obtain ⟨passwordHash, -, h⟩ := bind_eq_ok.1 h
  obtain ⟨passwordEncrypted, -, h⟩ := bind_eq_ok.1 h
  cases h
  have hlen := (migrateTunnels_ok ht).1.length_eq.symm.trans
    (normalizeTunnels_wellFormed (mapError_eq_ok.1 hn)).2
  exact congrArg (·, v.tunnelLimit) hlen

theorem migrateUsers_room {apiSalt : Str} {used : List Port} {vs : List LegacyUser} {e : Entropy}
    {r : List ServerUser × Entropy} (h : migrateUsers P apiSalt used vs e = .ok r) :
    r.1.map room = vs.map fun v => (v.tunnels.length, v.tunnelLimit) := by
  induction vs generalizing used e r with
  | nil =>
    cases h
    rfl
  | cons v vs ih =>
    obtain ⟨one, h₁, h⟩ := bind_eq_ok.1 h
    obtain ⟨rest, h₂, h⟩ := bind_eq_ok.1 h
    cases h
    rw [List.map_cons, List.map_cons, migrateUser_room h₁, ih h₂]

theorem migrate_within {document : LegacyDocument} {e : Entropy} {r : ServerConfig × Entropy}
    (hm : migrateLegacyConfig P document e = .ok r)
    (h : ∀ legacy, document.serverConfig = .ok legacy → ∀ v ∈ legacy.users, v.tunnels.length ≤ v.tunnelLimit) :
    Within r.1 := by
  obtain ⟨legacy, hl, hm⟩ := bind_eq_ok.1 hm
  obtain ⟨users, hu, hm⟩ := bind_eq_ok.1 hm
  cases hm
  intro u hu'
  have hmem := List.mem_map_of_mem (f := room) hu'
  rw [migrateUsers_room hu] at hmem
  obtain ⟨v, hv, he⟩ := List.mem_map.1 hmem
  obtain ⟨hlen, hlimit⟩ := Prod.mk.inj he
  rw [← hlen, ← hlimit]
  exact h legacy hl v hv

variable {disk disk' : Disk} {e e' : Entropy}

theorem initialize_within (h : DiskWithin disk) (hi : initializeStore P disk e = .ok (disk', e')) :
    DiskWithin disk' := by
  unfold initializeStore at hi
  split at hi
  · rename_i hset
    obtain ⟨db, hdb, hi⟩ := bind_eq_ok.1 hi
    cases hi
    refine ⟨fun c hl => (loaded_within hl).2 ?_, h.legacy⟩
    obtain ⟨row, hrow⟩ := Option.isSome_iff_exists.1 hset
    have hloaded : ∃ c, loadConfig disk.db = .ok c := by
      unfold loadConfig
      rw [hrow]
      exact ⟨_, rfl⟩
    obtain ⟨c₀, hl₀⟩ := hloaded
    exact ((loaded_within hl₀).1 (h.stored c₀ hl₀)).samePasswords (recover_same hdb)
  split at hi
  · cases hi
    exact h
  rename_i file hfile
  obtain ⟨migrated, hm, hi⟩ := bind_eq_ok.1 hi
  obtain ⟨written, hw, hi⟩ := bind_eq_ok.1 hi
  cases hi
  exact ⟨fun c hl => (loaded_within hl).2 (saveNew_within hw (migrate_within hm (h.legacy file hfile))), nofun⟩

theorem read_within {r : Except String (ServerConfig × Entropy)} (h : DiskWithin disk)
    (hr : Storage.read P disk e = (disk', r)) : DiskWithin disk' ∧ ∀ c e', r = .ok (c, e') → Within c := by
  unfold Storage.read at hr
  split at hr
  · cases hr
    exact ⟨h, fun c e' hr => by cases hr⟩
  rename_i disk₁ e₁ hi
  cases hr
  have h₁ := initialize_within h hi
  refine ⟨h₁, fun c e' hr => ?_⟩
  obtain ⟨c₀, hl, hr⟩ := bind_eq_ok.1 hr
  obtain ⟨normalized, hn, hr⟩ := bind_eq_ok.1 hr
  cases hr
  exact normalize_within hn (h₁.stored c₀ hl)

/-- **A save** keeps the limits if it is refused, or stores a configuration that keeps them. -/
theorem save_within {r : Except String (ServerConfig × Entropy)} (h : DiskWithin disk)
    (hs : save P disk c e = (disk', r)) (hc : r.isOk = true → Within c) :
    DiskWithin disk' ∧ ∀ c' e', r = .ok (c', e') → Within c' := by
  cases r with
  | ok r =>
    obtain ⟨disk₁, e₁, hsaved⟩ := save_saved hs
    obtain ⟨c₁, hn, hstored⟩ := hsaved.normalized
    have hwithin : Within r.1 := by
      rw [hstored]
      exact normalize_within hn (hc rfl)
    refine ⟨⟨fun c' hl => (loaded_within hl).2 (rowsWithin_of_holds hsaved.holds hsaved.valid hwithin), ?_⟩,
      fun c' e' he => by cases he; exact hwithin⟩
    rw [hsaved.legacy]
    exact (initialize_within h hsaved.initialized).legacy
  | error error =>
    refine ⟨?_, fun c' e' he => by cases he⟩
    unfold save at hs
    split at hs
    · cases hs
      exact h
    rename_i disk₁ e₁ hi
    have h₁ := initialize_within h hi
    split at hs
    · cases hs
      exact h₁
    split at hs
    · cases hs
      exact h₁
    · cases hs

theorem create_within (h : DiskWithin disk) (hc : Within c) : DiskWithin (create P disk c e).1 := by
  unfold create
  split
  · exact h
  split
  · exact h
  · rename_i hs
    exact ⟨fun c' hl => (loaded_within hl).2 (saveNew_within hs hc), h.legacy⟩

/-! ## What the commands keep -/

/-- The command sets the limit of a user below the number of tunnels. -/
def Command.LowersLimit (c : ServerConfig) : Command → Prop
  | .setTunnelLimit index limit => ∃ u ∈ c.users[index]?, limit < u.tunnels.length
  | _ => False

instance (c : ServerConfig) (command : Command) : Decidable (command.LowersLimit c) := by
  unfold Command.LowersLimit; split <;> infer_instance

theorem set_within {index : Nat} {v : ServerUser} (h : Within c) (hv : v.tunnels.length ≤ v.tunnelLimit) :
    ∀ u ∈ c.users.set index v, u.tunnels.length ≤ u.tunnelLimit := by
  intro u hu
  rcases List.mem_or_eq_of_mem_set hu with hu | rfl
  · exact h u hu
  · exact hv

theorem editUser_within {now : Int} {index : Nat} {edit : ServerUser → Except String ServerUser} (h : Within c)
    (he : editUser c index now edit = .ok c') (hk : ∀ u v, edit u = .ok v → room v = room u) : Within c' := by
  obtain ⟨u, v, hu, hv, rfl⟩ := editUser_ok he
  obtain ⟨hlen, hlimit⟩ := Prod.mk.inj (hk u v hv)
  refine set_within h ?_
  show v.tunnels.length ≤ v.tunnelLimit
  rw [hlen, hlimit]
  exact h u (List.mem_of_getElem? hu)

/-- **A command** keeps the limits if it does not lower one. -/
theorem apply_within {now : Int} {command : Command} (h : Within c) (hk : ¬ command.LowersLimit c)
    (ha : Command.apply P c now e command = .ok c') : Within c' := by
  cases command with
  | addUser new =>
    obtain ⟨_, -, ha⟩ := bind_eq_ok.1 ha
    obtain ⟨-, ha⟩ := bailIf_bind_eq_ok.1 ha
    obtain ⟨-, ha⟩ := bailIf_bind_eq_ok.1 ha
    obtain ⟨_, -, ha⟩ := bind_eq_ok.1 ha
    obtain ⟨_, -, ha⟩ := bind_eq_ok.1 ha
    obtain ⟨_, -, ha⟩ := bind_eq_ok.1 ha
    obtain ⟨_, -, ha⟩ := bind_eq_ok.1 ha
    cases ha
    exact List.forall_mem_append.2 ⟨h, List.forall_mem_singleton.2 (Nat.zero_le _)⟩
  | deleteUser index =>
    simp only [Command.apply, commandDeleteUser] at ha
    split at ha
    · cases ha
      exact fun u hu => h u (List.mem_of_mem_eraseIdx hu)
    · cases ha
  | changeAccount index account =>
    obtain ⟨_, -, ha⟩ := bind_eq_ok.1 ha
    obtain ⟨-, ha⟩ := bailIf_bind_eq_ok.1 ha
    exact editUser_within h ha fun u v hv => by cases hv; rfl
  | changePassword index password =>
    obtain ⟨_, -, ha⟩ := bind_eq_ok.1 ha
    refine editUser_within h ha fun u v hv => ?_
    obtain ⟨_, -, hv⟩ := bind_eq_ok.1 hv
    obtain ⟨_, -, hv⟩ := bind_eq_ok.1 hv
    cases hv
    rfl
  | rotateKey index secret =>
    refine editUser_within h ha fun u v hv => ?_
    obtain ⟨password, -, hv⟩ := bind_eq_ok.1 hv
    cases password with
    | none =>
      cases hv
      rfl
    | some password =>
      obtain ⟨_, -, hv⟩ := bind_eq_ok.1 hv
      cases hv
      rfl
  | setTrafficLimit index bytes => exact editUser_within h ha fun u v hv => by cases hv; rfl
  | setTrafficUsed index bytes => exact editUser_within h ha fun u v hv => by cases hv; rfl
  | setSpeedLimit index mbps => exact editUser_within h ha fun u v hv => by cases hv; rfl
  | setTunnelLimit index limit =>
    obtain ⟨_, -, ha⟩ := bind_eq_ok.1 ha
    obtain ⟨u, v, hu, hv, rfl⟩ := editUser_ok ha
    cases hv
    refine set_within h ?_
    by_contra hover
    exact hk ⟨u, hu, Nat.lt_of_not_le hover⟩
  | setup apiBind apiPort frpsPort frpsBinary =>
    cases ha
    exact h

end

/-! ## What an accepted save leaves -/

/-- The save was accepted: the user before it, and what is stored of the user after it. -/
structure SavedUser where
  before : ServerUser
  after : Option ServerUser

section
variable {τ : Type} [Double τ] (P : Primitives)

/-- The save of the event, when it is answered with the user's tunnels. -/
def Site.savedUser (s : Site τ) : SiteEvent → Option SavedUser
  | .request userIndex (.save (some tunnels)) env => do
    let server ← s.server
    let current ← server.config.users[userIndex]?
    let t := tunnelsRequest P ⟨s.disk, server.config, server.controller⟩ userIndex current
      (.save (some tunnels)) env
    match t.2 with
    | .ok .. => some ⟨current, t.1.config.users[userIndex]?⟩
    | .failed .. => none
  | _ => none

/-- A save that adds a tunnel leaves no more than the limit. -/
def SavedUser.KeepsLimit (x : SavedUser) : Prop :=
  ∃ after, x.after = some after ∧ after.id = x.before.id ∧
    ((∃ t ∈ after.tunnels, ∀ old ∈ x.before.tunnels, old.id ≠ t.id) →
      after.tunnels.length ≤ x.before.tunnelLimit)

/-- A save leaves no more than the limit or than there was. -/
def SavedUser.KeepsCount (x : SavedUser) : Prop :=
  ∃ after, x.after = some after ∧ after.id = x.before.id ∧
    after.tunnels.length ≤ max x.before.tunnelLimit x.before.tunnels.length

/-- The condition holds of the save, if the event is one that is accepted. -/
def OfSave (p : SavedUser → Prop) (s : Site τ) (l : SiteEvent) : Prop :=
  ∀ x ∈ s.savedUser P l, p x

end

section
variable {τ : Type} [Double τ] {P : Primitives}

theorem saveTunnels_answered {s : Server τ} {i : Nat} {a : ServerUser} {tunnels : List Tunnel}
    {env : Env} {ts : List Tunnel} {limit : Nat} {traffic : TrafficSummary}
    (h : (saveTunnels P s i a (some tunnels) env).2 = .ok ts limit traffic) :
    ∃ normalized d disk stored e', normalizeUserTunnels s.config i a tunnels env.draws = .ok (normalized, d) ∧
      save P s.disk (candidate s.config i a normalized env.now) env.first = (disk, .ok (stored, e')) ∧
      (saveTunnels P s i a (some tunnels) env).1.config = stored := by
  unfold saveTunnels at h ⊢
  split at h
  · cases h
  rename_i hexhausted
  rw [if_neg hexhausted]
  dsimp only at h ⊢
  split at h
  · cases h
  rename_i normalized d hn
  split at h
  · cases h
  rename_i disk stored e' hs
  refine ⟨normalized, d, disk, stored, e', hn, hs, ?_⟩
  split at h
  · rfl
  split at h
  · rfl
  · unfold rollback at h
    dsimp only at h
    split at h <;> cases h

/-- **The user in the stored candidate**: the list under new names, everything else as before. -/
theorem candidate_stored {c stored : ServerConfig} {i : Nat} {a : ServerUser} {ts : List Tunnel}
    {disk disk' : Disk} {e e' : Entropy} {now : Int} (hv : Valid P c) (hi : c.users[i]? = some a)
    (ha : AcceptedFor c i a ts) (hs : save P disk (candidate c i a ts now) e = (disk', .ok (stored, e'))) :
    ∃ after, stored.users[i]? = some after ∧ SameButNames (withTunnels a ts now) after := by
  obtain ⟨pre, post, hat⟩ := exists_at hi
  obtain ⟨disk₁, e₁, hsaved⟩ := save_saved hs
  obtain ⟨c₁, hn, rfl⟩ := hsaved.normalized
  obtain ⟨-, -, hk⟩ := (normalize_clean_iff P (candidate_settings now hv)
    (candidate_userOk now hv hat ha) e₁.uuids).1 hn
  obtain ⟨pre', after, post', hr⟩ := renamedAt pre (withTunnels a ts now) post e₁.uuids
  have hsorted : (candidate c i a ts now).users.Pairwise fun u v => u.account ≤ v.account :=
    sorted_of_accounts (candidate_column now hat (·.account) rfl) hv.sorted
  have hcol := map_eq_of_sameButNames (·.account) (fun _ _ => rfl)
    (renameUsers_forall₂ (candidate c i a ts now).users e₁.uuids)
  have husers : c₁.users = pre' ++ after :: post' := by
    rw [congrArg ServerConfig.users (Prod.ext_iff.1 hk).1]
    rw [sortUsers_self (sorted_of_accounts hcol hsorted), hat.candidate_users]
    exact hr.users
  refine ⟨after, ?_, hr.user⟩
  rw [husers, hat.index, hr.before.length_eq]
  simp

/-- **What is known of an accepted save.** -/
theorem savedUser_after {s : Site τ} {l : SiteEvent} {x : SavedUser} (hk : SiteKept P s)
    (hx : x ∈ s.savedUser P l) : ∃ p after, s.server = some p ∧ x.before ∈ p.config.users ∧
      x.after = some after ∧ after.id = x.before.id ∧
      after.tunnels.length ≤ max x.before.tunnelLimit x.before.tunnels.length := by
  unfold Site.savedUser at hx
  split at hx
  · rename_i i tunnels env
    obtain ⟨server, hserver, hx⟩ := Option.bind_eq_some_iff.1 hx
    obtain ⟨current, hcurrent, hx⟩ := Option.bind_eq_some_iff.1 hx
    dsimp only at hx
    split at hx
    · rename_i ts limit traffic hanswer
      cases hx
      obtain ⟨normalized, d, disk, stored, e', hn, hs, hconfig⟩ := saveTunnels_answered hanswer
      have ha := normalizeUserTunnels_ok hn
      obtain ⟨after, hafter, hfields, hnames⟩ :=
        candidate_stored (hk.server server hserver) hcurrent ha hs
      refine ⟨server, after, hserver, List.mem_of_getElem? hcurrent, ?_, by rw [hfields]; rfl, ?_⟩
      · dsimp only [tunnelsRequest]
        rw [hconfig, hafter]
      · rw [← hnames.length_eq]
        exact ha.limit
    · cases hx
  · cases hx

theorem keepsCount {s : Site τ} {l : SiteEvent} {x : SavedUser} (hk : SiteKept P s)
    (hx : x ∈ s.savedUser P l) : x.KeepsCount := by
  obtain ⟨p, after, -, -, hafter, hid, hle⟩ := savedUser_after hk hx
  exact ⟨after, hafter, hid, hle⟩

/-! ## The site -/

/-- Nobody is over the limit, wherever the site has a configuration. -/
structure Site.Within (s : Site τ) : Prop where
  disk : DiskWithin s.disk
  commands : ∀ c ∈ s.commands, App.Within c
  server : ∀ p, s.server = some p → App.Within p.config

/-- No command goes through that lowers the limit of a user below the number of tunnels. -/
def KeepsRoom (P : Primitives) (s : Site τ) : SiteEvent → Prop
  | .commandSave position command now drawn e => ∀ c ∈ s.commands[position]?, command.LowersLimit c →
    ∀ changed, Command.apply P c now drawn command = .ok changed → (save P s.disk changed e).2.isOk = false
  | _ => True

theorem flushPending_within {disk : Disk} {c : ServerConfig} (h : DiskWithin disk) (hc : App.Within c)
    (pending : Pending) (e : Entropy) :
    DiskWithin (flushPending P disk c pending e).1 ∧ App.Within (flushPending P disk c pending e).2.1 := by
  have haccounted : App.Within (accounted c pending) := within_of_rooms hc fun u hu => by
    rw [← accounted_column room (fun _ _ _ => rfl) c pending]
    exact List.mem_map_of_mem hu
  rcases flushPending_cases (P := P) disk c pending e with
    ⟨-, hf⟩ | ⟨disk', error, hs, hf⟩ | ⟨disk', stored, e', -, hs, hf⟩
  · rw [hf]
    exact ⟨h, hc⟩
  · rw [hf]
    exact ⟨(save_within h hs fun _ => haccounted).1, hc⟩
  · rw [hf]
    obtain ⟨hd, hstored⟩ := save_within h hs fun _ => haccounted
    exact ⟨hd, hstored stored e' rfl⟩

theorem saveTunnels_within {s : Server τ} {i : Nat} {a : ServerUser} {env : Env}
    (submitted : Option (List Tunnel)) (h : DiskWithin s.disk) (hc : App.Within s.config)
    (hi : s.config.users[i]? = some a) :
    DiskWithin (saveTunnels P s i a submitted env).1.disk ∧
      App.Within (saveTunnels P s i a submitted env).1.config := by
  have hcandidate {ts : List Tunnel} (ha : AcceptedFor s.config i a ts) :
      App.Within (candidate s.config i a ts env.now) := by
    have hle := hc a (List.mem_of_getElem? hi)
    have hlimit := ha.limit
    exact set_within hc (show ts.length ≤ a.tunnelLimit by omega)
  rcases @saveTunnels_cases τ _ P s i a env submitted with
    hst | ⟨ts, disk, error, ha, hs, hst⟩ | ⟨ts, disk, stored, ⟨ha, e', hs⟩, hst, -⟩ |
      ⟨ts, disk, stored, k, error, ⟨ha, e', hs⟩, -, -, hst⟩
  · rw [hst]
    exact ⟨h, hc⟩
  · rw [hst]
    exact ⟨(save_within h hs fun _ => hcandidate ha).1, hc⟩
  · rw [hst]
    obtain ⟨hd, hstored⟩ := save_within h hs fun _ => hcandidate ha
    exact ⟨hd, hstored stored e' rfl⟩
  · rw [hst]
    obtain ⟨hd, -⟩ := save_within h hs fun _ => hcandidate ha
    unfold rollback
    dsimp only
    split
    · rename_i disk' original e'' hback
      obtain ⟨hd', horiginal⟩ := save_within hd hback fun _ => hc
      exact ⟨hd', horiginal original e'' rfl⟩
    · rename_i disk' error' hback
      exact ⟨(save_within hd hback fun _ => hc).1, hc⟩

/-- **Every event** that lowers no limit keeps everybody within it. -/
theorem Site.step_within {s t : Site τ} {l : SiteEvent} (h : s.Within) (hk : KeepsRoom P s l)
    (hst : Site.step P s l = some t) : t.Within := by
  cases l with
  | initializeStore e =>
    simp only [Site.step] at hst
    split at hst
    · rename_i disk e' hi
      cases hst
      exact ⟨initialize_within h.disk hi, h.commands, h.server⟩
    · cases hst
      exact h
  | create new now e =>
    cases hst
    exact ⟨create_within h.disk fun u hu => (List.not_mem_nil hu).elim, h.commands, h.server⟩
  | commandRead e =>
    simp only [Site.step] at hst
    split at hst
    · rename_i disk c e' hr
      cases hst
      obtain ⟨hd, hc⟩ := read_within h.disk hr
      exact ⟨hd, List.forall_mem_cons.2 ⟨hc c e' rfl, h.commands⟩, h.server⟩
    · rename_i disk error hr
      cases hst
      exact ⟨(read_within h.disk hr).1, h.commands, h.server⟩
  | commandSave position command now drawn e =>
    obtain ⟨c, hc, hst⟩ := Option.bind_eq_some_iff.1 hst
    have hrest : ∀ c ∈ s.commands.eraseIdx position, App.Within c :=
      fun c hc => h.commands c (List.mem_of_mem_eraseIdx hc)
    dsimp only at hst
    split at hst
    · cases hst
      exact ⟨h.disk, hrest, h.server⟩
    · rename_i changed ha
      cases hst
      refine ⟨(save_within h.disk (r := (save P s.disk changed e).2) rfl fun hok => ?_).1, hrest, h.server⟩
      refine apply_within (h.commands c (List.mem_of_getElem? hc)) (fun hlowers => ?_) ha
      rw [hk c hc hlowers changed ha] at hok
      cases hok
  | serve apiOnly world e =>
    simp only [Site.step] at hst
    split at hst
    · cases hst
    split at hst
    · rename_i disk c e' hr
      cases hst
      obtain ⟨hd, hc⟩ := read_within h.disk hr
      refine ⟨hd, h.commands, fun p hp => ?_⟩
      rw [commandServe_config hp]
      exact hc c e' rfl
    · rename_i disk error hr
      cases hst
      exact ⟨(read_within h.disk hr).1, h.commands, h.server⟩
  | request userIndex action env =>
    obtain ⟨server, hserver, hst⟩ := Option.bind_eq_some_iff.1 hst
    obtain ⟨current, hcurrent, hst⟩ := Option.bind_eq_some_iff.1 hst
    cases hst
    have hc := h.server server hserver
    cases action with
    | list => exact ⟨h.disk, h.commands, fun p hp => by cases hp; exact hc⟩
    | unknown => exact ⟨h.disk, h.commands, fun p hp => by cases hp; exact hc⟩
    | save submitted =>
      obtain ⟨hd, hc'⟩ := @saveTunnels_within τ _ P ⟨s.disk, server.config, server.controller⟩ userIndex
        current env submitted h.disk hc hcurrent
      exact ⟨hd, h.commands, fun p hp => by cases hp; exact hc'⟩
  | flush pending e =>
    obtain ⟨server, hserver, hst⟩ := Option.bind_eq_some_iff.1 hst
    cases hst
    obtain ⟨hd, hc⟩ := @flushPending_within P s.disk server.config h.disk (h.server server hserver) pending e
    exact ⟨hd, h.commands, fun p hp => by cases hp; exact hc⟩
  | stop =>
    cases hst
    exact ⟨h.disk, h.commands, fun p hp => by cases hp⟩

/-- Where nobody is over the limit, an accepted save keeps it, whatever it adds. -/
theorem Site.Within.keepsLimit {s : Site τ} {l : SiteEvent} {x : SavedUser} (h : s.Within) (hk : SiteKept P s)
    (hx : x ∈ s.savedUser P l) : x.KeepsLimit := by
  obtain ⟨p, after, hp, hmem, hafter, hid, hle⟩ := savedUser_after hk hx
  have hbefore := h.server p hp x.before hmem
  exact ⟨after, hafter, hid, fun _ => by omega⟩

end

/-- **The tunnel limit over a history.** No accepted save leaves more than the limit or than
there was. Where nobody has more tunnels than the limit at first and no command lowers a limit
below the number of tunnels, every accepted save that adds a tunnel leaves no more than the
limit. -/
theorem limit_kept {τ : Type} [Double τ] (P : Primitives) {s₀ s : Site τ} {ls : List SiteEvent}
    (h₀ : (site P).Reachable s₀) :
    ((site P).Run s₀ ls s → (site P).Meets (OfSave P SavedUser.KeepsCount) s₀ ls s) ∧
      (s₀.Within → ((site P).restrict (KeepsRoom P)).Run s₀ ls s →
        (site P).Meets (OfSave P SavedUser.KeepsLimit) s₀ ls s ∧ s.Within) := by
  have hs := (site_inductive (P := P)).reachable s₀ h₀
  refine ⟨fun hr => site_inductive.meets (fun s l t hk _ x hx => keepsCount hk hx) hr hs, fun hw hr => ?_⟩
  induction hr with
  | nil s => exact ⟨.nil s, hw⟩
  | cons hst _ ih =>
    obtain ⟨hm, hend⟩ := ih (h₀.step hst.1) (site_inductive.step _ _ _ hs hst.1) (Site.step_within hw hst.2 hst.1)
    exact ⟨.cons hst.1 (fun x hx => hw.keepsLimit hs hx) hm, hend⟩

/-! ## A limit lowered to zero -/

def emptySite : Site Rat := ⟨⟨Db.empty, none, []⟩, [], none⟩

theorem emptySite_within : emptySite.Within where
  disk := ⟨nofun, nofun⟩
  commands := nofun
  server := nofun

/-- The first day lowers no limit. -/
def raises (s : Site Rat) : SiteEvent → Bool
  | .commandSave position command _ _ _ => s.commands[position]?.all fun c => ¬ command.LowersLimit c
  | _ => true

theorem firstDay_limit_kept : ∃ s, (site Primitives.copying).Meets
    (OfSave Primitives.copying SavedUser.KeepsLimit) emptySite firstDay s := by
  have hsome : (LTS.exec (fun s l => if raises s l then Site.step Primitives.copying s l else none)
      emptySite firstDay).isSome = true := by decide +kernel
  obtain ⟨s, hs⟩ := Option.isSome_iff_exists.1 hsome
  have hrun : ((site Primitives.copying).restrict fun s l => raises s l = true).Run emptySite firstDay s :=
    LTS.restrict_run_of_exec hs
  have hkeeps : ((site Primitives.copying).restrict (KeepsRoom Primitives.copying)).Run emptySite firstDay s := by
    refine hrun.mono fun s l t _ hst => ⟨hst.1, ?_⟩
    cases l with
    | commandSave position command now drawn e =>
      intro c hc hlowers
      have hall : (s.commands[position]?.all fun c => ¬ command.LowersLimit c) = true := hst.2
      rw [show s.commands[position]? = some c from hc] at hall
      simp [hlowers] at hall
    | _ => trivial
  exact ⟨s, ((limit_kept Primitives.copying (LTS.reachable_init ⟨rfl, rfl, rfl⟩)).2 emptySite_within hkeeps).1⟩

/-- The administrator forbids tunnels, and the service starts again. -/
def forbidden : List SiteEvent := firstDay ++ [
  .commandRead zeros,
  .commandSave 0 (.setTunnelLimit 0 0) 4 zeros zeros,
  .stop,
  .serve true emptyWorld zeros]

/-- The user saves another tunnel in the place of the one there was. -/
def replacing : SiteEvent :=
  .request 0 (.save (some [sampleTunnel ['z'] 6 0])) ⟨5, .constant, zeros, zeros, emptyWorld, emptyWorld⟩

/-- **A tunnel is created under the limit zero.** -/
theorem forbidden_created : ∃ s : Site Rat, (site Primitives.copying).Reachable s ∧
    ∃ x ∈ s.savedUser Primitives.copying replacing, x.before.tunnelLimit = 0 ∧
      x.before.tunnels.map (·.id) = [['x']] ∧
      x.after.map (fun after => after.tunnels.map (·.id)) = some [['z']] ∧ ¬ x.KeepsLimit := by
  have hsome : ((LTS.exec (Site.step Primitives.copying) emptySite forbidden).bind fun s =>
      (s.savedUser Primitives.copying replacing).map fun x =>
        (x.before.tunnelLimit, x.before.tunnels.map (·.id),
          x.after.map fun after => after.tunnels.map (·.id))) =
      some (0, [['x']], some [['z']]) := by decide +kernel
  obtain ⟨s, hs, hsome⟩ := Option.bind_eq_some_iff.1 hsome
  obtain ⟨x, hx, hvalues⟩ := Option.map_eq_some_iff.1 hsome
  obtain ⟨hlimit, hids, hafter⟩ : x.before.tunnelLimit = 0 ∧ x.before.tunnels.map (·.id) = [['x']] ∧
      x.after.map (fun after => after.tunnels.map (·.id)) = some [['z']] := by
    simpa only [Prod.mk.injEq] using hvalues
  refine ⟨s, ⟨emptySite, forbidden, ⟨rfl, rfl, rfl⟩, LTS.run_of_exec hs⟩, x, hx, hlimit, hids, hafter, ?_⟩
  intro ⟨after, hsaved, _, hkept⟩
  rw [hsaved, Option.map_some, Option.some.injEq] at hafter
  obtain ⟨t, ht, hz⟩ := List.mem_map.1 (hafter ▸ List.mem_singleton.2 rfl : ['z'] ∈ after.tunnels.map (·.id))
  have hle := hkept ⟨t, ht, fun old hold he => ?_⟩
  · rw [hlimit] at hle
    exact absurd (List.length_pos_of_mem ht) (by omega)
  · have hmem := List.mem_map_of_mem (f := (·.id)) hold
    rw [hids, he, hz] at hmem
    exact absurd hmem (by decide)

end OrangeFrp.App
