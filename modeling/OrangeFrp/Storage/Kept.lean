import Mathlib.Data.List.Perm.Basic
import OrangeFrp.Storage.Store

/-!
# What the database holds

Whatever is stored is a normalized configuration; only recovered passwords are
written without passing `normalize_loaded_config`.

* `initialize_kept`, `read_kept`, `save_kept`, `create_kept`: the operations of
  the store.
* `Kept.valid`: what is loaded is valid, as far as its passwords can be decrypted.
-/
namespace OrangeFrp.Storage

open OrangeFrp.Core OrangeFrp.Core.Table

/-- The three fields of a user that belong to the password. -/
structure Credentials where
  secret : Str
  passwordHash : Str
  passwordEncrypted : Str

def ServerUser.credentials (u : ServerUser) : Credentials := ⟨u.secret, u.passwordHash, u.passwordEncrypted⟩

def UserRow.credentials (r : UserRow) : Credentials := ⟨r.secret, r.passwordHash, r.passwordEncrypted⟩

/-- The database is empty of a configuration, or holds a valid one up to the
passwords that have been recovered. -/
def Kept (P : Primitives) (db : Db) : Prop :=
  db.settings = none ∨ ∃ c db₀, Valid P c ∧ Holds db₀ c ∧ SameButPasswords db₀ db

section
variable {P : Primitives}

theorem kept_of_holds {db : Db} {c : ServerConfig} (hv : Valid P c) (h : Holds db c) : Kept P db :=
  .inr ⟨c, db, hv, h, .refl db⟩

theorem Kept.samePasswords {db db' : Db} (h : Kept P db) (hs : SameButPasswords db db') :
    Kept P db' := by
  rcases h with h | ⟨c, db₀, hv, hh, hs₀⟩
  · exact .inl (hs.settings.trans h)
  · exact .inr ⟨c, db₀, hv, hh, hs₀.trans hs⟩

theorem saveNew_holds {db db' : Db} {c c' : ServerConfig} {e e' : Entropy}
    (h : saveNew P db c e = .ok (db', c', e')) : Valid P c' ∧ Holds db' c' := by
  obtain ⟨normalized, hn, h⟩ := bind_eq_ok.1 h
  obtain ⟨written, hw, h⟩ := bind_eq_ok.1 h
  obtain ⟨db₁, hw₁, hw⟩ := bind_eq_ok.1 hw
  cases hw
  cases h
  have hv := (normalize_valid P hn).1.withRevision 1
  exact ⟨hv, writeSnapshot_holds hw₁ (newIn_empty.1 hv.distinct.ids)
    (newIn_empty.1 hv.distinct.tunnels.ids)⟩

theorem checkUsers_credentials {apiSalt : Str} {reserved : List Port} {seen : Seen}
    {us : List ServerUser} {d : Draws} {r : Seen × List ServerUser × Draws}
    (h : checkUsers P apiSalt reserved seen us d = .ok r) :
    r.2.1.map (·.credentials) = us.map (·.credentials) := by
  induction us generalizing seen d r with
  | nil =>
    simp only [checkUsers, Except.ok.injEq] at h
    subst h
    rfl
  | cons v us ih =>
    obtain ⟨one, h₁, h⟩ := bind_eq_ok.1 h
    obtain ⟨rest, h₂, h⟩ := bind_eq_ok.1 h
    cases h
    obtain ⟨-, -, -, -, he⟩ := checkUser_ok P h₁
    have hv : one.2.1.credentials = v.credentials := by rw [he]; rfl
    rw [List.map_cons, List.map_cons, hv, ih h₂]

/-- Normalization leaves everybody's credentials. -/
theorem normalize_credentials {c : ServerConfig} {d : Draws} {r : ServerConfig × Draws}
    (h : normalizeLoadedConfig P c d = .ok r) :
    (r.1.users.map (·.credentials)).Perm (c.users.map (·.credentials)) := by
  obtain ⟨-, k, hk, -, rfl⟩ := (normalize_ok_iff P).1 h
  rw [← checkUsers_credentials hk]
  exact (sortUsers_perm _).map _

/-- What is stored first has the passwords it was given. -/
theorem saveNew_passwords {db : Db} {c : ServerConfig} {e : Entropy} {r : Db × ServerConfig × Entropy}
    (h : saveNew P db c e = .ok r) :
    ∀ u ∈ r.2.1.users, ∃ v ∈ c.users, u.passwordEncrypted = v.passwordEncrypted := by
  obtain ⟨normalized, hn, h⟩ := bind_eq_ok.1 h
  obtain ⟨written, hw, h⟩ := bind_eq_ok.1 h
  obtain ⟨db₁, hw₁, hw⟩ := bind_eq_ok.1 hw
  cases hw
  cases h
  intro u hu
  obtain ⟨v, hv, hc⟩ := List.mem_map.1
    ((normalize_credentials hn).mem_iff.1 (List.mem_map_of_mem (f := (·.credentials)) hu))
  exact ⟨v, hv, congrArg Credentials.passwordEncrypted hc.symm⟩

/-- **`initialize`**, with the recovery of passwords and the legacy migration. -/
theorem initialize_kept {disk disk' : Disk} {e e' : Entropy} (hk : Kept P disk.db)
    (h : initializeStore P disk e = .ok (disk', e')) : Kept P disk'.db := by
  unfold initializeStore at h
  split at h
  · obtain ⟨db, hdb, h⟩ := bind_eq_ok.1 h
    cases h
    exact hk.samePasswords (recover_same hdb)
  split at h
  · cases h; exact hk
  obtain ⟨migrated, -, h⟩ := bind_eq_ok.1 h
  obtain ⟨written, hw, h⟩ := bind_eq_ok.1 h
  cases h
  obtain ⟨hv, hh⟩ := saveNew_holds hw
  exact kept_of_holds hv hh

theorem read_kept {disk disk' : Disk} {e : Entropy} {r : Except String (ServerConfig × Entropy)}
    (hk : Kept P disk.db) (h : Storage.read P disk e = (disk', r)) :
    Kept P disk'.db ∧ ∀ c e', r = .ok (c, e') → Valid P c := by
  unfold read at h
  split at h
  · cases h
    exact ⟨hk, fun c e' hr => by cases hr⟩
  rename_i disk₁ e₁ hi
  cases h
  refine ⟨initialize_kept hk hi, fun c e' hr => ?_⟩
  obtain ⟨c₀, -, hr⟩ := bind_eq_ok.1 hr
  obtain ⟨normalized, hn, hr⟩ := bind_eq_ok.1 hr
  cases hr
  exact (normalize_valid P hn).1

theorem save_kept {disk disk' : Disk} {c : ServerConfig} {e : Entropy}
    {r : Except String (ServerConfig × Entropy)} (hk : Kept P disk.db)
    (h : save P disk c e = (disk', r)) : Kept P disk'.db ∧ ∀ c' e', r = .ok (c', e') → Valid P c' := by
  cases r with
  | ok r =>
    obtain ⟨disk₁, e₁, hs⟩ := save_saved h
    exact ⟨kept_of_holds hs.valid hs.holds, fun c' e' hr => by cases hr; exact hs.valid⟩
  | error error =>
    refine ⟨?_, fun c' e' hr => by cases hr⟩
    unfold save at h
    split at h
    · cases h; exact hk
    rename_i disk₁ e₁ hi
    have hk₁ := initialize_kept hk hi
    split at h
    · cases h; exact hk₁
    split at h
    · cases h; exact hk₁
    · cases h

theorem create_kept {disk : Disk} {c : ServerConfig} {e : Entropy} (hk : Kept P disk.db) :
    Kept P (create P disk c e).1.db := by
  unfold create
  split
  · exact hk
  split
  · exact hk
  · rename_i hs
    obtain ⟨hv, hh⟩ := saveNew_holds hs
    exact kept_of_holds hv hh

/-! ## What is loaded -/

/-- A configuration as it comes back: its passwords may have been recovered, its
tunnels may be in another order, its records are not told. -/
structure LoadedFrom (c₀ c : ServerConfig) : Prop where
  settings : SettingsRow.of c = SettingsRow.of c₀
  users : ∀ u ∈ c.users, ∃ v ∈ c₀.users,
    (UserRow.of u).withoutPassword = (UserRow.of v).withoutPassword ∧ u.tunnels.Perm v.tunnels
  rows : (c.users.map fun u => (UserRow.of u).withoutPassword).Perm
    (c₀.users.map fun u => (UserRow.of u).withoutPassword)
  tunnels : c.tunnels.Perm c₀.tunnels
  sorted : c.users.Pairwise fun u v => u.account ≤ v.account

theorem LoadedFrom.column {c₀ c : ServerConfig} (h : LoadedFrom c₀ c) {α : Type} (g : UserRow → α) :
    (c.users.map fun u => g (UserRow.of u).withoutPassword).Perm
      (c₀.users.map fun u => g (UserRow.of u).withoutPassword) := by
  have hmap := h.rows.map g
  rwa [List.map_map, List.map_map] at hmap

theorem Kept.loaded {db : Db} {c : ServerConfig} (hk : Kept P db) (hl : loadConfig db = .ok c) :
    ∃ c₀, Valid P c₀ ∧ LoadedFrom c₀ c := by
  rcases hk with h | ⟨c₀, db₀, hv, hh, hs⟩
  · unfold loadConfig at hl
    rw [h] at hl
    cases hl
  have hset : db.settings = some (SettingsRow.of c₀) := hs.settings.trans hh.settings
  unfold loadConfig at hl
  rw [hset] at hl
  cases hl
  have hi := newIn_empty.1 hv.distinct.ids
  have hof : ∀ u ∈ c₀.users, (db.tunnelsOf u.id).Perm u.tunnels := by
    intro u hu
    unfold Db.tunnelsOf
    rw [hs.tunnels]
    exact hh.tunnelsOf_perm hi (newIn_empty.1 hv.distinct.tunnels.ids) hu
  have hperm := sortUsers_perm (db.users.rows.map fun r => r.user db)
  have hrows : (db.users.rows.map UserRow.withoutPassword).Perm
      (c₀.users.map fun u => (UserRow.of u).withoutPassword) := by
    have hmap := (hh.users_perm hi).map UserRow.withoutPassword
    rwa [← hs.users, List.map_map] at hmap
  refine ⟨c₀, hv, rfl, fun u hu => ?_, ?_, ?_, sortUsers_sorted _⟩
  · obtain ⟨r, hr, rfl⟩ := List.mem_map.1 (hperm.mem_iff.1 hu)
    obtain ⟨v, hv', he⟩ := List.mem_map.1 (hrows.mem_iff.1 (List.mem_map_of_mem hr))
    have hid : v.id = r.id := congrArg UserRow.id he
    refine ⟨v, hv', he.symm, ?_⟩
    show (db.tunnelsOf r.id).Perm v.tunnels
    rw [← hid]
    exact hof v hv'
  · refine ((hperm.map fun u => (UserRow.of u).withoutPassword).trans ?_).trans hrows
    rw [List.map_map]
    exact .refl _
  · refine (hperm.flatMap_right (·.tunnels)).trans ?_
    rw [List.flatMap_map]
    have hids : (db.users.rows.flatMap fun r => db.tunnelsOf r.id) =
        (db.users.rows.map UserRow.withoutPassword).flatMap fun r => db.tunnelsOf r.id := by
      rw [List.flatMap_map]; rfl
    show (db.users.rows.flatMap fun r => db.tunnelsOf r.id).Perm c₀.tunnels
    rw [hids]
    refine (hrows.flatMap_right _).trans ?_
    rw [List.flatMap_map]
    exact List.Perm.flatMap_left _ hof

/-- **What is loaded is valid**, as far as its passwords can be decrypted. -/
theorem Kept.valid {db : Db} {c : ServerConfig} (hk : Kept P db) (hl : loadConfig db = .ok c)
    (hp : ∀ u ∈ c.users, checkPassword P c.apiSalt u.account u = .ok ()) : Valid P c := by
  obtain ⟨c₀, hv, h⟩ := hk.loaded hl
  have hset : ∀ {α : Type} (f : SettingsRow → α), f (SettingsRow.of c) = f (SettingsRow.of c₀) :=
    fun f => congrArg f h.settings
  have hchk : checkSettings P ((SettingsRow.of c).config []) = .ok () := by
    rw [h.settings]; exact hv.settings
  have hres : c.reserved = c₀.reserved :=
    hset fun s => [s.apiPort, s.frpsBindPort, s.pluginPort]
  refine ⟨hchk, fun u hu => ?_, fun t ht => hv.names t (h.tunnels.mem_iff.1 ht), ⟨?_, ?_, ?_, ?_⟩,
    fun t ht o ho => hv.disjoint t (h.tunnels.mem_iff.1 ht) o (h.tunnels.mem_iff.1 ho), h.sorted⟩
  · obtain ⟨v, hv', he, ht⟩ := h.users u hu
    obtain ⟨h₁, h₂, h₃, h₄, h₅, h₆, -, h₈, h₉, h₁₀⟩ := hv.users v hv'
    have hacc : u.account = v.account := congrArg UserRow.account he
    have hid : u.id = v.id := congrArg UserRow.id he
    have hhash : u.passwordHash = v.passwordHash := congrArg UserRow.passwordHash he
    have hsec : u.secret = v.secret := congrArg UserRow.secret he
    have hlim : u.tunnelLimit = v.tunnelLimit := congrArg UserRow.tunnelLimit he
    refine ⟨hacc ▸ h₁, hacc ▸ h₂, hid ▸ h₃, hhash ▸ h₄, hsec ▸ h₅, hsec ▸ h₆, hp u hu, hlim ▸ h₈,
      ht.length_eq.le.trans h₉, fun t htm => h₁₀.each t (ht.mem_iff.1 htm),
      (ht.map _).nodup_iff.2 h₁₀.names, (ht.map _).nodup_iff.2 h₁₀.ports⟩
  · exact hv.distinct.accounts.perm (h.column (·.account)).symm
  · exact hv.distinct.ids.perm (h.column (·.id)).symm
  · exact hv.distinct.secrets.perm (h.column (·.secret)).symm
  · rw [hres]
    exact hv.distinct.tunnels.perm h.tunnels.symm

end

end OrangeFrp.Storage
