import OrangeFrp.Storage.Snapshots

/-!
# Digest and recoverable password (`frp-game-server/src/storage.rs`)

A user has the digest of the password, which `verify_password` checks, and the
password itself, encrypted under the salt of the server and the user's secret.
The two agree when the encrypted password is blank, or decrypts to one that the
digest accepts.

* `encryptUserPassword_agrees`: a password hashed and encrypted together agrees.
* `recoverTransaction_agrees`, `migrateLegacyConfig_agrees`: the recovery takes a
  password that the digest accepts, the migration makes both from one.
* `Process.step_agrees`: one transaction of any process.
-/
namespace OrangeFrp.Storage

open OrangeFrp.Core

/-! ## Agreement -/

/-- The nonces are of the length that is drawn. -/
def Entropy.Drawn (e : Entropy) : Prop := ∀ n, (e.nonces.get n).length = NONCE_LENGTH

theorem zeros_drawn : zeros.Drawn := fun _ => rfl

/-- The encrypted password is blank, or decrypts to one that the digest accepts. -/
def Credentials.Agree (P : Primitives) (apiSalt : Str) (k : Credentials) : Prop :=
  isBlank k.passwordEncrypted = true ∨
    ∃ password, decryptUserPassword P apiSalt k.secret k.passwordEncrypted = .ok (some password) ∧
      verifyPassword P k.passwordHash password = true

structure ServerConfig.Agrees (P : Primitives) (apiSalt : Str) (c : ServerConfig) : Prop where
  salt : c.apiSalt = apiSalt
  users : ∀ u ∈ c.users, u.credentials.Agree P apiSalt

def UsersAgree (P : Primitives) (apiSalt : Str) (users : Table userSchema) : Prop :=
  ∀ r ∈ users.rows, r.credentials.Agree P apiSalt

structure Db.Agrees (P : Primitives) (apiSalt : Str) (db : Db) : Prop where
  salt : ∀ row, db.settings = some row → row.apiSalt = apiSalt
  users : UsersAgree P apiSalt db.users

section
variable {P : Primitives} {apiSalt : Str}

theorem decryptUserPassword_encrypt (hP : P.Inverse) {secret password encrypted : Str} {nonce : Bytes}
    (hn : nonce.length = NONCE_LENGTH)
    (h : encryptUserPassword P apiSalt secret password nonce = .ok encrypted) :
    decryptUserPassword P apiSalt secret encrypted = .ok (some password) := by
  unfold encryptUserPassword at h
  split at h
  · cases h
  obtain ⟨hdec, hvis⟩ := decryptStoredText_encrypt hP hn (mapError_eq_ok.1 h)
  simp only [decryptUserPassword, hvis, hdec, Bool.false_eq_true, if_false]

theorem verifyPassword_hash (hP : P.Inverse) {password salt passwordHash : Str}
    (h : hashPassword P password salt = .ok passwordHash) : verifyPassword P passwordHash password = true := by
  unfold hashPassword at h
  split at h
  · cases h
  · cases h; exact hP.argon2 _ _

/-- **A password hashed and encrypted together.** -/
theorem encryptUserPassword_agrees (hP : P.Inverse) {secret password salt passwordHash encrypted : Str}
    {nonce : Bytes} (hn : nonce.length = NONCE_LENGTH)
    (hh : hashPassword P password salt = .ok passwordHash)
    (he : encryptUserPassword P apiSalt secret password nonce = .ok encrypted) :
    Credentials.Agree P apiSalt ⟨secret, passwordHash, encrypted⟩ :=
  .inr ⟨password, decryptUserPassword_encrypt hP hn he, verifyPassword_hash hP hh⟩

theorem ServerConfig.Agrees.withRevision {c : ServerConfig} (h : c.Agrees P apiSalt) (revision : Int) :
    ServerConfig.Agrees P apiSalt { c with revision := revision } := ⟨h.salt, h.users⟩

theorem ServerConfig.Agrees.normalized {c : ServerConfig} {d : Draws} {r : ServerConfig × Draws}
    (h : c.Agrees P apiSalt) (hn : normalizeLoadedConfig P c d = .ok r) : r.1.Agrees P apiSalt := by
  refine ⟨?_, fun u hu => ?_⟩
  · rw [(normalize_valid P hn).2]; exact h.salt
  · obtain ⟨v, hv, hc⟩ := List.mem_map.1
      ((normalize_credentials hn).mem_iff.1 (List.mem_map_of_mem (f := (·.credentials)) hu))
    rw [← hc]
    exact h.users v hv

/-! ## Reading and writing -/

theorem loadConfig_agrees {db : Db} {c : ServerConfig} (h : db.Agrees P apiSalt)
    (hl : loadConfig db = .ok c) : c.Agrees P apiSalt := by
  unfold loadConfig at hl
  split at hl
  · cases hl
  rename_i row hset
  cases hl
  refine ⟨h.salt row hset, fun u hu => ?_⟩
  obtain ⟨r, hr, rfl⟩ := List.mem_map.1 ((sortUsers_perm _).mem_iff.1 hu)
  exact h.users r hr

theorem Holds.agrees {db : Db} {c : ServerConfig} (hh : Holds db c) (h : c.Agrees P apiSalt) :
    db.Agrees P apiSalt := by
  refine ⟨fun row hset => ?_, fun r hr => ?_⟩
  · rw [hh.settings] at hset
    cases hset
    exact h.salt
  · obtain ⟨u, hu, rfl⟩ := (hh.users r).1 hr
    exact h.users u hu

theorem saveNew_agrees {db : Db} {c : ServerConfig} {e : Entropy}
    {r : Db × ServerConfig × Entropy} (h : c.Agrees P apiSalt) (hs : saveNew P db c e = .ok r) :
    r.1.Agrees P apiSalt ∧ r.2.1.Agrees P apiSalt := by
  have hholds : Holds r.1 r.2.1 := (saveNew_holds hs).2
  obtain ⟨normalized, hn, hs⟩ := bind_eq_ok.1 hs
  obtain ⟨written, hw, hs⟩ := bind_eq_ok.1 hs
  obtain ⟨db₁, -, hw⟩ := bind_eq_ok.1 hw
  cases hw
  cases hs
  have hagrees := (h.normalized hn).withRevision 1
  exact ⟨hholds.agrees hagrees, hagrees⟩

theorem saveTransaction_agrees {db : Db} {c : ServerConfig} {r : Db × ServerConfig}
    (hv : Valid P c) (h : c.Agrees P apiSalt) (hs : saveTransaction db c = .ok r) :
    r.1.Agrees P apiSalt ∧ r.2.Agrees P apiSalt := by
  obtain ⟨-, hc, hdb⟩ := saveTransaction_ok_iff.1 hs
  have hagrees : r.2.Agrees P apiSalt := by rw [hc]; exact h.withRevision _
  have hvalid : Valid P r.2 := by rw [hc]; exact hv.withRevision _
  exact ⟨(writeSnapshot_holds hdb (newIn_empty.1 hvalid.distinct.ids)
    (newIn_empty.1 hvalid.distinct.tunnels.ids)).agrees hagrees, hagrees⟩

/-! ## The recovery -/

theorem setPassword_agrees {users : Table userSchema} {row : UserRow} {password encrypted : Str}
    (h : UsersAgree P apiSalt users)
    (hrow : ∀ x ∈ users.rows, x.account = row.account →
      x.secret = row.secret ∧ x.passwordHash = row.passwordHash)
    (hd : decryptUserPassword P apiSalt row.secret encrypted = .ok (some password))
    (hv : verifyPassword P row.passwordHash password = true) :
    UsersAgree P apiSalt (setPassword users row.account encrypted) := by
  intro r hr
  obtain ⟨x, hx, rfl⟩ := List.mem_map.1 hr
  split
  · rename_i hacc
    obtain ⟨hs, hh⟩ := hrow x hx hacc.1
    refine .inr ⟨password, ?_, ?_⟩
    · show decryptUserPassword P apiSalt x.secret encrypted = _
      rw [hs]; exact hd
    · show verifyPassword P x.passwordHash password = true
      rw [hh]; exact hv
  · exact h x hx

theorem recoverUsers_agrees (hP : P.Inverse) {candidates : List (Str × Str)} {rows : List UserRow}
    {users users' : Table userSchema} {nonces : Stream' Bytes}
    (hn : ∀ n, (nonces.get n).length = NONCE_LENGTH) (h : UsersAgree P apiSalt users)
    (hrows : ∀ row ∈ rows, ∀ x ∈ users.rows, x.account = row.account →
      x.secret = row.secret ∧ x.passwordHash = row.passwordHash)
    (hr : recoverUsers P apiSalt candidates users rows nonces = .ok users') :
    UsersAgree P apiSalt users' := by
  induction rows generalizing users nonces with
  | nil =>
    simp only [recoverUsers, Except.ok.injEq] at hr
    exact hr ▸ h
  | cons row rows ih =>
    unfold recoverUsers at hr
    split at hr
    · exact ih hn h (fun r hmem => hrows r (List.mem_cons_of_mem _ hmem)) hr
    rename_i k password hfind
    obtain ⟨encrypted, henc, hr⟩ := bind_eq_ok.1 hr
    have hv : verifyPassword P row.passwordHash password = true := by
      have := List.find?_some hfind
      simp only [decide_eq_true_eq] at this
      exact this.2
    refine ih (fun n => hn (n + 1)) (setPassword_agrees h (hrows row List.mem_cons_self)
      (decryptUserPassword_encrypt hP (hn 0) henc) hv) (fun r hmem x hx hacc => ?_) hr
    -- the update leaves accounts, secrets and digests
    obtain ⟨y, hy, rfl⟩ := List.mem_map.1 hx
    have := hrows r (List.mem_cons_of_mem _ hmem) y hy
    split at hacc <;> rename_i hc
    · rw [if_pos hc]; exact this hacc
    · rw [if_neg hc]; exact this hacc

/-- **The recovery of passwords**: an account has one row, whose digest has accepted
the password that is stored. -/
theorem recoverTransaction_agrees (hP : P.Inverse) {db db' : Db} {candidates : List (Str × Str)}
    {nonces : Stream' Bytes} (hn : ∀ n, (nonces.get n).length = NONCE_LENGTH)
    (h : db.Agrees P apiSalt) (hr : recoverTransaction P db candidates nonces = .ok db') :
    db'.Agrees P apiSalt := by
  unfold recoverTransaction at hr
  split at hr
  · cases hr
  rename_i row hset
  obtain ⟨users, hu, hr⟩ := bind_eq_ok.1 hr
  cases hr
  rw [h.salt row hset] at hu
  refine ⟨h.salt, recoverUsers_agrees hP hn h.users (fun r hmem x hx hacc => ?_) hu⟩
  have hr := List.mem_of_mem_filter hmem
  obtain rfl : x = r := by
    refine db.users.eq_of_key hx hr ?_
    by_contra hne
    have := db.users.unique x hx r hr hne
    simp [userSchema, hacc] at this
  exact ⟨rfl, rfl⟩

/-! ## The migration -/

theorem migrateUser_agrees (hP : P.Inverse) {used : List Port} {legacy : LegacyUser} {e : Entropy}
    {r : ServerUser × List Port × Entropy} (he : e.Drawn)
    (h : migrateUser P apiSalt used legacy e = .ok r) :
    r.1.credentials.Agree P apiSalt ∧ r.2.2.Drawn := by
  obtain ⟨normalized, -, h⟩ := bind_eq_ok.1 h
  obtain ⟨tunnels, -, h⟩ := bind_eq_ok.1 h
  obtain ⟨passwordHash, hh, h⟩ := bind_eq_ok.1 h
  obtain ⟨passwordEncrypted, hp, h⟩ := bind_eq_ok.1 h
  cases h
  exact ⟨encryptUserPassword_agrees hP (he 0) hh hp, fun n => he (n + 1)⟩

theorem migrateUsers_agrees (hP : P.Inverse) {used : List Port} {legacy : List LegacyUser} {e : Entropy}
    {r : List ServerUser × Entropy} (he : e.Drawn)
    (h : migrateUsers P apiSalt used legacy e = .ok r) :
    (∀ u ∈ r.1, u.credentials.Agree P apiSalt) ∧ r.2.Drawn := by
  induction legacy generalizing used e r with
  | nil =>
    simp only [migrateUsers, Except.ok.injEq] at h
    subst h
    exact ⟨fun u hu => absurd hu List.not_mem_nil, he⟩
  | cons u us ih =>
    obtain ⟨one, h₁, h⟩ := bind_eq_ok.1 h
    obtain ⟨rest, h₂, h⟩ := bind_eq_ok.1 h
    cases h
    obtain ⟨hu, he'⟩ := migrateUser_agrees hP he h₁
    obtain ⟨hus, he''⟩ := ih he' h₂
    exact ⟨List.forall_mem_cons.2 ⟨hu, hus⟩, he''⟩

/-- The salt of a migration is the one of the file. -/
theorem migrateLegacyConfig_agrees (hP : P.Inverse) {document : LegacyDocument} {e : Entropy}
    {r : ServerConfig × Entropy} (he : e.Drawn)
    (hs : ∀ legacy, document.serverConfig = .ok legacy → legacy.apiSalt = apiSalt)
    (h : migrateLegacyConfig P document e = .ok r) : r.1.Agrees P apiSalt := by
  obtain ⟨legacy, hl, h⟩ := bind_eq_ok.1 h
  obtain ⟨users, hu, h⟩ := bind_eq_ok.1 h
  cases h
  rw [hs legacy hl] at hu
  exact ⟨hs legacy hl, (migrateUsers_agrees hP he hu).1⟩

end

/-! ## One process -/

def Op.Agrees (P : Primitives) (apiSalt : Str) : Op → Prop
  | .save _ config => config.Agrees P apiSalt
  | _ => True

/-- What a process has taken from the database, and what it is about to write. -/
def Phase.Holds (P : Primitives) (apiSalt : Str) : Phase → Prop
  | .migrating _ config _ => config.Agrees P apiSalt
  | .creating config _ => config.Agrees P apiSalt
  | .selectedSettings row _ => row.apiSalt = apiSalt
  | .selectedUsers row users _ => row.apiSalt = apiSalt ∧ UsersAgree P apiSalt users
  | .selectedTunnels row users _ _ => row.apiSalt = apiSalt ∧ UsersAgree P apiSalt users
  | _ => True

structure Process.Agrees (P : Primitives) (apiSalt : Str) (q : Process) : Prop where
  versions : ∀ v ∈ q.versions, v.config.Agrees P apiSalt
  op : ∀ op, q.phase.op = some op → op.Agrees P apiSalt
  holds : q.phase.Holds P apiSalt

/-- A process that has found no settings and may still read the legacy file. -/
def Phase.Migrates : Phase → Prop
  | .absent _ _ => True
  | .legacy _ _ => True
  | _ => False

/-- The salt of the legacy file, if there is one. -/
def LegacySalt (apiSalt : Str) (disk : Disk) : Prop :=
  ∀ file, disk.legacy = some file →
    ∀ legacy, file.document.serverConfig = .ok legacy → legacy.apiSalt = apiSalt

section
variable {P : Primitives} {apiSalt : Str} {q : Process} {disk : Disk} {e : Entropy} {o : Outcome}

theorem Process.Agrees.to (h : q.Agrees P apiSalt) {phase : Phase}
    (hop : ∀ op, phase.op = some op → q.phase.op = some op) (hh : phase.Holds P apiSalt) :
    (q.to phase).Agrees P apiSalt :=
  ⟨h.versions, fun op ho => h.op op (hop op ho), hh⟩

theorem Process.Agrees.idle (h : q.Agrees P apiSalt) : (q.to .idle).Agrees P apiSalt :=
  h.to (fun _ ho => by cases ho) trivial

theorem Process.Agrees.keep (h : q.Agrees P apiSalt) {v : Version}
    (hv : v.config.Agrees P apiSalt) : (q.keep v).Agrees P apiSalt := by
  refine ⟨fun w hw => ?_, fun op ho => (by cases ho), trivial⟩
  rcases List.mem_append.1 hw with hw | hw
  · exact h.versions w hw
  · obtain rfl := List.mem_singleton.1 hw
    exact hv

theorem Process.Agrees.miss (h : q.Agrees P apiSalt) (change : Change) :
    (q.miss change).Agrees P apiSalt := by
  refine ⟨fun v hv => ?_, fun op ho => ?_, ?_⟩
  · obtain ⟨w, hw, rfl⟩ := List.mem_map.1 hv
    exact h.versions w hw
  · refine h.op op ?_
    unfold Process.miss at ho
    cases hq : q.phase <;> rw [hq] at ho <;> exact ho
  · have := h.holds
    unfold Process.miss
    cases hq : q.phase <;> rw [hq] at this <;> exact this

/-- The phases of `initialize` keep the operation. -/
theorem Process.Agrees.next (h : q.Agrees P apiSalt) (op : Op) (hop : q.phase.op = some op)
    {phase : Phase} (hp : phase.op = some op) (hh : phase.Holds P apiSalt) :
    (q.to phase).Agrees P apiSalt :=
  h.to (fun op' ho => by rw [hop, ← hp]; exact ho) hh

theorem initializing_agrees (hP : P.Inverse) (h : q.initializing P disk e = some o) (he : e.Drawn)
    (hd : disk.db.Agrees P apiSalt) (hq : q.Agrees P apiSalt)
    (hl : q.phase.Migrates → LegacySalt apiSalt disk) :
    o.disk.db.Agrees P apiSalt ∧ o.process.Agrees P apiSalt := by
  unfold Process.initializing at h
  split at h
  · rename_i op hphase
    cases h
    refine ⟨hd, hq.next op (by rw [hphase]; rfl) ?_ ?_⟩ <;> split <;> trivial
  · rename_i op hphase
    cases h
    refine ⟨hd, hq.next op (by rw [hphase]; rfl) ?_ ?_⟩ <;> split <;> trivial
  · rename_i op candidates hphase
    split at h
    · cases h; exact ⟨hd, hq.idle⟩
    rename_i db hdb
    cases h
    exact ⟨recoverTransaction_agrees hP he hd hdb, hq.next op (by rw [hphase]; rfl) rfl trivial⟩
  · rename_i op missed hphase
    cases h
    refine ⟨hd, hq.next op (by rw [hphase]; rfl) ?_ ?_⟩ <;> split <;> trivial
  · rename_i op missed hphase
    rw [hphase] at hl
    split at h
    · cases h; exact ⟨hd, hq.idle⟩
    rename_i file hfile
    split at h
    · cases h; exact ⟨hd, hq.idle⟩
    rename_i migrated hm
    cases h
    exact ⟨hd, hq.next op (by rw [hphase]; rfl) rfl
      (migrateLegacyConfig_agrees hP he (hl trivial file hfile) hm)⟩
  · rename_i op config missed hphase
    have hholds := hq.holds
    rw [hphase] at hholds
    split at h
    · cases h; exact ⟨hd, hq.idle⟩
    rename_i written hw
    cases h
    exact ⟨(saveNew_agrees hholds hw).1, hq.next op (by rw [hphase]; rfl) rfl trivial⟩
  · rename_i op name hphase
    split at h
    · cases h; exact ⟨hd, hq.idle⟩
    · cases h
      exact ⟨hd, hq.next op (by rw [hphase]; rfl) rfl trivial⟩
  · cases h

theorem reading_agrees (h : q.reading P disk e = some o) (hd : disk.db.Agrees P apiSalt)
    (hq : q.Agrees P apiSalt) : o.disk.db.Agrees P apiSalt ∧ o.process.Agrees P apiSalt := by
  rw [reading_disk h]
  refine ⟨hd, ?_⟩
  have hholds := hq.holds
  unfold Process.reading at h
  split at h
  · split at h
    · cases h; exact hq.idle
    rename_i row hset
    cases h
    exact hq.to (fun op ho => by cases ho) (hd.salt row hset)
  · rename_i row missed hphase
    cases h
    rw [hphase] at hholds
    exact hq.to (fun op ho => by cases ho) ⟨hholds, hd.users⟩
  · rename_i row users missed hphase
    cases h
    rw [hphase] at hholds
    exact hq.to (fun op ho => by cases ho) hholds
  · rename_i row users tunnels missed hphase
    rw [hphase] at hholds
    split at h
    · cases h; exact hq.idle
    rename_i config hl
    split at h
    · cases h; exact hq.idle
    rename_i normalized hn
    cases h
    refine hq.keep ((loadConfig_agrees ⟨fun row' hset => ?_, hholds.2⟩ hl).normalized hn)
    cases hset
    exact hholds.1
  · cases h

theorem advanced_agrees {db : Db} {c c' : ServerConfig} (h : c.Agrees P apiSalt)
    (ha : advanced db c = some c') : c'.Agrees P apiSalt := by
  unfold advanced at ha
  split at ha
  · cases ha
  split at ha
  · cases ha
  · cases ha; exact h.withRevision _

theorem writing_agrees (h : q.writing P disk e = some o) (hd : disk.db.Agrees P apiSalt)
    (hq : q.Agrees P apiSalt) : o.disk.db.Agrees P apiSalt ∧ o.process.Agrees P apiSalt := by
  unfold Process.writing at h
  split at h
  · rename_i version config hphase
    have hop : config.Agrees P apiSalt := hq.op (.save version config) (by rw [hphase]; rfl)
    obtain ⟨v, -, h⟩ := Option.bind_eq_some_iff.1 h
    split at h
    · cases h; exact ⟨hd, hq.idle⟩
    rename_i normalized hn
    split at h
    · rename_i written hw
      cases h
      obtain ⟨hdb, hc⟩ := saveTransaction_agrees (normalize_valid P hn).1 (hop.normalized hn) hw
      exact ⟨hdb, hq.keep hc⟩
    · split at h
      · cases h; exact ⟨hd, hq.idle⟩
      · rename_i config' ha
        cases h
        exact ⟨hd, hq.keep (advanced_agrees (hop.normalized hn) ha)⟩
  · rename_i config missed hphase
    have hholds := hq.holds
    rw [hphase] at hholds
    split at h
    · cases h; exact ⟨hd, hq.idle⟩
    rename_i normalized hn
    split at h
    · rename_i written hw
      cases h
      have hnew : saveNew P disk.db config e =
          .ok (written.1, written.2, { e with uuids := normalized.2 }) :=
        bind_eq_ok.2 ⟨normalized, hn, bind_eq_ok.2 ⟨written, hw, rfl⟩⟩
      obtain ⟨hdb, hc⟩ := saveNew_agrees hholds hnew
      exact ⟨hdb, hq.keep hc⟩
    · cases h
      exact ⟨hd, hq.keep ((ServerConfig.Agrees.normalized hholds hn).withRevision 1)⟩
  · cases h

/-- What an act brings into a process: agreeing configurations and drawn nonces. -/
def Act.Agrees (P : Primitives) (apiSalt : Str) : Act → Prop
  | .begin op => op.Agrees P apiSalt
  | .create config => config.Agrees P apiSalt
  | .next e => e.Drawn
  | .stop => True

/-- **One transaction of a process.** -/
theorem Process.step_agrees (hP : P.Inverse) {a : Act} (h : q.step P disk a = some o)
    (ha : a.Agrees P apiSalt) (hd : disk.db.Agrees P apiSalt) (hq : q.Agrees P apiSalt)
    (hl : q.phase.Migrates → LegacySalt apiSalt disk) :
    o.disk.db.Agrees P apiSalt ∧ o.process.Agrees P apiSalt := by
  cases a with
  | begin op =>
    simp only [Process.step] at h
    split at h
    · split at h
      · cases h
        refine ⟨hd, hq.versions, fun op' ho => ?_, ?_⟩
        · have : op = op' := by
            simp only [Outcome.quiet, Process.to] at ho
            split at ho <;> exact Option.some.inj ho
          exact this ▸ ha
        · show Phase.Holds _ _ (if _ then _ else _)
          split <;> trivial
      · cases h
    · cases h
  | create config =>
    simp only [Process.step] at h
    split at h
    · cases h
      refine ⟨hd, hq.to (fun op ho => ?_) ?_⟩
      · split at ho <;> cases ho
      · split
        · trivial
        · exact ha
    · cases h
  | next e =>
    simp only [Process.step] at h
    split at h
    · cases h; exact ⟨hd, hq.idle⟩
    · rcases Option.or_eq_some_iff.1 h with h | ⟨-, h⟩
      · exact initializing_agrees hP h ha hd hq hl
      rcases Option.or_eq_some_iff.1 h with h | ⟨-, h⟩
      · exact reading_agrees h hd hq
      · exact writing_agrees h hd hq
  | stop => cases h; exact ⟨hd, hq.idle⟩

theorem initializing_legacy (h : q.initializing P disk e = some o) :
    o.disk.legacy = disk.legacy ∨ o.disk.legacy = none := by
  unfold Process.initializing at h
  split at h
  · cases h; exact .inl rfl
  · cases h; exact .inl rfl
  · split at h <;> cases h <;> exact .inl rfl
  · cases h; exact .inl rfl
  · split at h
    · cases h; exact .inl rfl
    split at h <;> cases h <;> exact .inl rfl
  · split at h <;> cases h <;> exact .inl rfl
  · split at h <;> cases h
    · exact .inl rfl
    · exact .inr rfl
  · cases h

theorem writing_legacy (h : q.writing P disk e = some o) : o.disk.legacy = disk.legacy := by
  unfold Process.writing at h
  split at h
  · obtain ⟨v, -, h⟩ := Option.bind_eq_some_iff.1 h
    split at h
    · cases h; rfl
    split at h
    · cases h; rfl
    · split at h <;> cases h <;> rfl
  · split at h
    · cases h; rfl
    split at h <;> cases h <;> rfl
  · cases h

theorem initializing_migrates (h : q.initializing P disk e = some o)
    (hm : o.process.phase.Migrates) : q.phase.Migrates := by
  unfold Process.initializing at h
  split at h
  · cases h
    simp only [Outcome.quiet, Process.to] at hm
    split at hm <;> cases hm
  · cases h
    simp only [Outcome.quiet, Process.to] at hm
    split at hm <;> cases hm
  · split at h <;> cases h <;> cases hm
  · rename_i hphase
    rw [hphase]; trivial
  · rename_i hphase
    rw [hphase]; trivial
  · split at h <;> cases h <;> cases hm
  · split at h <;> cases h <;> cases hm
  · cases h

theorem reading_migrates (h : q.reading P disk e = some o) : ¬ o.process.phase.Migrates := by
  intro hm
  unfold Process.reading at h
  split at h
  · split at h <;> cases h <;> cases hm
  · cases h; cases hm
  · cases h; cases hm
  · split at h
    · cases h; cases hm
    split at h <;> cases h <;> cases hm
  · cases h

theorem writing_migrates (h : q.writing P disk e = some o) : ¬ o.process.phase.Migrates := by
  intro hm
  unfold Process.writing at h
  split at h
  · obtain ⟨v, -, h⟩ := Option.bind_eq_some_iff.1 h
    split at h
    · cases h; cases hm
    split at h
    · cases h; cases hm
    · split at h <;> cases h <;> cases hm
  · split at h
    · cases h; cases hm
    split at h <;> cases h <;> cases hm
  · cases h

/-- Only `initialize` moves the legacy file, and it moves it away. -/
theorem Process.step_legacy {a : Act} (h : q.step P disk a = some o) :
    o.disk.legacy = disk.legacy ∨ o.disk.legacy = none := by
  cases a with
  | begin op =>
    simp only [Process.step] at h
    split at h
    · split at h <;> cases h
      exact .inl rfl
    · cases h
  | create config =>
    simp only [Process.step] at h
    split at h <;> cases h
    exact .inl rfl
  | next e =>
    simp only [Process.step] at h
    split at h
    · cases h; exact .inl rfl
    · rcases Option.or_eq_some_iff.1 h with h | ⟨-, h⟩
      · exact initializing_legacy h
      rcases Option.or_eq_some_iff.1 h with h | ⟨-, h⟩
      · rw [reading_disk h]; exact .inl rfl
      · exact .inl (writing_legacy h)
  | stop => cases h; exact .inl rfl

/-- Settings are never removed. -/
theorem Process.step_settings {a : Act} (h : q.step P disk a = some o)
    (hn : o.disk.db.settings = none) : disk.db.settings = none := by
  cases hc : o.commit with
  | none => rwa [← Process.step_quiet h hc]
  | some commit =>
    cases Process.step_commits h hc with
    | recovered _ _ after => rw [after] at hn; cases hn
    | created _ _ holds => rw [holds.settings] at hn; cases hn
    | saved _ _ _ _ _ holds => rw [holds.settings] at hn; cases hn

/-- A process comes to migrate only when it finds no settings. -/
theorem Process.step_migrates {a : Act} (h : q.step P disk a = some o)
    (hm : o.process.phase.Migrates) : q.phase.Migrates ∨ disk.db.settings = none := by
  cases a with
  | begin op =>
    simp only [Process.step] at h
    split at h
    · split at h <;> cases h
      simp only [Outcome.quiet, Process.to] at hm
      split at hm
      · cases hm
      · rename_i hi; exact .inr (isInitialized_eq_false hi)
    · cases h
  | create config =>
    simp only [Process.step] at h
    split at h <;> cases h
    simp only [Outcome.quiet, Process.to] at hm
    split at hm <;> cases hm
  | next e =>
    simp only [Process.step] at h
    split at h
    · cases h; cases hm
    · rcases Option.or_eq_some_iff.1 h with h | ⟨-, h⟩
      · exact .inl (initializing_migrates h hm)
      rcases Option.or_eq_some_iff.1 h with h | ⟨-, h⟩
      · exact absurd hm (reading_migrates h)
      · exact absurd hm (writing_migrates h)
  | stop => cases h; cases hm

end

/-! ## All processes -/

structure System.Agrees (P : Primitives) (apiSalt : Str) (s : System) : Prop where
  db : s.disk.db.Agrees P apiSalt
  processes : ∀ p, (s.processes p).Agrees P apiSalt
  legacy : (s.disk.db.settings = none ∨ ∃ p, (s.processes p).phase.Migrates) →
    LegacySalt apiSalt s.disk

theorem Phase.miss_migrates {phase : Phase} {change : Change} (h : (phase.miss change).Migrates) :
    phase.Migrates := by
  cases phase <;> exact h

theorem LegacySalt.later {apiSalt : Str} {disk disk' : Disk} (h : LegacySalt apiSalt disk)
    (hl : disk'.legacy = disk.legacy ∨ disk'.legacy = none) : LegacySalt apiSalt disk' := by
  intro file hfile
  rcases hl with hl | hl
  · exact h file (hl ▸ hfile)
  · rw [hl] at hfile; cases hfile

/-- **One step of the system.** -/
theorem System.step_agrees {P : Primitives} {apiSalt : Str} (hP : P.Inverse) {s : System}
    {l : Pid × Act} {o : Outcome} (h : s.Agrees P apiSalt) (ho : s.outcome P l = some o)
    (ha : l.2.Agrees P apiSalt) : (s.settle l.1 o).Agrees P apiSalt := by
  obtain ⟨hdb, hq⟩ := Process.step_agrees hP ho ha h.db (h.processes l.1)
    fun hm => h.legacy (.inr ⟨l.1, hm⟩)
  refine ⟨hdb, fun p => ?_, fun hor => ?_⟩
  · show Process.Agrees P apiSalt (if p = l.1 then _ else _)
    split
    · exact hq
    split
    · exact h.processes p
    · exact (h.processes p).miss _
  · refine (h.legacy ?_).later (Process.step_legacy ho)
    rcases hor with hn | ⟨p, hm⟩
    · exact .inl (Process.step_settings ho hn)
    · change (Process.phase (if p = l.1 then _ else _)).Migrates at hm
      split at hm
      · exact (Process.step_migrates ho hm).elim (fun hm => .inr ⟨l.1, hm⟩) .inl
      split at hm
      · exact .inr ⟨p, hm⟩
      · exact .inr ⟨p, Phase.miss_migrates hm⟩

/-! ## The schema upgrade -/

theorem addPasswordColumn_unconstrained :
    Table.Unconstrained userSchema fun r => { r with passwordEncrypted := [] } :=
  ⟨fun _ => rfl, fun _ _ => rfl, fun _ => rfl⟩

/-- `ALTER TABLE users ADD COLUMN password_encrypted TEXT NOT NULL DEFAULT ''`, which
`create_schema` runs before anything else looks at an older database.
mirrors crates/frp-game-server/src/storage.rs:445-450 -/
def Db.upgraded (db : Db) : Db :=
  { db with users := db.users.update _ addPasswordColumn_unconstrained }

/-- The salt of the settings, or the one a migration would bring. -/
def Disk.salt (disk : Disk) : Str :=
  match disk.db.settings with
  | some row => row.apiSalt
  | none =>
    ((disk.legacy.bind fun file => file.document.serverConfig.toOption).map (·.apiSalt)).getD []

theorem Disk.legacySalt {disk : Disk} (h : disk.db.settings = none) : LegacySalt disk.salt disk := by
  intro file hfile legacy hl
  simp only [Disk.salt, h, hfile, Option.bind_some, hl, Except.toOption, Option.map_some,
    Option.getD_some]

theorem fresh_agrees (P : Primitives) (disk : Disk) :
    (System.fresh { disk with db := disk.db.upgraded }).Agrees P disk.salt := by
  refine ⟨⟨fun row hset => ?_, fun r hr => ?_⟩, fun _ => ?_, fun hor => ?_⟩
  · change disk.db.settings = some row at hset
    rw [Disk.salt, hset]
  · obtain ⟨x, -, rfl⟩ := List.mem_map.1 hr
    exact .inl rfl
  · exact ⟨fun v hv => absurd hv List.not_mem_nil, fun op ho => (by cases ho), trivial⟩
  · rcases hor with hn | ⟨p, hm⟩
    · exact Disk.legacySalt hn
    · cases hm

end OrangeFrp.Storage
