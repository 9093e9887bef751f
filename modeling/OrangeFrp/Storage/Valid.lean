import OrangeFrp.Storage.Config

/-!
# Valid configurations

`Valid` is what one pass of `normalize_loaded_config` establishes: the
per-user and per-tunnel conditions, and the pairwise conditions over all users
together that the eight hash sets stand for.

* `normalize_valid`: whatever the function returns is valid.
* `checkUsers_self`: on users whose fields are already normal, the pass comes
  down to `renameUsers` (proxy names are drawn again for ids that leave no
  cleaned form) and the freshness of keys.
* `normalize_self`: a valid configuration without such ids is returned as it
  is, and nothing is drawn.
-/
namespace OrangeFrp.Storage

open OrangeFrp.Core

/-! ## Values inserted into a set one after the other -/

/-- Inserting `l` into the set `seen` never meets a value twice. -/
def NewIn {α : Type} (l seen : List α) : Prop := l.Nodup ∧ ∀ x ∈ l, x ∉ seen

theorem newIn_nil {α : Type} (seen : List α) : NewIn [] seen := ⟨by simp, by simp⟩

theorem newIn_empty {α : Type} {l : List α} : NewIn l [] ↔ l.Nodup := by simp [NewIn]

theorem newIn_cons {α : Type} {a : α} {l seen : List α} :
    NewIn (a :: l) seen ↔ a ∉ seen ∧ NewIn l (a :: seen) := by
  simp only [NewIn, List.nodup_cons, List.mem_cons, not_or, forall_eq_or_imp]
  refine ⟨?_, ?_⟩
  · intro h
    obtain ⟨⟨h₁, h₂⟩, h₃, h₄⟩ := h
    exact ⟨h₃, h₂, fun x hx => ⟨fun e => h₁ (e ▸ hx), h₄ x hx⟩⟩
  · intro h
    obtain ⟨h₁, h₂, h₃⟩ := h
    exact ⟨⟨fun ha => (h₃ a ha).1 rfl, h₂⟩, h₁, fun x hx => (h₃ x hx).2⟩

theorem newIn_append {α : Type} {l k seen : List α} :
    NewIn (l ++ k) seen ↔ NewIn l seen ∧ NewIn k (l.reverse ++ seen) := by
  induction l generalizing seen with
  | nil => simp [newIn_nil]
  | cons a l ih =>
    rw [List.cons_append, newIn_cons, newIn_cons, ih]
    simp [and_assoc]

/-! ## Backend ports -/

theorem allocateBackendPort_ok {usedPorts : List Port} {r : Port × List Port}
    (h : allocateBackendPort usedPorts = .ok r) :
    r.1 ∉ usedPorts ∧ r.1 ≠ 0 ∧ r.2 = r.1 :: usedPorts := by
  unfold allocateBackendPort at h
  split at h
  · rename_i n hn
    cases h
    refine ⟨by simpa using List.find?_some hn, ?_, rfl⟩
    have hmem := List.mem_range'.1 (List.mem_of_find?_eq_some hn)
    obtain ⟨i, hi, rfl⟩ := hmem
    simp only [BACKEND_PORT_START, BACKEND_PORT_END] at hi ⊢
    intro e
    have := congrArg UInt16.toNat e
    simp only [UInt16.toNat_ofNat', UInt16.toNat_zero] at this
    omega
  · cases h

/-! ## Tunnels -/

/-- What the inner loop requires of the tunnels it meets, given what is seen. -/
structure Admits (reserved : List Port) (seen : Seen) (ts : List Tunnel) : Prop where
  ids : NewIn (ts.map (·.id)) seen.tunnelIds
  names : NewIn (ts.map (·.proxyName)) seen.proxyNames
  publicPorts : NewIn (ts.map Tunnel.publicKey) seen.publicPorts
  backendPorts : NewIn (ts.map (·.backendPort)) seen.backendPorts
  remote : ∀ t ∈ ts, t.remotePort ∉ reserved
  backend : ∀ t ∈ ts, t.backendPort ≠ 0 ∧ t.backendPort ∉ reserved

def Seen.insertTunnels (seen : Seen) (ts : List Tunnel) : Seen := ts.foldl Seen.insertTunnel seen

@[simp] theorem insertTunnels_nil (seen : Seen) : seen.insertTunnels [] = seen := rfl

@[simp] theorem insertTunnels_cons (seen : Seen) (t : Tunnel) (ts : List Tunnel) :
    seen.insertTunnels (t :: ts) = (seen.insertTunnel t).insertTunnels ts := rfl

/-- The sets after a list of tunnels, one field at a time. -/
theorem insertTunnels_eq (seen : Seen) (ts : List Tunnel) :
    seen.insertTunnels ts =
      { seen with
        tunnelIds := (ts.map (·.id)).reverse ++ seen.tunnelIds
        proxyNames := (ts.map (·.proxyName)).reverse ++ seen.proxyNames
        publicPorts := (ts.map Tunnel.publicKey).reverse ++ seen.publicPorts
        publicPortNumbers := (ts.map (·.remotePort)).reverse ++ seen.publicPortNumbers
        backendPorts := (ts.map (·.backendPort)).reverse ++ seen.backendPorts } := by
  induction ts generalizing seen with
  | nil => rfl
  | cons t ts ih => rw [insertTunnels_cons, ih]; simp [Seen.insertTunnel]

theorem admits_nil (reserved : List Port) (seen : Seen) : Admits reserved seen [] :=
  ⟨newIn_nil _, newIn_nil _, newIn_nil _, newIn_nil _, by simp, by simp⟩

theorem admits_cons {reserved : List Port} {seen : Seen} {t : Tunnel} {ts : List Tunnel} :
    Admits reserved seen (t :: ts) ↔
      Admits reserved seen [t] ∧ Admits reserved (seen.insertTunnel t) ts := by
  refine ⟨?_, ?_⟩
  · intro h
    obtain ⟨h₁, h₂, h₃, h₄, h₅, h₆⟩ := h
    simp only [List.map_cons, newIn_cons] at h₁ h₂ h₃ h₄
    refine ⟨⟨?_, ?_, ?_, ?_, by simpa using h₅ t (by simp), by simpa using h₆ t (by simp)⟩,
      h₁.2, h₂.2, h₃.2, h₄.2, fun x hx => h₅ x (by simp [hx]), fun x hx => h₆ x (by simp [hx])⟩ <;>
      simp only [List.map_cons, List.map_nil, newIn_cons, newIn_nil, and_true]
    exacts [h₁.1, h₂.1, h₃.1, h₄.1]
  · intro h
    obtain ⟨⟨h₁, h₂, h₃, h₄, h₅, h₆⟩, k₁, k₂, k₃, k₄, k₅, k₆⟩ := h
    simp only [List.map_cons, List.map_nil, newIn_cons, newIn_nil, and_true] at h₁ h₂ h₃ h₄
    refine ⟨?_, ?_, ?_, ?_, ?_, ?_⟩
    · exact newIn_cons.2 ⟨h₁, k₁⟩
    · exact newIn_cons.2 ⟨h₂, k₂⟩
    · exact newIn_cons.2 ⟨h₃, k₃⟩
    · exact newIn_cons.2 ⟨h₄, k₄⟩
    · exact List.forall_mem_cons.2 ⟨by simpa using h₅, k₅⟩
    · exact List.forall_mem_cons.2 ⟨by simpa using h₆, k₆⟩

theorem admits_append {reserved : List Port} {seen : Seen} {ts us : List Tunnel} :
    Admits reserved seen (ts ++ us) ↔
      Admits reserved seen ts ∧ Admits reserved (seen.insertTunnels ts) us := by
  induction ts generalizing seen with
  | nil => simp [admits_nil]
  | cons t ts ih =>
    rw [List.cons_append, admits_cons, ih, @admits_cons _ _ _ ts, insertTunnels_cons, and_assoc]

/-- The tunnel with its proxy name computed again. -/
def renameTunnel (t : Tunnel) (d : Draws) : Tunnel × Draws :=
  ({ t with proxyName := (proxyNameFor t.id d).1 }, (proxyNameFor t.id d).2)

def renameTunnels : List Tunnel → Draws → List Tunnel × Draws
  | [], d => ([], d)
  | t :: ts, d =>
    ((renameTunnel t d).1 :: (renameTunnels ts (renameTunnel t d).2).1,
      (renameTunnels ts (renameTunnel t d).2).2)

theorem checkTunnel_ok_iff {reserved : List Port} {seen : Seen} {t : Tunnel} {d : Draws}
    {r : Seen × Tunnel × Draws} :
    checkTunnel reserved seen t d = .ok r ↔
      Admits reserved seen [(renameTunnel t d).1] ∧
        r = (seen.insertTunnel (renameTunnel t d).1, renameTunnel t d) := by
  simp only [checkTunnel, bailIf_bind_eq_ok, pure, Except.pure, Except.ok.injEq, renameTunnel]
  refine ⟨?_, ?_⟩
  · intro h
    obtain ⟨h₁, h₂, h₃, h₄, rfl⟩ := h
    push Not at h₁ h₄
    refine ⟨⟨?_, ?_, ?_, ?_, by simpa using h₂, by simpa using ⟨h₄.1, h₄.2.1⟩⟩, rfl⟩ <;>
      simp only [List.map_cons, List.map_nil, newIn_cons, newIn_nil, and_true]
    exacts [h₁.1, h₁.2, h₃, h₄.2.2]
  · intro h
    obtain ⟨⟨h₁, h₂, h₃, h₄, h₅, h₆⟩, rfl⟩ := h
    simp only [List.map_cons, List.map_nil, newIn_cons, newIn_nil, and_true, List.mem_singleton,
      forall_eq] at h₁ h₂ h₃ h₄ h₅ h₆
    exact ⟨by tauto, h₅, h₃, by tauto, rfl⟩

theorem checkTunnels_ok_iff {reserved : List Port} {seen : Seen} {ts : List Tunnel} {d : Draws}
    {r : Seen × List Tunnel × Draws} :
    checkTunnels reserved seen ts d = .ok r ↔
      Admits reserved seen (renameTunnels ts d).1 ∧
        r = (seen.insertTunnels (renameTunnels ts d).1, renameTunnels ts d) := by
  induction ts generalizing seen d r with
  | nil => simp [checkTunnels, renameTunnels, admits_nil, eq_comm]
  | cons t ts ih =>
    simp only [checkTunnels, bind_eq_ok, checkTunnel_ok_iff, ih, renameTunnels, pure, Except.pure,
      Except.ok.injEq]
    refine ⟨?_, ?_⟩
    · intro hx
      obtain ⟨_, ⟨h₁, rfl⟩, _, ⟨h₂, rfl⟩, rfl⟩ := hx
      exact ⟨admits_cons.2 ⟨h₁, h₂⟩, rfl⟩
    · intro hx
      obtain ⟨h, rfl⟩ := hx
      obtain ⟨h₁, h₂⟩ := admits_cons.1 h
      exact ⟨_, ⟨h₁, rfl⟩, _, ⟨h₂, rfl⟩, rfl⟩

theorem renameTunnel_nameFor (t : Tunnel) (d : Draws) :
    NameFor (renameTunnel t d).1.id (renameTunnel t d).1.proxyName := proxyNameFor_nameFor _ _

/-- Renaming changes nothing but the proxy name. -/
structure SameButName (t u : Tunnel) : Prop where
  eq : u = { t with proxyName := u.proxyName }
  name : NameFor u.id u.proxyName

theorem SameButName.id_eq {t u : Tunnel} (h : SameButName t u) : u.id = t.id := by rw [h.eq]

theorem SameButName.publicKey_eq {t u : Tunnel} (h : SameButName t u) :
    u.publicKey = t.publicKey := by rw [h.eq]; rfl

theorem SameButName.backendPort_eq {t u : Tunnel} (h : SameButName t u) :
    u.backendPort = t.backendPort := by rw [h.eq]

theorem exists_of_forall₂ {α β : Type} {R : α → β → Prop} {l : List α} {k : List β}
    (h : List.Forall₂ R l k) {y : β} (hy : y ∈ k) : ∃ x ∈ l, R x y := by
  induction h with
  | nil => cases hy
  | cons h _ ih =>
    rcases List.mem_cons.1 hy with rfl | hy
    · exact ⟨_, List.mem_cons_self, h⟩
    · obtain ⟨x, hx, hxy⟩ := ih hy
      exact ⟨x, List.mem_cons_of_mem _ hx, hxy⟩

/-- A column that the relation keeps. -/
theorem map_eq_of_forall₂ {α β γ : Type} {R : α → β → Prop} {f : α → γ} {g : β → γ}
    (hf : ∀ a b, R a b → g b = f a) {l : List α} {k : List β} (h : List.Forall₂ R l k) : k.map g = l.map f := by
  induction h with
  | nil => rfl
  | cons h _ ih => rw [List.map_cons, List.map_cons, ih, hf _ _ h]

theorem forall₂_comp {α β γ : Type} {R : α → β → Prop} {S : β → γ → Prop} {T : α → γ → Prop}
    (hc : ∀ a b c, R a b → S b c → T a c) {l : List α} {m : List β} {n : List γ} (h : List.Forall₂ R l m)
    (h' : List.Forall₂ S m n) : List.Forall₂ T l n := by
  induction h generalizing n with
  | nil =>
    cases h'
    exact .nil
  | cons hr _ ih =>
    cases h' with
    | cons hs hrest => exact .cons (hc _ _ _ hr hs) (ih hrest)

theorem forall₂_with_mem {α β : Type} {R : α → β → Prop} {l : List α} {k : List β}
    (h : List.Forall₂ R l k) : List.Forall₂ (fun x y => R x y ∧ x ∈ l ∧ y ∈ k) l k := by
  induction h with
  | nil => exact .nil
  | cons h _ ih =>
    refine .cons ⟨h, List.mem_cons_self, List.mem_cons_self⟩ (ih.imp fun x y hxy => ?_)
    exact ⟨hxy.1, List.mem_cons_of_mem _ hxy.2.1, List.mem_cons_of_mem _ hxy.2.2⟩

theorem forall₂_middle {α β : Type} {R : α → β → Prop} {l₁ l₂ : List α} {a : α} {k : List β}
    (h : List.Forall₂ R (l₁ ++ a :: l₂) k) :
    ∃ k₁ b k₂, k = k₁ ++ b :: k₂ ∧ List.Forall₂ R l₁ k₁ ∧ R a b ∧ List.Forall₂ R l₂ k₂ := by
  induction l₁ generalizing k with
  | nil =>
    obtain ⟨b, k₂, hab, h₂, rfl⟩ := List.forall₂_cons_left_iff.1 h
    exact ⟨[], b, k₂, rfl, .nil, hab, h₂⟩
  | cons x l₁ ih =>
    obtain ⟨y, ks, hxy, hks, rfl⟩ := List.forall₂_cons_left_iff.1 h
    obtain ⟨k₁, b, k₂, rfl, h₁, hab, h₂⟩ := ih hks
    exact ⟨y :: k₁, b, k₂, rfl, .cons hxy h₁, hab, h₂⟩

theorem renameTunnels_forall₂ (ts : List Tunnel) (d : Draws) :
    List.Forall₂ SameButName ts (renameTunnels ts d).1 := by
  induction ts generalizing d with
  | nil => exact .nil
  | cons t ts ih => exact .cons ⟨rfl, renameTunnel_nameFor t d⟩ (ih _)

theorem SameButName.tunnelOk {t u : Tunnel} (h : SameButName t u) (ht : TunnelOk t) : TunnelOk u := by
  rw [h.eq]
  obtain ⟨h₁, -, h₂, h₃, h₄, h₅, h₆⟩ := ht
  exact ⟨h₁, h.name.not_blank, h₂, h₃, h₄, h₅, h₆⟩

/-- Columns other than the proxy name are the same, row by row. -/
theorem map_eq_of_sameButName {α : Type} (f : Tunnel → α)
    (hf : ∀ (t : Tunnel) (name : Str), f { t with proxyName := name } = f t) {ts us : List Tunnel}
    (h : List.Forall₂ SameButName ts us) : us.map f = ts.map f :=
  map_eq_of_forall₂ (fun t u h => by rw [h.eq, hf]) h

theorem forall_of_sameButName {p : Tunnel → Prop} {ts us : List Tunnel}
    (h : List.Forall₂ SameButName ts us) (hp : ∀ t u, SameButName t u → p t → p u)
    (ht : ∀ t ∈ ts, p t) : ∀ u ∈ us, p u := by
  induction h with
  | nil => simp
  | cons h _ ih =>
    intro x hx
    rcases List.mem_cons.1 hx with rfl | hx
    · exact hp _ _ h (ht _ (by simp))
    · exact ih (fun t ht' => ht t (by simp [ht'])) x hx

theorem tunnelsOk_of_sameButName {ts us : List Tunnel} (h : List.Forall₂ SameButName ts us)
    (hts : TunnelsOk ts) : TunnelsOk us where
  each := forall_of_sameButName h (fun _ _ htu => htu.tunnelOk) hts.each
  names := by rw [map_eq_of_sameButName (·.name) (fun _ _ => rfl) h]; exact hts.names
  ports := by rw [map_eq_of_sameButName Tunnel.publicKey (fun _ _ => rfl) h]; exact hts.ports

theorem renameTunnels_nameFor (ts : List Tunnel) (d : Draws) :
    ∀ t ∈ (renameTunnels ts d).1, NameFor t.id t.proxyName := by
  induction ts generalizing d with
  | nil => simp [renameTunnels]
  | cons t ts ih =>
    intro x hx
    rcases List.mem_cons.1 hx with rfl | hx
    · exact renameTunnel_nameFor t d
    · exact ih _ x hx

theorem renameTunnel_of_clean {t : Tunnel} (h : NameFor t.id t.proxyName) (hc : ¬ DashOnly t.id)
    (d : Draws) : renameTunnel t d = (t, d) := by
  unfold renameTunnel
  rw [proxyNameFor_of_clean hc, ← h.eq_of_clean hc]

theorem renameTunnels_of_clean {ts : List Tunnel} (h : ∀ t ∈ ts, NameFor t.id t.proxyName)
    (hc : ∀ t ∈ ts, ¬ DashOnly t.id) (d : Draws) : renameTunnels ts d = (ts, d) := by
  induction ts with
  | nil => rfl
  | cons t ts ih =>
    simp only [renameTunnels, renameTunnel_of_clean (h t (by simp)) (hc t (by simp)),
      ih (fun x hx => h x (by simp [hx])) (fun x hx => hc x (by simp [hx]))]

theorem renameTunnels_append (ts us : List Tunnel) (d : Draws) :
    renameTunnels (ts ++ us) d =
      ((renameTunnels ts d).1 ++ (renameTunnels us (renameTunnels ts d).2).1,
        (renameTunnels us (renameTunnels ts d).2).2) := by
  induction ts generalizing d with
  | nil => rfl
  | cons t ts ih => simp only [List.cons_append, renameTunnels, ih]

/-! ## Users -/

section
variable (P : Primitives)

/-- A user whose fields the pass neither rewrites nor rejects. -/
structure UserOk (apiSalt : Str) (u : ServerUser) : Prop where
  account_trim : trim u.account = u.account
  account_ne : u.account ≠ []
  id : isBlank u.id = false
  passwordHash : isBlank u.passwordHash = false
  secret_length : utf8Len u.secret = 36
  secret_alnum : u.secret.all Char.isAlphanum = true
  password : checkPassword P apiSalt u.account u = .ok ()
  limit : u.tunnelLimit ≤ MAX_TUNNEL_LIMIT
  count : u.tunnels.length ≤ MAX_TUNNELS_PER_USER
  tunnels : TunnelsOk u.tunnels

def renameUser (u : ServerUser) (d : Draws) : ServerUser × Draws :=
  ({ u with tunnels := (renameTunnels u.tunnels d).1 }, (renameTunnels u.tunnels d).2)

def renameUsers : List ServerUser → Draws → List ServerUser × Draws
  | [], d => ([], d)
  | u :: us, d =>
    ((renameUser u d).1 :: (renameUsers us (renameUser u d).2).1,
      (renameUsers us (renameUser u d).2).2)

/-- What the outer loop requires of the users it meets, given what is seen. -/
structure AdmitsUsers (reserved : List Port) (seen : Seen) (us : List ServerUser) : Prop where
  accounts : NewIn (us.map (·.account)) seen.accounts
  ids : NewIn (us.map (·.id)) seen.userIds
  secrets : NewIn (us.map (·.secret)) seen.secrets
  tunnels : Admits reserved seen (us.flatMap (·.tunnels))

def Seen.addUser (seen : Seen) (u : ServerUser) : Seen :=
  (seen.insertUser u.account u.id u.secret).insertTunnels u.tunnels

def Seen.addUsers (seen : Seen) (us : List ServerUser) : Seen := us.foldl Seen.addUser seen

theorem insertUser_admits {reserved : List Port} {seen : Seen} {ts : List Tunnel}
    (a i s : Str) : Admits reserved (seen.insertUser a i s) ts ↔ Admits reserved seen ts :=
  ⟨fun ⟨h₁, h₂, h₃, h₄, h₅, h₆⟩ => ⟨h₁, h₂, h₃, h₄, h₅, h₆⟩,
    fun ⟨h₁, h₂, h₃, h₄, h₅, h₆⟩ => ⟨h₁, h₂, h₃, h₄, h₅, h₆⟩⟩

theorem admitsUsers_nil (reserved : List Port) (seen : Seen) : AdmitsUsers reserved seen [] :=
  ⟨newIn_nil _, newIn_nil _, newIn_nil _, admits_nil _ _⟩

theorem addUser_accounts (seen : Seen) (u : ServerUser) :
    (seen.addUser u).accounts = u.account :: seen.accounts := by
  rw [Seen.addUser, insertTunnels_eq]; rfl

theorem addUser_userIds (seen : Seen) (u : ServerUser) :
    (seen.addUser u).userIds = u.id :: seen.userIds := by
  rw [Seen.addUser, insertTunnels_eq]; rfl

theorem addUser_secrets (seen : Seen) (u : ServerUser) :
    (seen.addUser u).secrets = u.secret :: seen.secrets := by
  rw [Seen.addUser, insertTunnels_eq]; rfl

theorem addUser_admits {reserved : List Port} {seen : Seen} {u : ServerUser} {ts : List Tunnel} :
    Admits reserved (seen.addUser u) ts ↔ Admits reserved (seen.insertTunnels u.tunnels) ts := by
  rw [Seen.addUser, insertTunnels_eq, insertTunnels_eq]
  exact ⟨fun ⟨h₁, h₂, h₃, h₄, h₅, h₆⟩ => ⟨h₁, h₂, h₃, h₄, h₅, h₆⟩,
    fun ⟨h₁, h₂, h₃, h₄, h₅, h₆⟩ => ⟨h₁, h₂, h₃, h₄, h₅, h₆⟩⟩

theorem admitsUsers_cons {reserved : List Port} {seen : Seen} {u : ServerUser}
    {us : List ServerUser} :
    AdmitsUsers reserved seen (u :: us) ↔
      (u.account ∉ seen.accounts ∧ u.id ∉ seen.userIds ∧ u.secret ∉ seen.secrets ∧
        Admits reserved seen u.tunnels) ∧ AdmitsUsers reserved (seen.addUser u) us := by
  refine ⟨?_, ?_⟩
  · intro h
    obtain ⟨h₁, h₂, h₃, h₄⟩ := h
    simp only [List.map_cons, newIn_cons, List.flatMap_cons, admits_append] at h₁ h₂ h₃ h₄
    exact ⟨⟨h₁.1, h₂.1, h₃.1, h₄.1⟩, by rw [addUser_accounts]; exact h₁.2,
      by rw [addUser_userIds]; exact h₂.2, by rw [addUser_secrets]; exact h₃.2,
      addUser_admits.2 h₄.2⟩
  · intro h
    obtain ⟨⟨h₁, h₂, h₃, h₄⟩, k₁, k₂, k₃, k₄⟩ := h
    rw [addUser_accounts] at k₁
    rw [addUser_userIds] at k₂
    rw [addUser_secrets] at k₃
    refine ⟨newIn_cons.2 ⟨h₁, k₁⟩, newIn_cons.2 ⟨h₂, k₂⟩, newIn_cons.2 ⟨h₃, k₃⟩, ?_⟩
    rw [List.flatMap_cons, admits_append]
    exact ⟨h₄, addUser_admits.1 k₄⟩

theorem newUserId_not_blank (d : Draws) : isBlank (newUserId d).1 = false :=
  draw_not_blank d 16 (by decide)

/-- The account only enters the error text. -/
theorem checkPassword_ok_account {apiSalt account account' : Str} {u : ServerUser} {r : Unit}
    (h : checkPassword P apiSalt account u = .ok r) : checkPassword P apiSalt account' u = .ok () := by
  unfold checkPassword at h ⊢
  split
  · rfl
  · rename_i hb
    rw [if_neg hb] at h
    split
    · rfl
    · rename_i he
      rw [he] at h
      cases h

theorem mapError_eq_ok {ε ε' α : Type} {x : Except ε α} {f : ε → ε'} {a : α} :
    x.mapError f = .ok a ↔ x = .ok a := by
  cases x <;> simp [Except.mapError]

/-- What a user has become once the loop body is through with it. -/
theorem checkUser_ok {apiSalt : Str} {reserved : List Port} {seen : Seen} {u : ServerUser}
    {d : Draws} {r : Seen × ServerUser × Draws}
    (h : checkUser P apiSalt reserved seen u d = .ok r) :
    UserOk P apiSalt r.2.1 ∧ (∀ t ∈ r.2.1.tunnels, NameFor t.id t.proxyName) ∧
      (r.2.1.account ∉ seen.accounts ∧ r.2.1.id ∉ seen.userIds ∧ r.2.1.secret ∉ seen.secrets ∧
        Admits reserved seen r.2.1.tunnels) ∧
      r.1 = seen.addUser r.2.1 ∧
      r.2.1 = { u with account := r.2.1.account, id := r.2.1.id, tunnels := r.2.1.tunnels } := by
  unfold checkUser at h
  simp only [bailIf_bind_eq_ok] at h
  obtain ⟨hacc, hid, hhash, hsec, h⟩ := h
  obtain ⟨_, hpw, h⟩ := bind_eq_ok.1 h
  simp only [bailIf_bind_eq_ok] at h
  obtain ⟨hlim, hcount, h⟩ := h
  obtain ⟨⟨ts, d₁⟩, hts, h⟩ := bind_eq_ok.1 h
  obtain ⟨⟨seen', ts', d₂⟩, hck, h⟩ := bind_eq_ok.1 h
  simp only [pure, Except.pure, Except.ok.injEq] at h
  subst h
  rw [mapError_eq_ok] at hts
  obtain ⟨hok, hlen⟩ := normalizeTunnels_wellFormed hts
  obtain ⟨hadm, he⟩ := checkTunnels_ok_iff.1 hck
  obtain ⟨rfl, he⟩ := Prod.ext_iff.1 he
  obtain rfl : ts' = (renameTunnels ts d₁).1 := (Prod.ext_iff.1 he).1
  push Not at hacc hsec hlim hcount
  have hsame := renameTunnels_forall₂ ts d₁
  have hblank : isBlank (if isBlank u.id = true then newUserId d else (u.id, d)).1 = false := by
    split
    · exact newUserId_not_blank d
    · rename_i hb; simpa using hb
  refine ⟨⟨trim_trim _, hacc.1, hblank, by simpa using hhash, hsec.1, by simpa using hsec.2.1,
    checkPassword_ok_account P hpw, hlim, ?_, tunnelsOk_of_sameButName hsame hok⟩,
    renameTunnels_nameFor ts d₁, ⟨hacc.2, hid, hsec.2.2, (insertUser_admits _ _ _).1 hadm⟩, rfl, rfl⟩
  rw [← hsame.length_eq, hlen]
  exact hcount

/-- On a user whose fields are normal the body renames and inserts. -/
theorem checkUser_self {apiSalt : Str} {reserved : List Port} {seen : Seen} {u : ServerUser}
    (hu : UserOk P apiSalt u) (d : Draws) {r : Seen × ServerUser × Draws} :
    checkUser P apiSalt reserved seen u d = .ok r ↔
      (u.account ∉ seen.accounts ∧ u.id ∉ seen.userIds ∧ u.secret ∉ seen.secrets ∧
        Admits reserved seen (renameUser u d).1.tunnels) ∧
      r = (seen.addUser (renameUser u d).1, renameUser u d) := by
  obtain ⟨hacc, hne, hid, hhash, hlen, haln, hpw, hlim, hcount, hts⟩ := hu
  unfold checkUser
  simp only [bind_eq_ok, bailIf_eq_ok, hacc, hid, hpw, Bool.false_eq_true, if_false,
    normalizeTunnels_self hts, mapError_eq_ok, Except.ok.injEq, checkTunnels_ok_iff,
    insertUser_admits, pure, Except.pure]
  refine ⟨?_, ?_⟩
  · intro h
    obtain ⟨_, h₁, _, h₂, _, -, _, h₃, _, -, _, -, _, -, _, rfl, _, ⟨h₄, rfl⟩, rfl⟩ := h
    push Not at h₁ h₃
    exact ⟨⟨h₁.2, h₂, h₃.2.2, h₄⟩, rfl⟩
  · intro h
    obtain ⟨⟨h₁, h₂, h₃, h₄⟩, rfl⟩ := h
    exact ⟨(), by tauto, (), h₂, (), by simp [hhash], (), by simp [hlen, haln, h₃], (), trivial,
      (), by omega, (), by omega, _, rfl, _, ⟨h₄, rfl⟩, rfl⟩

/-- What all users have become after the outer loop. -/
theorem checkUsers_ok {apiSalt : Str} {reserved : List Port} {seen : Seen} {us : List ServerUser}
    {d : Draws} {r : Seen × List ServerUser × Draws}
    (h : checkUsers P apiSalt reserved seen us d = .ok r) :
    (∀ u ∈ r.2.1, UserOk P apiSalt u) ∧ (∀ u ∈ r.2.1, ∀ t ∈ u.tunnels, NameFor t.id t.proxyName) ∧
      AdmitsUsers reserved seen r.2.1 ∧ r.1 = seen.addUsers r.2.1 := by
  induction us generalizing seen d r with
  | nil =>
    simp only [checkUsers, Except.ok.injEq] at h
    subst h
    exact ⟨by simp, by simp, admitsUsers_nil _ _, rfl⟩
  | cons u us ih =>
    simp only [checkUsers] at h
    obtain ⟨⟨seen₁, u', d₁⟩, hu, h⟩ := bind_eq_ok.1 h
    obtain ⟨⟨seen₂, us', d₂⟩, hus, h⟩ := bind_eq_ok.1 h
    simp only [pure, Except.pure, Except.ok.injEq] at h
    subst h
    obtain ⟨h₁, h₂, h₃, hseen, -⟩ := checkUser_ok P hu
    simp only at h₁ h₂ h₃ hseen
    subst hseen
    obtain ⟨k₁, k₂, k₃, hseen⟩ := ih hus
    simp only at k₁ k₂ k₃ hseen
    subst hseen
    exact ⟨List.forall_mem_cons.2 ⟨h₁, k₁⟩, List.forall_mem_cons.2 ⟨h₂, k₂⟩,
      admitsUsers_cons.2 ⟨h₃, k₃⟩, rfl⟩

theorem checkUsers_self {apiSalt : Str} {reserved : List Port} {seen : Seen} {us : List ServerUser}
    (hus : ∀ u ∈ us, UserOk P apiSalt u) (d : Draws) {r : Seen × List ServerUser × Draws} :
    checkUsers P apiSalt reserved seen us d = .ok r ↔
      AdmitsUsers reserved seen (renameUsers us d).1 ∧
      r = (seen.addUsers (renameUsers us d).1, renameUsers us d) := by
  induction us generalizing seen d r with
  | nil => simp [checkUsers, renameUsers, admitsUsers_nil, Seen.addUsers, eq_comm]
  | cons u us ih =>
    simp only [checkUsers, bind_eq_ok, checkUser_self P (hus u (by simp)),
      ih fun x hx => hus x (by simp [hx]), renameUsers, pure, Except.pure, Except.ok.injEq]
    refine ⟨?_, ?_⟩
    · intro hs
      obtain ⟨_, ⟨h₁, rfl⟩, _, ⟨h₂, rfl⟩, rfl⟩ := hs
      exact ⟨admitsUsers_cons.2 ⟨h₁, h₂⟩, rfl⟩
    · intro hs
      obtain ⟨h, rfl⟩ := hs
      obtain ⟨h₁, h₂⟩ := admitsUsers_cons.1 h
      exact ⟨_, ⟨h₁, rfl⟩, _, ⟨h₂, rfl⟩, rfl⟩

/-! ## Valid configurations -/

/-- What one pass of `normalize_loaded_config` establishes. -/
structure Valid (c : ServerConfig) : Prop where
  settings : checkSettings P c = .ok ()
  users : ∀ u ∈ c.users, UserOk P c.apiSalt u
  names : ∀ t ∈ c.tunnels, NameFor t.id t.proxyName
  distinct : AdmitsUsers c.reserved Seen.empty c.users
  disjoint : ∀ t ∈ c.tunnels, ∀ u ∈ c.tunnels, t.remotePort ≠ u.backendPort
  sorted : c.users.Pairwise fun u v => u.account ≤ v.account

end

theorem Valid.protocols {P : Primitives} {c : ServerConfig} (h : Valid P c) :
    ∀ t ∈ c.tunnels, t.protocol = tcp ∨ t.protocol = udp := by
  intro t ht
  obtain ⟨u, hu, htu⟩ := List.mem_flatMap.1 ht
  exact ((h.users u hu).tunnels.each t htu).protocol

theorem addUsers_ports (seen : Seen) (us : List ServerUser) :
    (seen.addUsers us).publicPortNumbers =
        ((us.flatMap (·.tunnels)).map (·.remotePort)).reverse ++ seen.publicPortNumbers ∧
      (seen.addUsers us).backendPorts =
        ((us.flatMap (·.tunnels)).map (·.backendPort)).reverse ++ seen.backendPorts := by
  induction us generalizing seen with
  | nil => exact ⟨rfl, rfl⟩
  | cons u us ih =>
    obtain ⟨h₁, h₂⟩ := ih (seen.addUser u)
    rw [show seen.addUsers (u :: us) = (seen.addUser u).addUsers us from rfl, h₁, h₂, Seen.addUser,
      insertTunnels_eq]
    simp [Seen.insertUser]

/-! ## Sorting by account -/

theorem sortUsers_perm (us : List ServerUser) : (sortUsers us).Perm us :=
  List.perm_insertionSort _ us

instance : Std.Total fun u v : ServerUser => u.account ≤ v.account :=
  ⟨fun u v => le_total u.account v.account⟩

instance : IsTrans ServerUser fun u v => u.account ≤ v.account := ⟨fun _ _ _ => le_trans⟩

theorem sortUsers_sorted (us : List ServerUser) :
    (sortUsers us).Pairwise fun u v => u.account ≤ v.account :=
  List.pairwise_insertionSort _ us

theorem sortUsers_self {us : List ServerUser} (h : us.Pairwise fun u v => u.account ≤ v.account) :
    sortUsers us = us :=
  List.Pairwise.insertionSort_eq h

theorem sorted_of_accounts {us vs : List ServerUser}
    (h : vs.map (·.account) = us.map (·.account))
    (hs : us.Pairwise fun u v => u.account ≤ v.account) :
    vs.Pairwise fun u v => u.account ≤ v.account := by
  have hacc : (us.map (·.account)).Pairwise (· ≤ ·) := List.pairwise_map.2 hs
  rw [← h] at hacc
  exact List.pairwise_map.1 hacc

theorem NewIn.perm {α : Type} {l k seen : List α} (hp : l.Perm k) (h : NewIn l seen) :
    NewIn k seen :=
  ⟨hp.nodup_iff.1 h.1, fun x hx => h.2 x (hp.mem_iff.2 hx)⟩

theorem Admits.perm {reserved : List Port} {seen : Seen} {ts us : List Tunnel} (hp : ts.Perm us)
    (h : Admits reserved seen ts) : Admits reserved seen us where
  ids := h.ids.perm (hp.map _)
  names := h.names.perm (hp.map _)
  publicPorts := h.publicPorts.perm (hp.map _)
  backendPorts := h.backendPorts.perm (hp.map _)
  remote t ht := h.remote t (hp.mem_iff.2 ht)
  backend t ht := h.backend t (hp.mem_iff.2 ht)

theorem AdmitsUsers.perm {reserved : List Port} {seen : Seen} {us vs : List ServerUser}
    (hp : us.Perm vs) (h : AdmitsUsers reserved seen us) : AdmitsUsers reserved seen vs where
  accounts := h.accounts.perm (hp.map _)
  ids := h.ids.perm (hp.map _)
  secrets := h.secrets.perm (hp.map _)
  tunnels := h.tunnels.perm (hp.flatMap_right _)

section
variable (P : Primitives)

/-- No remote port is a backend port. -/
def PortsApart (us : List ServerUser) : Prop :=
  ∀ t ∈ us.flatMap (·.tunnels), ∀ u ∈ us.flatMap (·.tunnels), t.remotePort ≠ u.backendPort

theorem find_ports_none (us : List ServerUser) :
    (Seen.empty.addUsers us).publicPortNumbers.find?
        (· ∈ (Seen.empty.addUsers us).backendPorts) = none ↔ PortsApart us := by
  obtain ⟨h₁, h₂⟩ := addUsers_ports Seen.empty us
  rw [h₁, h₂, List.find?_eq_none]
  simp only [Seen.empty, List.append_nil, List.mem_reverse, decide_eq_true_eq, List.mem_map, PortsApart]
  refine ⟨?_, ?_⟩
  · intro h t ht u hu e
    exact h _ ⟨t, ht, rfl⟩ ⟨u, hu, e.symm⟩
  · intro h _ hx hs
    obtain ⟨t, ht, rfl⟩ := hx
    obtain ⟨u, hu, e⟩ := hs
    exact h t ht u hu e.symm

theorem tunnels_sublist {us : List ServerUser} {u : ServerUser} (hu : u ∈ us) :
    u.tunnels.Sublist (us.flatMap (·.tunnels)) := by
  rw [List.flatMap_def]
  exact List.sublist_flatten_of_mem (List.mem_map_of_mem hu)

theorem normalize_ok_iff {c : ServerConfig} {d : Draws} {r : ServerConfig × Draws} :
    normalizeLoadedConfig P c d = .ok r ↔
      checkSettings P c = .ok () ∧ ∃ k, checkUsers P c.apiSalt c.reserved Seen.empty c.users d = .ok k ∧
        k.1.publicPortNumbers.find? (· ∈ k.1.backendPorts) = none ∧
        r = ({ c with users := sortUsers k.2.1 }, k.2.2) := by
  unfold normalizeLoadedConfig
  simp only [bind_eq_ok]
  refine ⟨?_, ?_⟩
  · intro hx
    obtain ⟨_, h₁, k, hk, h⟩ := hx
    split at h
    · cases h
    · rename_i hf
      simp only [pure, Except.pure, Except.ok.injEq] at h
      exact ⟨h₁, k, hk, hf, h.symm⟩
  · intro hx
    obtain ⟨h₁, k, hk, hf, rfl⟩ := hx
    exact ⟨(), h₁, k, hk, by rw [hf]; rfl⟩

/-- **Whatever `normalize_loaded_config` returns is valid.** -/
theorem normalize_valid {c : ServerConfig} {d : Draws} {r : ServerConfig × Draws}
    (h : normalizeLoadedConfig P c d = .ok r) :
    Valid P r.1 ∧ r.1 = { c with users := r.1.users } := by
  obtain ⟨hs, ⟨seen, us, d'⟩, hk, hf, rfl⟩ := (normalize_ok_iff P).1 h
  obtain ⟨h₁, h₂, h₃, hseen⟩ := checkUsers_ok P hk
  simp only at h₁ h₂ h₃ hseen
  subst hseen
  have hp := sortUsers_perm us
  have hmem : ∀ t, t ∈ (sortUsers us).flatMap (·.tunnels) ↔ t ∈ us.flatMap (·.tunnels) :=
    fun t => (hp.flatMap_right _).mem_iff
  have hd := (find_ports_none us).1 hf
  refine ⟨⟨hs, fun u hu => h₁ u (hp.mem_iff.1 hu), ?_, h₃.perm hp.symm, ?_, sortUsers_sorted us⟩, rfl⟩
  · intro t ht
    obtain ⟨u, hu, htu⟩ := List.mem_flatMap.1 ((hmem t).1 ht)
    exact h₂ u hu t htu
  · exact fun t ht u hu => hd t ((hmem t).1 ht) u ((hmem u).1 hu)

/-- A configuration that the function returns as it is is valid. -/
theorem valid_of_fixed {c : ServerConfig} {d : Draws}
    (h : (normalizeLoadedConfig P c d).toOption.map Prod.fst = some c) : Valid P c := by
  obtain ⟨d', hn⟩ := exists_of_fst h
  exact (normalize_valid P hn).1

/-- On normal fields the pass renames, checks that all keys differ, and sorts. -/
theorem normalize_clean_iff {c : ServerConfig} (hs : checkSettings P c = .ok ())
    (hu : ∀ u ∈ c.users, UserOk P c.apiSalt u) (d : Draws) {r : ServerConfig × Draws} :
    normalizeLoadedConfig P c d = .ok r ↔
      AdmitsUsers c.reserved Seen.empty (renameUsers c.users d).1 ∧
        PortsApart (renameUsers c.users d).1 ∧
        r = ({ c with users := sortUsers (renameUsers c.users d).1 }, (renameUsers c.users d).2) := by
  rw [normalize_ok_iff]
  simp only [checkUsers_self P hu]
  refine ⟨?_, ?_⟩
  · intro h
    obtain ⟨-, _, ⟨h₁, rfl⟩, hf, rfl⟩ := h
    exact ⟨h₁, (find_ports_none _).1 hf, rfl⟩
  · intro h
    obtain ⟨h₁, hd, rfl⟩ := h
    exact ⟨hs, _, ⟨h₁, rfl⟩, (find_ports_none _).2 hd, rfl⟩

theorem renameUsers_of_clean {us : List ServerUser}
    (hn : ∀ t ∈ us.flatMap (·.tunnels), NameFor t.id t.proxyName)
    (hc : ∀ t ∈ us.flatMap (·.tunnels), ¬ DashOnly t.id) (d : Draws) : renameUsers us d = (us, d) := by
  induction us with
  | nil => rfl
  | cons u us ih =>
    simp only [List.flatMap_cons, List.mem_append] at hn hc
    have hu : renameUser u d = (u, d) := by
      unfold renameUser
      rw [renameTunnels_of_clean (fun t ht => hn t (.inl ht)) (fun t ht => hc t (.inl ht))]
    simp only [renameUsers, hu, ih (fun t ht => hn t (.inr ht)) (fun t ht => hc t (.inr ht))]

/-- No tunnel has an id that leaves no cleaned form. -/
def NoDash (c : ServerConfig) : Prop := ∀ t ∈ c.tunnels, ¬ DashOnly t.id

instance (c : ServerConfig) : Decidable (NoDash c) := by unfold NoDash; infer_instance

/-- **A valid configuration is a fixed point**, as long as no name is drawn. -/
theorem normalize_self {c : ServerConfig} (h : Valid P c) (hc : NoDash c) (d : Draws) :
    normalizeLoadedConfig P c d = .ok (c, d) := by
  have hr := renameUsers_of_clean h.names hc d
  rw [normalize_clean_iff P h.settings h.users, hr, sortUsers_self h.sorted]
  exact ⟨h.distinct, h.disjoint, rfl⟩

theorem checkSettings_ok {c : ServerConfig} (h : checkSettings P c = .ok ()) :
    (c.apiPort ≠ 0 ∧ c.frpsBindPort ≠ 0 ∧ c.pluginPort ≠ 0) ∧
      (c.apiPort ≠ c.frpsBindPort ∧ c.apiPort ≠ c.pluginPort ∧ c.frpsBindPort ≠ c.pluginPort) ∧
      ∃ salt, P.b64decode c.apiSalt = some salt ∧ salt.length = 32 := by
  unfold checkSettings at h
  simp only [bailIf_bind_eq_ok] at h
  obtain ⟨h₁, h₂, -, h⟩ := h
  push Not at h₁ h₂
  refine ⟨h₁, h₂, ?_⟩
  split at h
  · cases h
  · rename_i salt hs
    rw [bailIf_eq_ok] at h
    push Not at h
    exact ⟨salt, hs, h.1⟩

end

end OrangeFrp.Storage
