import OrangeFrp.Storage.Store

/-!
# The order of the writes

`write_snapshot` upserts every tunnel row before it deletes the stale ones. For
a snapshot in which one user's tunnels change, the statements that can fail are
that user's, against the rows of that user and of the users written later.

Proxy names of ids without a cleaned form are drawn again at every write;
`Fresh` says that the names drawn are new.

* `renameTunnels_nodup_iff`: the renamed names are distinct exactly when the draws are fresh.
* `writeSnapshot_ok_iff_user`: the snapshot is written exactly when
  `Core.Table.OrderSafe` holds of the changed user's rows.
-/
namespace OrangeFrp.Storage

open OrangeFrp.Core OrangeFrp.Core.Table

/-! ## Fresh names -/

/-- The names that the first `n` draws give. -/
def drawnNames : Draws → Nat → List Str
  | _, 0 => []
  | d, n + 1 => (fgPrefix ++ d.head.simple.take 12) :: drawnNames d.tail n

/-- The names drawn differ from each other and from the names in use. -/
structure Fresh (d : Draws) (n : Nat) (used : List Str) : Prop where
  nodup : (drawnNames d n).Nodup
  unused : ∀ name ∈ drawnNames d n, name ∉ used

instance (d : Draws) (n : Nat) (used : List Str) : Decidable (Fresh d n used) :=
  decidable_of_iff ((drawnNames d n).Nodup ∧ ∀ name ∈ drawnNames d n, name ∉ used)
    ⟨fun h => ⟨h.1, h.2⟩, fun h => ⟨h.1, h.2⟩⟩

def dashCount (ts : List Tunnel) : Nat := ts.countP fun t => DashOnly t.id

theorem Fresh.tail {d : Draws} {n : Nat} {used : List Str} (h : Fresh d (n + 1) used) :
    Fresh d.tail n used :=
  ⟨(List.nodup_cons.1 h.nodup).2, fun x hx => h.unused x (List.mem_cons_of_mem _ hx)⟩

theorem dashCount_cons_dash {t : Tunnel} (h : DashOnly t.id) (ts : List Tunnel) :
    dashCount (t :: ts) = dashCount ts + 1 := by simp [dashCount, h]

theorem dashCount_cons_clean {t : Tunnel} (h : ¬ DashOnly t.id) (ts : List Tunnel) :
    dashCount (t :: ts) = dashCount ts := by simp [dashCount, h]

theorem renameTunnel_of_dash {t : Tunnel} (h : DashOnly t.id) (d : Draws) :
    renameTunnel t d = ({ t with proxyName := fgPrefix ++ d.head.simple.take 12 }, d.tail) := by
  rw [renameTunnel, proxyNameFor_of_dash h]

theorem renameTunnel_draws_of_clean {t : Tunnel} (h : ¬ DashOnly t.id) (d : Draws) :
    (renameTunnel t d).2 = d := by
  rw [renameTunnel, proxyNameFor_of_clean h]

/-- A renamed tunnel is one of the list, under a drawn name if its id leaves none. -/
theorem mem_renameTunnels {ts : List Tunnel} {d : Draws} {t : Tunnel}
    (h : t ∈ (renameTunnels ts d).1) :
    (∃ u ∈ ts, SameButName u t) ∧ (DashOnly t.id → t.proxyName ∈ drawnNames d (dashCount ts)) := by
  induction ts generalizing d with
  | nil => simp [renameTunnels] at h
  | cons u ts ih =>
    rcases List.mem_cons.1 h with rfl | h
    · refine ⟨⟨u, List.mem_cons_self, rfl, renameTunnel_nameFor u d⟩, fun hu => ?_⟩
      have hu : DashOnly u.id := hu
      rw [dashCount_cons_dash hu, renameTunnel_of_dash hu]
      exact List.mem_cons_self
    · obtain ⟨⟨v, hv, hs⟩, hd⟩ := ih h
      refine ⟨⟨v, List.mem_cons_of_mem _ hv, hs⟩, fun ht => ?_⟩
      by_cases hu : DashOnly u.id
      · rw [dashCount_cons_dash hu]
        rw [renameTunnel_of_dash hu] at hd
        exact List.mem_cons_of_mem _ (hd ht)
      · rw [dashCount_cons_clean hu]
        rw [renameTunnel_draws_of_clean hu] at hd
        exact hd ht

/-- A name that is not drawn is the one the tunnel had. -/
theorem SameButName.name_eq {t u : Tunnel} (h : SameButName t u) (ht : NameFor t.id t.proxyName)
    (hc : ¬ DashOnly u.id) : u.proxyName = t.proxyName := by
  have hid : u.id = t.id := by rw [h.eq]
  have hc' : ¬ DashOnly t.id := hid ▸ hc
  rw [h.name.eq_of_clean hc, ht.eq_of_clean hc', hid]

/-- The names that no pass draws. -/
def cleanNames (ts : List Tunnel) : List Str :=
  (ts.filter fun t => ¬ DashOnly t.id).map (·.proxyName)

/-- **The names after a pass** are the drawn ones and those that were not drawn. -/
theorem renameTunnels_names_perm {ts : List Tunnel} (hn : ∀ t ∈ ts, NameFor t.id t.proxyName)
    (d : Draws) : ((renameTunnels ts d).1.map (·.proxyName)).Perm
      (drawnNames d (dashCount ts) ++ cleanNames ts) := by
  induction ts generalizing d with
  | nil => exact .nil
  | cons u ts ih =>
    rw [List.forall_mem_cons] at hn
    rw [renameTunnels, List.map_cons]
    by_cases hu : DashOnly u.id
    · rw [dashCount_cons_dash hu, renameTunnel_of_dash hu, drawnNames, List.cons_append,
        show cleanNames (u :: ts) = cleanNames ts by simp [cleanNames, hu]]
      exact (ih hn.2 d.tail).cons _
    · rw [dashCount_cons_clean hu, renameTunnel_of_clean hn.1 hu,
        show cleanNames (u :: ts) = u.proxyName :: cleanNames ts by simp [cleanNames, hu]]
      exact ((ih hn.2 d).cons _).trans List.perm_middle.symm

theorem mem_cleanNames {ts : List Tunnel} {name : Str} (h : name ∈ cleanNames ts) :
    name ∈ ts.map (·.proxyName) :=
  List.map_subset _ (List.filter_subset_self _) h

/-- **When the names differ after a pass**, if they did before. -/
theorem renameTunnels_nodup_iff {ts : List Tunnel} {d : Draws}
    (hn : ∀ t ∈ ts, NameFor t.id t.proxyName) (hd : (ts.map (·.proxyName)).Nodup) :
    ((renameTunnels ts d).1.map (·.proxyName)).Nodup ↔ Fresh d (dashCount ts) (cleanNames ts) := by
  have hclean : (cleanNames ts).Nodup := (List.filter_sublist.map _).nodup hd
  rw [(renameTunnels_names_perm hn d).nodup_iff, List.nodup_append']
  exact ⟨fun h => ⟨h.1, fun x hx hc => h.2.2 hx hc⟩, fun h => ⟨h.nodup, hclean, fun x hx hc => h.unused x hx hc⟩⟩

theorem renameUsers_tunnels (us : List ServerUser) (d : Draws) :
    (renameUsers us d).1.flatMap (·.tunnels) = (renameTunnels (us.flatMap (·.tunnels)) d).1 ∧
      (renameUsers us d).2 = (renameTunnels (us.flatMap (·.tunnels)) d).2 := by
  induction us generalizing d with
  | nil => exact ⟨rfl, rfl⟩
  | cons u us ih =>
    rw [List.flatMap_cons, renameTunnels_append, renameUsers, List.flatMap_cons]
    exact ⟨congrArg _ (ih _).1, (ih _).2⟩

/-- Renaming keeps every field of a user but the tunnels. -/
def SameButNames (u v : ServerUser) : Prop :=
  v = { u with tunnels := v.tunnels } ∧ List.Forall₂ SameButName u.tunnels v.tunnels

theorem renameUsers_forall₂ (us : List ServerUser) (d : Draws) :
    List.Forall₂ SameButNames us (renameUsers us d).1 := by
  induction us generalizing d with
  | nil => exact .nil
  | cons u us ih => exact .cons ⟨rfl, renameTunnels_forall₂ _ _⟩ (ih _)

theorem map_eq_of_sameButNames {α : Type} (f : ServerUser → α)
    (hf : ∀ (u : ServerUser) (ts : List Tunnel), f { u with tunnels := ts } = f u)
    {us vs : List ServerUser} (h : List.Forall₂ SameButNames us vs) : vs.map f = us.map f :=
  map_eq_of_forall₂ (fun u v h => by rw [h.1, hf]) h

theorem sameButName_refl {ts : List Tunnel} (hn : ∀ t ∈ ts, NameFor t.id t.proxyName) :
    List.Forall₂ SameButName ts ts :=
  List.forall₂_same.2 fun t ht => ⟨rfl, hn t ht⟩

theorem sameButNames_refl {us : List ServerUser}
    (hn : ∀ u ∈ us, ∀ t ∈ u.tunnels, NameFor t.id t.proxyName) : List.Forall₂ SameButNames us us :=
  List.forall₂_same.2 fun u hu => ⟨rfl, sameButName_refl (hn u hu)⟩

theorem eq_of_sameButName {ts us : List Tunnel} (h : List.Forall₂ SameButName ts us)
    (hn : ∀ t ∈ ts, NameFor t.id t.proxyName) (hc : ∀ t ∈ ts, ¬ DashOnly t.id) : us = ts := by
  induction h with
  | nil => rfl
  | @cons t u ts us htu _ ih =>
    rw [List.forall_mem_cons] at hn hc
    rw [ih hn.2 hc.2]
    have hname := htu.name_eq hn.1 (by rw [htu.id_eq]; exact hc.1)
    rw [htu.eq, hname]

/-- Without an id that leaves no cleaned form nothing is renamed. -/
theorem eq_of_sameButNames {us vs : List ServerUser} (h : List.Forall₂ SameButNames us vs)
    (hn : ∀ u ∈ us, ∀ t ∈ u.tunnels, NameFor t.id t.proxyName)
    (hc : ∀ u ∈ us, ∀ t ∈ u.tunnels, ¬ DashOnly t.id) : vs = us := by
  induction h with
  | nil => rfl
  | @cons u v us vs huv _ ih =>
    rw [List.forall_mem_cons] at hn hc
    rw [ih hn.2 hc.2, huv.1, eq_of_sameButName huv.2 hn.1 hc.1]

/-- The users around one of them, once all have been renamed. -/
structure RenamedAt (d : Draws) (pre : List ServerUser) (u : ServerUser) (post us : List ServerUser)
    (pre' : List ServerUser) (u' : ServerUser) (post' : List ServerUser) : Prop where
  users : us = pre' ++ u' :: post'
  before : List.Forall₂ SameButNames pre pre'
  user : SameButNames u u'
  after : List.Forall₂ SameButNames post post'
  drawn : ∀ v ∈ pre' ++ u' :: post', ∀ t ∈ v.tunnels, DashOnly t.id →
    t.proxyName ∈ drawnNames d (dashCount ((pre ++ u :: post).flatMap (·.tunnels)))

theorem renamedAt (pre : List ServerUser) (u : ServerUser) (post : List ServerUser) (d : Draws) :
    ∃ pre' u' post', RenamedAt d pre u post (renameUsers (pre ++ u :: post) d).1 pre' u' post' := by
  obtain ⟨pre', u', post', hk, hpre, hu, hpost⟩ :=
    forall₂_middle (renameUsers_forall₂ (pre ++ u :: post) d)
  refine ⟨pre', u', post', hk, hpre, hu, hpost, fun v hv t ht hdash => ?_⟩
  have hm : t ∈ (renameUsers (pre ++ u :: post) d).1.flatMap (·.tunnels) := by
    rw [hk]; exact List.mem_flatMap.2 ⟨v, hv, ht⟩
  rw [(renameUsers_tunnels _ d).1] at hm
  exact (mem_renameTunnels hm).2 hdash

section
variable {d : Draws} {pre post us pre' post' : List ServerUser} {u u' : ServerUser}

/-- The others are as they were. -/
theorem RenamedAt.same (h : RenamedAt d pre u post us pre' u' post')
    (hn : ∀ v ∈ pre ++ post, ∀ t ∈ v.tunnels, NameFor t.id t.proxyName)
    (hc : ∀ v ∈ pre ++ post, ∀ t ∈ v.tunnels, ¬ DashOnly t.id) : pre' = pre ∧ post' = post :=
  ⟨eq_of_sameButNames h.before (fun v hv => hn v (List.mem_append_left _ hv))
      fun v hv => hc v (List.mem_append_left _ hv),
    eq_of_sameButNames h.after (fun v hv => hn v (List.mem_append_right _ hv))
      fun v hv => hc v (List.mem_append_right _ hv)⟩

/-- **The others are as they were exactly when none has an id without a cleaned
form**, as long as the drawn names are new to them. -/
theorem RenamedAt.same_iff (h : RenamedAt d pre u post us pre' u' post')
    (hn : ∀ v ∈ pre ++ post, ∀ t ∈ v.tunnels, NameFor t.id t.proxyName)
    (hnew : ∀ v ∈ pre ++ post, ∀ t ∈ v.tunnels,
      t.proxyName ∉ drawnNames d (dashCount ((pre ++ u :: post).flatMap (·.tunnels)))) :
    pre' ++ post' = pre ++ post ↔ ∀ v ∈ pre ++ post, ∀ t ∈ v.tunnels, ¬ DashOnly t.id := by
  refine ⟨?_, ?_⟩
  · intro he v hv t ht hdash
    refine hnew v hv t ht (h.drawn v ?_ t ht hdash)
    rw [← he] at hv
    rcases List.mem_append.1 hv with hv | hv <;> simp [hv]
  · intro hc
    rw [(h.same hn hc).1, (h.same hn hc).2]

end

/-! ## A save of normal fields -/

/-- The configuration that `save` writes, but for its revision. -/
def renamed (c : ServerConfig) (d : Draws) : ServerConfig :=
  { c with users := (renameUsers c.users d).1 }

/-- What a save of normal fields has done: only names are drawn again. -/
structure Rewritten (P : Primitives) (disk : Disk) (c : ServerConfig) (d : Draws) (disk' : Disk)
    (c' : ServerConfig) : Prop where
  eq : c' = { renamed c d with revision := nextRevision c.revision }
  valid : Valid P c'
  holds : Holds disk'.db c'
  fits : ∀ u ∈ c'.users, CountersFit u
  written : ∃ db, SameButPasswords disk.db db ∧ writeSnapshot db c' = .ok disk'.db
  backups : disk'.backups = disk.backups
  legacy : disk'.legacy = disk.legacy

theorem save_rewritten {P : Primitives} {disk disk' : Disk} {c c' : ServerConfig} {e e' : Entropy}
    {row : SettingsRow} (hset : disk.db.settings = some row) (hs : checkSettings P c = .ok ())
    (hu : ∀ u ∈ c.users, UserOk P c.apiSalt u)
    (ho : c.users.Pairwise fun u v => u.account ≤ v.account)
    (h : save P disk c e = (disk', .ok (c', e'))) : Rewritten P disk c e.uuids disk' c' := by
  obtain ⟨disk₁, e₁, hsaved⟩ := save_saved h
  obtain ⟨hsame, hback, hleg, he⟩ := initializeStore_initialized hset hsaved.initialized
  obtain ⟨c₁, hn, hc'⟩ := hsaved.normalized
  rw [he] at hn
  obtain ⟨-, -, hc₁⟩ := (normalize_clean_iff P hs hu e.uuids).1 hn
  have hcol := map_eq_of_sameButNames (·.account) (fun _ _ => rfl) (renameUsers_forall₂ c.users e.uuids)
  rw [sortUsers_self (sorted_of_accounts hcol ho)] at hc₁
  obtain rfl : c₁ = renamed c e.uuids := congrArg Prod.fst hc₁
  exact ⟨hc', hsaved.valid, hsaved.holds, (writeSnapshot_inv hsaved.written).1,
    ⟨disk₁.db, hsame, hsaved.written⟩, hsaved.backups.trans hback, hsaved.legacy.trans hleg⟩

/-- Two lists of tunnels with the same columns but the proxy names. -/
structure SameColumns (ts us : List Tunnel) : Prop where
  ids : us.map (·.id) = ts.map (·.id)
  publicPorts : us.map Tunnel.publicKey = ts.map Tunnel.publicKey
  remotePorts : us.map (·.remotePort) = ts.map (·.remotePort)
  backendPorts : us.map (·.backendPort) = ts.map (·.backendPort)

theorem sameColumns_of_sameButName {ts us : List Tunnel} (h : List.Forall₂ SameButName ts us) :
    SameColumns ts us where
  ids := map_eq_of_sameButName (·.id) (fun _ _ => rfl) h
  publicPorts := map_eq_of_sameButName Tunnel.publicKey (fun _ _ => rfl) h
  remotePorts := map_eq_of_sameButName (·.remotePort) (fun _ _ => rfl) h
  backendPorts := map_eq_of_sameButName (·.backendPort) (fun _ _ => rfl) h

theorem SameColumns.symm {ts us : List Tunnel} (h : SameColumns ts us) : SameColumns us ts :=
  ⟨h.ids.symm, h.publicPorts.symm, h.remotePorts.symm, h.backendPorts.symm⟩

theorem forall_of_column {α : Type} {f : Tunnel → α} {p : α → Prop} {ts us : List Tunnel}
    (h : us.map f = ts.map f) (hp : ∀ t ∈ ts, p (f t)) : ∀ u ∈ us, p (f u) := by
  intro u hu
  obtain ⟨t, ht, he⟩ := List.mem_map.1 (h ▸ List.mem_map_of_mem hu)
  rw [← he]
  exact hp t ht

theorem SameColumns.admits {ts us : List Tunnel} (h : SameColumns ts us) {reserved : List Port}
    (hn : (us.map (·.proxyName)).Nodup) (ha : Admits reserved Seen.empty ts) :
    Admits reserved Seen.empty us where
  ids := by rw [h.ids]; exact ha.ids
  names := newIn_empty.2 hn
  publicPorts := by rw [h.publicPorts]; exact ha.publicPorts
  backendPorts := by rw [h.backendPorts]; exact ha.backendPorts
  remote := forall_of_column (p := (· ∉ reserved)) h.remotePorts ha.remote
  backend := forall_of_column (p := fun p => p ≠ 0 ∧ p ∉ reserved) h.backendPorts ha.backend

/-- **When the keys of the users differ after a pass.** -/
theorem admitsUsers_rename_iff {reserved : List Port} {us : List ServerUser} {d : Draws}
    (hn : ∀ t ∈ us.flatMap (·.tunnels), NameFor t.id t.proxyName)
    (hnames : ((us.flatMap (·.tunnels)).map (·.proxyName)).Nodup) :
    AdmitsUsers reserved Seen.empty (renameUsers us d).1 ↔ AdmitsUsers reserved Seen.empty us ∧
      Fresh d (dashCount (us.flatMap (·.tunnels))) (cleanNames (us.flatMap (·.tunnels))) := by
  have hren := renameTunnels_nodup_iff (d := d) hn hnames
  have hcols := sameColumns_of_sameButName (renameTunnels_forall₂ (us.flatMap (·.tunnels)) d)
  have hus := renameUsers_forall₂ us d
  have hts := (renameUsers_tunnels us d).1
  have h₁ := map_eq_of_sameButNames (·.account) (fun _ _ => rfl) hus
  have h₂ := map_eq_of_sameButNames (·.id) (fun _ _ => rfl) hus
  have h₃ := map_eq_of_sameButNames (·.secret) (fun _ _ => rfl) hus
  refine ⟨?_, ?_⟩
  · intro h
    obtain ⟨k₁, k₂, k₃, k₄⟩ := h
    rw [h₁] at k₁
    rw [h₂] at k₂
    rw [h₃] at k₃
    rw [hts] at k₄
    exact ⟨⟨k₁, k₂, k₃, hcols.symm.admits hnames k₄⟩, hren.1 (newIn_empty.1 k₄.names)⟩
  · intro h
    obtain ⟨⟨k₁, k₂, k₃, k₄⟩, hf⟩ := h
    exact ⟨by rw [h₁]; exact k₁, by rw [h₂]; exact k₂, by rw [h₃]; exact k₃,
      by rw [hts]; exact hcols.admits (hren.2 hf) k₄⟩

/-- Drawing fresh names again does not change whether the keys of the users differ. -/
theorem admitsUsers_rename {reserved : List Port} {us : List ServerUser} {d : Draws}
    {used : List Str} (hn : ∀ t ∈ us.flatMap (·.tunnels), NameFor t.id t.proxyName)
    (hnames : ((us.flatMap (·.tunnels)).map (·.proxyName)).Nodup)
    (hf : Fresh d (dashCount (us.flatMap (·.tunnels))) used)
    (hused : ∀ t ∈ us.flatMap (·.tunnels), t.proxyName ∈ used) :
    AdmitsUsers reserved Seen.empty (renameUsers us d).1 ↔ AdmitsUsers reserved Seen.empty us := by
  rw [admitsUsers_rename_iff hn hnames, and_iff_left]
  refine ⟨hf.nodup, fun name hname hc => hf.unused name hname ?_⟩
  obtain ⟨t, ht, rfl⟩ := List.mem_map.1 (mem_cleanNames hc)
  exact hused t ht

theorem portsApart_rename {us : List ServerUser} (d : Draws) (h : PortsApart us) :
    PortsApart (renameUsers us d).1 := by
  have hcols := sameColumns_of_sameButName (renameTunnels_forall₂ (us.flatMap (·.tunnels)) d)
  unfold PortsApart at h ⊢
  rw [(renameUsers_tunnels us d).1]
  exact forall_of_column
    (p := fun p => ∀ u ∈ (renameTunnels (us.flatMap (·.tunnels)) d).1, p ≠ u.backendPort)
    hcols.remotePorts
    fun t ht => forall_of_column (f := (·.backendPort)) (p := (t.remotePort ≠ ·)) hcols.backendPorts (h t ht)

/-- A valid configuration is accepted again under new names. -/
theorem Valid.normalize {P : Primitives} {c : ServerConfig} (hv : Valid P c) {d : Draws} {used : List Str}
    (hf : Fresh d (dashCount c.tunnels) used) (hused : ∀ t ∈ c.tunnels, t.proxyName ∈ used) :
    normalizeLoadedConfig P c d = .ok (renamed c d, (renameUsers c.users d).2) := by
  have hcol := map_eq_of_sameButNames (·.account) (fun _ _ => rfl) (renameUsers_forall₂ c.users d)
  rw [normalize_clean_iff P hv.settings hv.users, sortUsers_self (sorted_of_accounts hcol hv.sorted)]
  exact ⟨(admitsUsers_rename hv.names (newIn_empty.1 hv.distinct.tunnels.names) hf hused).2 hv.distinct,
    portsApart_rename d hv.disjoint, rfl⟩

theorem renamed_protocols {c : ServerConfig} {d : Draws}
    (hp : ∀ t ∈ c.tunnels, t.protocol = tcp ∨ t.protocol = udp) :
    ∀ t ∈ (renamed c d).tunnels, t.protocol = tcp ∨ t.protocol = udp := by
  intro t ht
  rw [ServerConfig.tunnels, renamed, (renameUsers_tunnels c.users d).1] at ht
  obtain ⟨o, ho, hot⟩ := exists_of_forall₂ (renameTunnels_forall₂ _ d) ht
  rw [hot.eq]
  exact hp o ho

theorem renamed_fits {c : ServerConfig} {d : Draws} (hfit : ∀ u ∈ c.users, CountersFit u) :
    ∀ u ∈ (renamed c d).users, CountersFit u := by
  intro u hu
  obtain ⟨v, hv, hvu⟩ := exists_of_forall₂ (renameUsers_forall₂ c.users d) hu
  have h := hfit v hv
  rw [hvu.1]
  exact ⟨h.limit, h.used, h.records⟩

/-! ## A snapshot in which one user changes -/

/-- The rows that the statements before those of the user at hand leave alone. -/
def rowsFrom (db : Db) (pre : List ServerUser) : List TunnelRow :=
  db.tunnels.rows.filter fun r => r.userId ∉ pre.map (·.id)

/-- What relates the stored rows to the users that are written: the same users
are stored, no tunnel of the users before or after `a` collides with a stored
row, and a stored row belongs to an earlier user exactly when its id does. -/
structure OneUser (db : Db) (pre : List ServerUser) (a : ServerUser) (post : List ServerUser) :
    Prop where
  users : ∀ r ∈ db.users.rows, ∃ u ∈ pre ++ a :: post,
    r.id = u.id ∧ r.account = u.account ∧ r.secret = u.secret
  owner : ∀ r ∈ db.tunnels.rows, r.userId ∈ (pre ++ a :: post).map (·.id)
  earlier : ∀ r ∈ db.tunnels.rows,
    r.id ∈ (pre.flatMap (·.tunnels)).map (·.id) ↔ r.userId ∈ pre.map (·.id)
  apart : ∀ r ∈ db.tunnels.rows, ∀ u ∈ pre ++ post, ∀ t ∈ u.tunnels, r.id ≠ t.id →
    tunnelSchema.clash r (TunnelRow.of u.id t) = false

theorem tunnelRows_coherent {reserved : List Port} {us : List ServerUser}
    (hadm : AdmitsUsers reserved Seen.empty us)
    (hproto : ∀ t ∈ us.flatMap (·.tunnels), t.protocol = tcp ∨ t.protocol = udp) :
    Coherent tunnelSchema (us.flatMap tunnelRows) := by
  have hadm := hadm.tunnels
  have hmap : (us.flatMap tunnelRows).map (·.toTunnel) = us.flatMap (·.tunnels) := by
    simp only [List.map_flatMap, tunnelRows, List.map_map]
    congr 1
    funext u
    exact List.map_id _
  have key : ∀ {α : Type} (f : Tunnel → α), ((us.flatMap (·.tunnels)).map f).Nodup →
      (us.flatMap tunnelRows).Pairwise fun x y => f x.toTunnel ≠ f y.toTunnel := by
    intro α f hnd
    rw [← hmap, List.map_map] at hnd
    exact List.pairwise_map.1 hnd
  refine ⟨fun r hr => ?_, ?_⟩
  · obtain ⟨u, hu, t, ht, rfl⟩ := mem_tunnelRows.1 hr
    have := hproto t (List.mem_flatMap.2 ⟨u, hu, ht⟩)
    simpa [tunnelSchema, TunnelRow.of] using this
  · have h₁ := key (·.id) (newIn_empty.1 hadm.ids)
    have h₂ := key (·.proxyName) (newIn_empty.1 hadm.names)
    have h₃ := key (·.backendPort) (newIn_empty.1 hadm.backendPorts)
    have h₄ := key Tunnel.publicKey (newIn_empty.1 hadm.publicPorts)
    refine ((h₁.and h₂).and (h₃.and h₄)).imp ?_
    intro x y h
    obtain ⟨⟨h₁, h₂⟩, h₃, h₄⟩ := h
    exact ⟨h₁, by simp [tunnelSchema, h₂, h₃, h₄]⟩

theorem userRows_coherent {reserved : List Port} {us : List ServerUser}
    (hadm : AdmitsUsers reserved Seen.empty us) : Coherent userSchema (us.map UserRow.of) := by
  refine ⟨fun _ _ => rfl, List.pairwise_map.2 ?_⟩
  have h₁ := List.pairwise_map.1 (newIn_empty.1 hadm.ids)
  have h₂ := List.pairwise_map.1 (newIn_empty.1 hadm.accounts)
  have h₃ := List.pairwise_map.1 (newIn_empty.1 hadm.secrets)
  refine (h₁.and (h₂.and h₃)).imp ?_
  intro x y h
  obtain ⟨h₁, h₂, h₃⟩ := h
  exact ⟨h₁, by simp [userSchema, UserRow.of, h₂, h₃]⟩

theorem eq_of_column {α : Type} {us : List ServerUser} {f : ServerUser → α} (h : (us.map f).Nodup)
    {u v : ServerUser} (hu : u ∈ us) (hv : v ∈ us) (he : f u = f v) : u = v :=
  List.inj_on_of_nodup_map h hu hv he

/-- No user is missing, so the first deletion removes nothing. -/
theorem deleteMissingUsers_rows {db : Db} {us : List ServerUser}
    (hu : ∀ r ∈ db.users.rows, r.id ∈ us.map (·.id))
    (ht : ∀ r ∈ db.tunnels.rows, r.userId ∈ us.map (·.id)) :
    (deleteMissingUsers db us).users.rows = db.users.rows ∧
      (deleteMissingUsers db us).tunnels.rows = db.tunnels.rows := by
  simp only [deleteMissingUsers, filter_rows, List.filter_eq_self]
  refine ⟨fun r hr => by simpa using hu r hr, fun r hr => ?_⟩
  have := ht r hr
  simp [this]

/-- What lets a snapshot be written on the stored rows: the counters fit, and no statement meets
a row that is in its way. -/
structure SnapshotFits (db : Db) (c : ServerConfig) : Prop where
  counters : ∀ u ∈ c.users, CountersFit u
  users : OrderSafe userSchema.key (userSchema.clash · · = true)
    (deleteMissingUsers db c.users).users.rows (c.users.map UserRow.of)
  tunnels : OrderSafe tunnelSchema.key (tunnelSchema.clash · · = true)
    (deleteMissingUsers db c.users).tunnels.rows (c.users.flatMap tunnelRows)

/-- **When a valid configuration is written.** -/
theorem Valid.written_iff {P : Primitives} {db : Db} {c : ServerConfig} (hv : Valid P c) :
    (∃ db', writeSnapshot db c = .ok db') ↔ SnapshotFits db c := by
  rw [writeSnapshot_ok_iff, upsertAll_ok_iff _ _ (userRows_coherent hv.distinct),
    upsertAll_ok_iff _ _ (tunnelRows_coherent hv.distinct hv.protocols)]
  exact ⟨fun h => ⟨h.1, h.2.1, h.2.2⟩, fun h => ⟨h.counters, h.users, h.tunnels⟩⟩

theorem SnapshotFits.samePasswords {db db' : Db} {c : ServerConfig} (h : SnapshotFits db c)
    (hs : SameButPasswords db db') : SnapshotFits db' c := by
  refine ⟨h.counters, h.users.mono fun x hx => .inl ?_, ?_⟩
  · -- the row that stood there differs in its password at most
    obtain ⟨hx, hin⟩ := List.mem_filter.1 hx
    have hcol := hs.column (fun r => (r.id, r.account, r.secret)) fun _ => rfl
    have hm := List.mem_map_of_mem (f := fun r : UserRow => (r.id, r.account, r.secret)) hx
    rw [hcol] at hm
    obtain ⟨y, hy, he⟩ := List.mem_map.1 hm
    simp only [Prod.mk.injEq] at he
    obtain ⟨hid, hacc, hsec⟩ := he
    refine ⟨y, List.mem_filter.2 ⟨hy, by rw [hid]; exact hin⟩, hid, fun r _ hc => ?_⟩
    simpa only [userSchema, hacc, hsec] using hc
  · have hids := hs.column (·.id) fun _ => rfl
    rw [deleteMissingUsers, hs.tunnels, hids]
    exact h.tunnels

/-- **Only the changed user's statements can fail.** -/
theorem writeSnapshot_ok_iff_user {db : Db} {c : ServerConfig} {pre post : List ServerUser}
    {a : ServerUser} (hc : c.users = pre ++ a :: post)
    (hadm : AdmitsUsers c.reserved Seen.empty c.users)
    (hproto : ∀ t ∈ c.tunnels, t.protocol = tcp ∨ t.protocol = udp)
    (hfit : ∀ u ∈ c.users, CountersFit u) (h : OneUser db pre a post) :
    (∃ db', writeSnapshot db c = .ok db') ↔
      OrderSafe tunnelSchema.key (tunnelSchema.clash · · = true) (rowsFrom db pre) (tunnelRows a) := by
  have hmissing := @deleteMissingUsers_rows db c.users
    (fun r hr => by
      obtain ⟨u, hu, he, -⟩ := h.users r hr
      rw [hc, he]
      exact List.mem_map_of_mem hu)
    (fun r hr => by rw [hc]; exact h.owner r hr)
  have husers : ∃ v, (deleteMissingUsers db c.users).users.upsertAll (c.users.map UserRow.of) =
      .ok v := by
    rw [upsertAll_ok_iff _ _ (userRows_coherent hadm), hmissing.1]
    refine OrderSafe.of_apart fun r hr x hx hne => ?_
    obtain ⟨v, hv, rfl⟩ := List.mem_map.1 hr
    obtain ⟨u, hu, hid, hacc, hsec⟩ := h.users x hx
    rw [← hc] at hu
    simp only [userSchema, UserRow.of, Bool.or_eq_true, decide_eq_true_eq, hacc, hsec] at hne ⊢
    rintro (e | e)
    · exact hne (by rw [hid, eq_of_column (newIn_empty.1 hadm.accounts) hu hv e])
    · exact hne (by rw [hid, eq_of_column (newIn_empty.1 hadm.secrets) hu hv e])
  rw [writeSnapshot_ok_iff, and_iff_right hfit, and_iff_right husers,
    upsertAll_ok_iff _ _ (tunnelRows_coherent hadm hproto), hmissing.2, hc, List.flatMap_append,
    List.flatMap_cons, orderSafe_append, orderSafe_append]
  have hsafe : ∀ us : List ServerUser, (∀ u ∈ us, u ∈ pre ++ post) → ∀ old, (∀ r ∈ old, r ∈ db.tunnels.rows) →
      OrderSafe tunnelSchema.key (tunnelSchema.clash · · = true) old (us.flatMap tunnelRows) := by
    intro us hus old hold
    refine OrderSafe.of_apart fun r hr x hx hne => ?_
    obtain ⟨u, hu, t, ht, rfl⟩ := mem_tunnelRows.1 hr
    rw [h.apart x (hold x hx) u (hus u hu) t ht hne]
    exact Bool.false_ne_true
  rw [and_iff_right (hsafe pre (fun u hu => List.mem_append_left _ hu) _ fun _ hr => hr),
    and_iff_left (hsafe post (fun u hu => List.mem_append_right _ hu) _ fun r hr =>
      List.mem_of_mem_filter (List.mem_of_mem_filter hr))]
  refine Iff.of_eq (congrArg (fun old => OrderSafe _ _ old (tunnelRows a)) ?_)
  refine List.filter_congr fun r hr => ?_
  rw [tunnelRows_keys]
  exact decide_eq_decide.2 (not_congr (h.earlier r hr))

/-! ## From the stored configuration to the rows -/

/-- The database holds the users and the tunnels of `c` at its revision, up to
the proxy names that every read draws again. -/
structure StoredAs (db : Db) (c : ServerConfig) : Prop where
  settings : ∃ s, db.settings = some s ∧ s.revision = c.revision ∧ s.apiSalt = c.apiSalt
  users : ∀ r ∈ db.users.rows, ∃ u ∈ c.users, r.id = u.id ∧ r.account = u.account ∧ r.secret = u.secret
  tunnels : ∀ r ∈ db.tunnels.rows, ∃ u ∈ c.users, r.userId = u.id ∧
    ∃ t ∈ u.tunnels, SameButName t r.toTunnel
  all : ∀ u ∈ c.users, ∀ t ∈ u.tunnels, ∃ r ∈ db.tunnels.rows, r.userId = u.id ∧
    SameButName t r.toTunnel
  fit : ∀ u ∈ c.users, CountersFit u

theorem Holds.storedAs {db : Db} {c : ServerConfig} (h : Holds db c)
    (hn : ∀ t ∈ c.tunnels, NameFor t.id t.proxyName) (hfit : ∀ u ∈ c.users, CountersFit u) :
    StoredAs db c where
  fit := hfit
  settings := ⟨_, h.settings, rfl, rfl⟩
  users r hr := by
    obtain ⟨u, hu, rfl⟩ := (h.users r).1 hr
    exact ⟨u, hu, rfl, rfl, rfl⟩
  tunnels r hr := by
    obtain ⟨u, hu, t, ht, rfl⟩ := (h.tunnels r).1 hr
    exact ⟨u, hu, rfl, t, ht, rfl, hn t (List.mem_flatMap.2 ⟨u, hu, ht⟩)⟩
  all u hu t ht := ⟨TunnelRow.of u.id t, (h.tunnels _).2 ⟨u, hu, t, ht, rfl⟩, rfl, rfl,
    hn t (List.mem_flatMap.2 ⟨u, hu, ht⟩)⟩

theorem storedAs_ofConfig {P : Primitives} {c : ServerConfig} (hv : Valid P c)
    (h : (writeSnapshot Db.empty c).isOk = true) : StoredAs (Db.ofConfig c) c :=
  (writeSnapshot_holds (Db.ofConfig_written h) (newIn_empty.1 hv.distinct.ids)
    (newIn_empty.1 hv.distinct.tunnels.ids)).storedAs hv.names
    (writeSnapshot_inv (Db.ofConfig_written h)).1

theorem StoredAs.of_samePasswords {db db' : Db} {c : ServerConfig} (h : StoredAs db c)
    (hs : SameButPasswords db db') : StoredAs db' c := by
  refine ⟨by rw [hs.settings]; exact h.settings, fun r hr => ?_, by rw [hs.tunnels]; exact h.tunnels,
    by rw [hs.tunnels]; exact h.all, h.fit⟩
  have hcol := hs.column (fun r => (r.id, r.account, r.secret)) fun _ => rfl
  have hm := List.mem_map_of_mem (f := fun r : UserRow => (r.id, r.account, r.secret)) hr
  rw [hcol] at hm
  obtain ⟨q, hq, he⟩ := List.mem_map.1 hm
  obtain ⟨u, hu, h₁, h₂, h₃⟩ := h.users q hq
  simp only [Prod.mk.injEq] at he
  exact ⟨u, hu, he.1 ▸ h₁, he.2.1 ▸ h₂, he.2.2 ▸ h₃⟩

/-- The rows of a user without an id that leaves no cleaned form are its tunnels. -/
theorem StoredAs.rowsOf {P : Primitives} {db : Db} {c : ServerConfig} (hs : StoredAs db c)
    (hv : Valid P c) {u : ServerUser} (hu : u ∈ c.users)
    (hd : ∀ t ∈ u.tunnels, ¬ DashOnly t.id) (r : TunnelRow) :
    r ∈ db.tunnels.rows ∧ r.userId = u.id ↔ ∃ t ∈ u.tunnels, r = TunnelRow.of u.id t := by
  have heq : ∀ {t : Tunnel} {r : TunnelRow}, t ∈ u.tunnels → r.userId = u.id →
      SameButName t r.toTunnel → r = TunnelRow.of u.id t := by
    intro t r ht hown hst
    have hname := hst.name_eq (hv.names t (List.mem_flatMap.2 ⟨u, hu, ht⟩))
      (by rw [hst.id_eq]; exact hd t ht)
    have htun : r.toTunnel = t := by rw [hst.eq, hname]
    cases r
    simp only at htun hown
    subst htun hown
    rfl
  refine ⟨?_, ?_⟩
  · intro h
    obtain ⟨hr, hown⟩ := h
    obtain ⟨v, hv', hov, t, ht, hst⟩ := hs.tunnels r hr
    obtain rfl : v = u := List.inj_on_of_nodup_map (newIn_empty.1 hv.distinct.ids) hv' hu
      (hov.symm.trans hown)
    exact ⟨t, ht, heq ht hown hst⟩
  · intro h
    obtain ⟨t, ht, rfl⟩ := h
    obtain ⟨r, hr, hown, hst⟩ := hs.all u hu t ht
    rw [← heq ht hown hst]
    exact ⟨hr, hown⟩

section
variable {db : Db} {c : ServerConfig} {reserved : List Port} {pre post pre' post' : List ServerUser}
  {a a' : ServerUser}

theorem mem_of_sameButNames {us vs : List ServerUser} (h : List.Forall₂ SameButNames us vs)
    {v : ServerUser} (hv : v ∈ vs) {t : Tunnel} (ht : t ∈ v.tunnels) :
    ∃ u ∈ us, u.id = v.id ∧ ∃ o ∈ u.tunnels, SameButName o t := by
  obtain ⟨u, hu, huv⟩ := exists_of_forall₂ h hv
  obtain ⟨o, ho, hot⟩ := exists_of_forall₂ huv.2 ht
  exact ⟨u, hu, by rw [huv.1], o, ho, hot⟩

/-- The users before and after keep their tunnels up to names, and those names
are not stored under another id. -/
theorem oneUser_of_storedAs (hs : StoredAs db c) (hadm : AdmitsUsers reserved Seen.empty c.users)
    (hc : c.users = pre ++ a :: post) (hpre : List.Forall₂ SameButNames pre pre')
    (hpost : List.Forall₂ SameButNames post post')
    (ha : a'.id = a.id ∧ a'.account = a.account ∧ a'.secret = a.secret)
    (hnames : ∀ r ∈ db.tunnels.rows, ∀ u ∈ pre' ++ post', ∀ t ∈ u.tunnels, r.id ≠ t.id →
      r.proxyName ≠ t.proxyName) : OneUser db pre' a' post' := by
  have hcol : ∀ {α : Type} (f : ServerUser → α), (∀ u ts, f { u with tunnels := ts } = f u) →
      f a' = f a → (pre' ++ a' :: post').map f = c.users.map f := by
    intro α f hf haf
    rw [hc, List.map_append, List.map_append, List.map_cons, List.map_cons,
      map_eq_of_sameButNames f hf hpre, map_eq_of_sameButNames f hf hpost, haf]
  have hids := newIn_empty.1 hadm.ids
  have htids := newIn_empty.1 hadm.tunnels.ids
  have hpreids : (pre'.flatMap (·.tunnels)).map (·.id) = (pre.flatMap (·.tunnels)).map (·.id) := by
    clear hnames hcol hc
    induction hpre with
    | nil => rfl
    | cons h _ ih =>
      simp only [List.flatMap_cons, List.map_append, ih]
      rw [map_eq_of_sameButName (·.id) (fun _ _ => rfl) h.2]
  refine ⟨fun r hr => ?_, fun r hr => ?_, fun r hr => ?_, fun r hr u hu t ht hne => ?_⟩
  · obtain ⟨u, hu, h₁, h₂, h₃⟩ := hs.users r hr
    have hm := List.mem_map_of_mem (f := fun u : ServerUser => (u.id, u.account, u.secret)) hu
    rw [← hcol (fun u => (u.id, u.account, u.secret)) (fun _ _ => rfl)
      (by rw [ha.1, ha.2.1, ha.2.2])] at hm
    obtain ⟨v, hv, he⟩ := List.mem_map.1 hm
    simp only [Prod.mk.injEq] at he
    exact ⟨v, hv, he.1 ▸ h₁, he.2.1 ▸ h₂, he.2.2 ▸ h₃⟩
  · obtain ⟨u, hu, he, -⟩ := hs.tunnels r hr
    rw [he, hcol (·.id) (fun _ _ => rfl) ha.1]
    exact List.mem_map_of_mem hu
  · obtain ⟨u, hu, he, t, ht, hst⟩ := hs.tunnels r hr
    have hrt : r.id = t.id := hst.id_eq
    rw [hpreids, map_eq_of_sameButNames (·.id) (fun _ _ => rfl) hpre, hrt, he]
    rw [hc] at hu hids htids
    rw [List.flatMap_append, List.map_append, List.nodup_append] at htids
    rw [List.map_append, List.nodup_append] at hids
    refine ⟨?_, ?_⟩
    · intro hm
      rcases List.mem_append.1 hu with hu | hu
      · exact List.mem_map_of_mem hu
      · exact absurd rfl (htids.2.2 _ hm _
          (List.mem_map_of_mem (List.mem_flatMap.2 ⟨u, hu, ht⟩)))
    · intro hm
      rcases List.mem_append.1 hu with hu | hu
      · exact List.mem_map_of_mem (List.mem_flatMap.2 ⟨u, hu, ht⟩)
      · exact absurd rfl (hids.2.2 _ hm _ (List.mem_map_of_mem hu))
  · obtain ⟨v, hv, -, o, ho, hso⟩ := hs.tunnels r hr
    obtain ⟨w, hw, p, hp, hsp⟩ : ∃ w ∈ c.users, ∃ p ∈ w.tunnels, SameButName p t := by
      rcases List.mem_append.1 hu with hu | hu
      · obtain ⟨w, hw, -, p, hp, hsp⟩ := mem_of_sameButNames hpre hu ht
        exact ⟨w, by rw [hc]; simp [hw], p, hp, hsp⟩
      · obtain ⟨w, hw, -, p, hp, hsp⟩ := mem_of_sameButNames hpost hu ht
        exact ⟨w, by rw [hc]; simp [hw], p, hp, hsp⟩
    have ho' : o ∈ c.users.flatMap (·.tunnels) := List.mem_flatMap.2 ⟨v, hv, ho⟩
    have hp' : p ∈ c.users.flatMap (·.tunnels) := List.mem_flatMap.2 ⟨w, hw, hp⟩
    have hdiff : ∀ {α : Type} (f : Tunnel → α), (∀ x n, f { x with proxyName := n } = f x) →
        ((c.users.flatMap (·.tunnels)).map f).Nodup → f r.toTunnel ≠ f t := by
      intro α f hf hnd e
      have : o = p := List.inj_on_of_nodup_map hnd ho' hp' (by
        rw [← hf o r.proxyName, ← hf p t.proxyName]
        rwa [hso.eq, hsp.eq] at e)
      have h₁ : r.id = o.id := hso.id_eq
      have h₂ : t.id = p.id := hsp.id_eq
      exact hne (by rw [h₁, h₂, this])
    have h₁ := hdiff (·.backendPort) (fun _ _ => rfl) (newIn_empty.1 hadm.tunnels.backendPorts)
    have h₂ := hdiff Tunnel.publicKey (fun _ _ => rfl) (newIn_empty.1 hadm.tunnels.publicPorts)
    have h₃ := hnames r hr u hu t ht hne
    simp only [tunnelSchema, TunnelRow.of, Bool.or_eq_false_iff, decide_eq_false_iff_not]
    exact ⟨⟨h₃, h₁⟩, h₂⟩

/-- The walk over rows as a walk over tunnels, for any reading of a clash that is
right about rows of different ids. -/
theorem orderSafe_rows {clash : Tunnel → Tunnel → Prop} {ts : List Tunnel}
    (hts : List.Forall₂ SameButName ts a.tunnels)
    (hc : ∀ x ∈ db.tunnels.rows, ∀ t ∈ ts, ∀ t' ∈ a.tunnels, SameButName t t' → x.id ≠ t.id →
      (tunnelSchema.clash x (TunnelRow.of a.id t') = true ↔ clash x.toTunnel t)) :
    OrderSafe tunnelSchema.key (tunnelSchema.clash · · = true) (rowsFrom db pre) (tunnelRows a) ↔
      OrderSafe (·.id) clash ((rowsFrom db pre).map (·.toTunnel)) ts := by
  have hrows : List.Forall₂ (fun (r : TunnelRow) t => ∃ t', r = TunnelRow.of a.id t' ∧
      SameButName t t' ∧ t ∈ ts ∧ t' ∈ a.tunnels) (tunnelRows a) ts := by
    rw [tunnelRows, List.forall₂_map_left_iff]
    exact (forall₂_with_mem hts).flip.imp fun t' t h => ⟨t', rfl, h⟩
  refine @orderSafe_forall₂ Str _ TunnelRow Tunnel tunnelSchema.key _ (·.id) clash _ (·.toTunnel)
    (fun _ => rfl) _ _ _ hrows ?_ ?_
  · intro r t hand
    obtain ⟨t', rfl, hs, -⟩ := hand
    exact hs.id_eq.symm
  · intro x hx r _ t hand hne
    obtain ⟨t', rfl, hs, ht, ht'⟩ := hand
    refine hc x (List.mem_of_mem_filter hx) t ht t' ht' hs fun e => hne ?_
    exact e.trans hs.id_eq.symm

end

end OrangeFrp.Storage
