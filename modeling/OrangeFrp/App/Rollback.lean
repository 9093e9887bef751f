import OrangeFrp.App.SaveTunnels

/-!
# The rollback of a tunnels save (`frp-game-server/src/app.rs`)

When a port of the stored candidate cannot be bound, the original configuration
is stored again. That second save goes the opposite way, so its upserts meet the
rows of the accepted list, and it draws names once more. The second `reconcile`
brings up what the original configuration asks for, which is what ran before only
if that was what ran; nobody looks at its error.

* `rollback_save_iff`: where no other user has an id that leaves no cleaned form, the
  original goes back in exactly when its tunnels, in order, never meet an accepted
  tunnel that still stands.
* `rollback_restores_iff`: when the 409 answer leaves the stored tunnels, the
  configuration in memory and the listeners as they were, whatever the second
  `reconcile` finds.

It stands on a valid configuration in memory that is the stored one (`StoredAs`), on
draws that are new (`RollbackDraws`), and, of what the second `reconcile` finds, on
ports that can be bound again where they were bound before (`RollbackWorld`).
-/
namespace OrangeFrp.App

open OrangeFrp.Core OrangeFrp.Core.Table OrangeFrp.Storage OrangeFrp.Controller

/-- A stored tunnel keeps an original one out while it is there: the same public
key, or an id with the same cleaned form. -/
def RollbackClash (stored t : Tunnel) : Prop :=
  stored.publicKey = t.publicKey ∨ (¬ DashOnly t.id ∧ cleanedId stored.id = cleanedId t.id)

instance (stored t : Tunnel) : Decidable (RollbackClash stored t) := by
  unfold RollbackClash; infer_instance

section
variable {P : Primitives} {c stored : ServerConfig} {i : Nat} {pre post : List ServerUser}
  {a a' : ServerUser} {ts : List Tunnel} {now : Int} {db : Db} {d : Draws}

/-- The names of two tunnels with cleaned forms are equal when the forms are. -/
theorem name_eq_iff {x t : Tunnel} (hx : NameFor x.id x.proxyName) (ht : NameFor t.id t.proxyName)
    (hcx : ¬ DashOnly x.id) (hct : ¬ DashOnly t.id) :
    x.proxyName = t.proxyName ↔ cleanedId x.id = cleanedId t.id := by
  rw [hx.eq_of_clean hcx, ht.eq_of_clean hct]
  exact List.append_right_inj fgPrefix

/-- What the database holds between the two saves, seen from the original. -/
structure Between (c : ServerConfig) (i : Nat) (pre : List ServerUser) (a : ServerUser)
    (post : List ServerUser) (ts : List Tunnel) (now : Int) (d : Draws) (stored : ServerConfig)
    (a' : ServerUser) : Prop where
  users : stored.users = pre ++ a' :: post
  user : SameButNames (withTunnels a ts now) a'
  drawn : ∀ t ∈ a'.tunnels, DashOnly t.id →
    t.proxyName ∈ drawnNames d (dashCount (candidate c i a ts now).tunnels)

/-- No tunnel of the other users has an id that leaves no cleaned form. -/
def NoDashIn (us : List ServerUser) : Prop := ∀ u ∈ us, ∀ t ∈ u.tunnels, ¬ DashOnly t.id

instance (us : List ServerUser) : Decidable (NoDashIn us) := by unfold NoDashIn; infer_instance

theorem noDash_others (hd : NoDash c) (h : At c i pre a post) : NoDashIn (pre ++ post) :=
  fun _ hu t ht => hd t (mem_tunnels (h.mem_other hu) ht)

/-- Without ids that leave no cleaned form the other users are stored as they were. -/
theorem between_of_noDash (hv : Valid P c) (hd : NoDashIn (pre ++ post)) (h : At c i pre a post)
    (hst : stored.users = (renameUsers (candidate c i a ts now).users d).1) :
    ∃ a', Between c i pre a post ts now d stored a' := by
  rw [h.candidate_users] at hst
  obtain ⟨pre', a', post', hr⟩ := renamedAt pre (withTunnels a ts now) post d
  rw [← hst] at hr
  obtain ⟨rfl, rfl⟩ := hr.same
    (fun u hu t ht => hv.names t (mem_tunnels (h.mem_other hu) ht)) hd
  refine ⟨a', hr.users, hr.user, fun t ht hdash => ?_⟩
  rw [ServerConfig.tunnels, h.candidate_users]
  exact hr.drawn a' (by simp) t ht hdash

theorem mem_between (hb : Between c i pre a post ts now d stored a') {u : ServerUser}
    (hu : u ∈ stored.users) : u = a' ∨ u ∈ pre ++ post := by
  rw [hb.users] at hu
  simp only [List.mem_append, List.mem_cons] at hu ⊢
  tauto

/-- A stored tunnel has the backend port of an original one only if it has its id. -/
theorem rollback_backend_ne (hv : Valid P c) (h : At c i pre a post) (ha : AcceptedFor c i a ts)
    (hb : Between c i pre a post ts now d stored a') {u : ServerUser} (hu : u ∈ stored.users)
    {o t : Tunnel} (ho : o ∈ u.tunnels) (ht : t ∈ c.tunnels) (hne : o.id ≠ t.id) :
    o.backendPort ≠ t.backendPort := by
  rcases mem_between hb hu with rfl | hu
  · obtain ⟨q, hq, hsq⟩ := exists_of_forall₂ hb.user.2 ho
    rw [hsq.backendPort_eq]
    exact (accepted_backend hv h ha).2.1 q hq t ht (.inl fun e => hne (hsq.id_eq.trans e.symm))
  · intro e
    exact hne (congrArg Tunnel.id (eq_of_tunnel_column
      (newIn_empty.1 hv.distinct.tunnels.backendPorts) (mem_tunnels (h.mem_other hu) ho) ht e))

/-- A stored row against an original tunnel with another id, under the name it is written with. -/
theorem rollback_clash_iff (hv : Valid P c) (hd : NoDashIn (pre ++ post)) (h : At c i pre a post)
    (ha : AcceptedFor c i a ts) (hb : Between c i pre a post ts now d stored a')
    (hvs : Valid P stored)
    (hfresh : ∀ name ∈ drawnNames d (dashCount (candidate c i a ts now).tunnels),
      ∀ t ∈ c.tunnels, ¬ DashOnly t.id → name ≠ t.proxyName)
    {u : ServerUser} (hu : u ∈ stored.users) {o t t' : Tunnel} (ho : o ∈ u.tunnels)
    (ht : t ∈ a.tunnels) (hst : SameButName t t') (hnew : DashOnly t.id → o.proxyName ≠ t'.proxyName)
    (hne : o.id ≠ t.id) :
    tunnelSchema.clash (TunnelRow.of u.id o) (TunnelRow.of a.id t') = true ↔ RollbackClash o t := by
  have htc : t ∈ c.tunnels := mem_tunnels h.mem ht
  have hback := rollback_backend_ne hv h ha hb hu ho htc hne
  have hname : o.proxyName = t'.proxyName ↔ ¬ DashOnly t.id ∧ cleanedId o.id = cleanedId t.id := by
    by_cases hdt : DashOnly t.id
    · exact iff_of_false (hnew hdt) fun hx => hx.1 hdt
    rw [and_iff_right hdt, hst.name_eq (hv.names t htc) (by rw [hst.id_eq]; exact hdt)]
    by_cases hdash : DashOnly o.id
    -- a drawn name is new, and the original has a cleaned form
    · refine ⟨?_, ?_⟩
      · intro e
        rcases mem_between hb hu with rfl | hu
        · exact absurd e (hfresh _ (hb.drawn o ho hdash) t htc hdt)
        · exact absurd hdash (hd u hu o ho)
      · exact fun e => absurd (e.symm.trans hdash) hdt
    · exact name_eq_iff (hvs.names o (mem_tunnels hu ho)) (hv.names t htc) hdash hdt
  have hpk : (TunnelRow.of u.id o).publicKey = (TunnelRow.of a.id t').publicKey ↔
      o.publicKey = t.publicKey := by rw [← hst.publicKey_eq]; rfl
  simp only [tunnelSchema, Bool.or_eq_true, decide_eq_true_eq, RollbackClash, hpk]
  simp only [TunnelRow.of, hst.backendPort_eq, hname]
  tauto

/-- What stands in the database, seen from the original under the names it is written with. -/
theorem rollback_oneUser {db : Db} {a₂ : ServerUser} (hv : Valid P c) (h : At c i pre a post)
    (hb : Between c i pre a post ts now d stored a') (hvs : Valid P stored)
    (hst : StoredAs db stored) (ha : SameButNames a a₂)
    (hrows : ∀ r, r ∈ db.tunnels.rows ↔ ∃ u ∈ stored.users, ∃ t ∈ u.tunnels, r = TunnelRow.of u.id t) :
    OneUser db pre a₂ post := by
  have hn : ∀ u ∈ pre ++ post, ∀ t ∈ u.tunnels, NameFor t.id t.proxyName := fun u hu t ht =>
    hv.names t (mem_tunnels (h.mem_other hu) ht)
  refine oneUser_of_storedAs hst hvs.distinct hb.users
    (sameButNames_refl fun u hu => hn u (List.mem_append_left _ hu))
    (sameButNames_refl fun u hu => hn u (List.mem_append_right _ hu)) ?_ ?_
  · rw [hb.user.1, ha.1]; exact ⟨rfl, rfl, rfl⟩
  · intro r hr u hu t ht hne e
    obtain ⟨v, hv', o, ho, rfl⟩ := (hrows r).1 hr
    have hus : u ∈ stored.users := by
      rw [hb.users]
      rcases List.mem_append.1 hu with hu | hu <;> simp [hu]
    exact hne (congrArg Tunnel.id (eq_of_tunnel_column (newIn_empty.1 hvs.distinct.tunnels.names)
      (mem_tunnels hv' ho) (mem_tunnels hus ht) e))

/-- The rows that the original's tunnels meet come down to the accepted list. -/
theorem rollback_orderSafe_iff {db : Db} (hv : Valid P c) (hd : NoDashIn (pre ++ post)) (h : At c i pre a post)
    (hb : Between c i pre a post ts now d stored a') (hvs : Valid P stored)
    (hrows : ∀ r, r ∈ db.tunnels.rows ↔ ∃ u ∈ stored.users, ∃ t ∈ u.tunnels, r = TunnelRow.of u.id t) :
    OrderSafe (·.id) RollbackClash ((rowsFrom db pre).map (·.toTunnel)) a.tunnels ↔
      OrderSafe (·.id) RollbackClash ts a.tunnels := by
  have hids := newIn_empty.1 hvs.distinct.ids
  rw [hb.users, List.map_append, List.nodup_append] at hids
  have hsame : ∀ {x y : Tunnel}, SameButName x y → ∀ r, RollbackClash x r ↔ RollbackClash y r := by
    intro x y hxy r
    unfold RollbackClash
    rw [hxy.publicKey_eq, hxy.id_eq]
  refine ⟨?_, ?_⟩
  · refine fun hs => hs.mono fun x hx => .inl ?_
    obtain ⟨t', ht', hst⟩ := exists_of_forall₂ hb.user.2.flip hx
    refine ⟨t', ?_, hst.id_eq, fun r _ => (hsame hst r).1⟩
    refine List.mem_map.2 ⟨TunnelRow.of a'.id t', List.mem_filter.2 ⟨(hrows _).2
      ⟨a', by rw [hb.users]; simp, t', ht', rfl⟩, ?_⟩, rfl⟩
    rw [decide_eq_true_eq]
    exact fun hm => hids.2.2 _ hm a'.id (List.mem_map_of_mem List.mem_cons_self) rfl
  · refine fun hs => hs.mono fun x hx => ?_
    obtain ⟨r, hr, rfl⟩ := List.mem_map.1 hx
    obtain ⟨hr, hown⟩ := List.mem_filter.1 hr
    obtain ⟨u, hu, o, ho, rfl⟩ := (hrows r).1 hr
    rcases mem_between hb hu with rfl | hu
    · obtain ⟨q, hq, hqo⟩ := exists_of_forall₂ hb.user.2 ho
      exact .inl ⟨q, hq, hqo.id_eq.symm, fun r _ => (hsame hqo r).2⟩
    · refine .inr fun t ht hne hcl => hne ?_
      have ho' := mem_tunnels (h.mem_other hu) ho
      have ht' := mem_tunnels h.mem ht
      refine congrArg Tunnel.id (?_ : o = t)
      rcases hcl with hcl | ⟨hdt, hcl⟩
      · exact eq_of_tunnel_column (newIn_empty.1 hv.distinct.tunnels.publicPorts) ho' ht' hcl
      · exact eq_of_tunnel_column (newIn_empty.1 hv.distinct.tunnels.names) ho' ht'
          ((name_eq_iff (hv.names o ho') (hv.names t ht') (hd u hu o ho) hdt).2 hcl)

/-- **When the original goes back in.** -/
theorem rollback_save_iff (hP : P.Lawful) {disk : Disk} (hv : Valid P c) (hd : NoDashIn (pre ++ post))
    (hfit : ∀ u ∈ c.users, CountersFit u) (h : At c i pre a post) (ha : AcceptedFor c i a ts)
    (hb : Between c i pre a post ts now d stored a') (hvs : Valid P stored)
    (hst : Holds disk.db stored) (hfits : ∀ u ∈ stored.users, CountersFit u)
    (hfresh : ∀ name ∈ drawnNames d (dashCount (candidate c i a ts now).tunnels),
      ∀ t ∈ c.tunnels, ¬ DashOnly t.id → name ≠ t.proxyName) (e : Entropy) (hf : FreshFor e.uuids disk.db c) :
    (∃ r, (save P disk { c with revision := stored.revision } e).2 = .ok r) ↔
      OrderSafe (·.id) RollbackClash ts a.tunnels := by
  obtain ⟨disk₁, e₁, hi, hsame, he⟩ := initialize_of_storedAs hP hvs (hst.storedAs hvs.names hfits) e
  have hst₁ := (hst.storedAs hvs.names hfits).of_samePasswords hsame
  have hrows : ∀ r, r ∈ disk₁.db.tunnels.rows ↔
      ∃ u ∈ stored.users, ∃ t ∈ u.tunnels, r = TunnelRow.of u.id t := by
    rw [hsame.tunnels]; exact hst.tunnels
  have hused : ∀ t ∈ c.tunnels, t.proxyName ∈
      disk.db.tunnels.rows.map (·.proxyName) ++ c.tunnels.map (·.proxyName) := fun t ht =>
    List.mem_append_right _ (List.mem_map_of_mem ht)
  have hnorm := (hv.withRevision stored.revision).normalize (P := P) hf hused
  rw [← he] at hnorm
  obtain ⟨pre₂, a₂, post₂, hr⟩ := renamedAt pre a post e.uuids
  obtain ⟨h₁, h₂⟩ := hr.same (fun u hu t ht => hv.names t (mem_tunnels (h.mem_other hu) ht)) hd
  rw [h₁, h₂] at hr
  have hc₂ : (renamed c e.uuids).users = pre ++ a₂ :: post := by
    rw [← hr.users, ← h.users]; rfl
  have hclash : ∀ x ∈ disk₁.db.tunnels.rows, ∀ t ∈ a.tunnels, ∀ t' ∈ a₂.tunnels, SameButName t t' →
      x.id ≠ t.id → (tunnelSchema.clash x (TunnelRow.of a₂.id t') = true ↔
        RollbackClash x.toTunnel t) := by
    intro x hx t ht t' ht' hs hne
    have hnew : DashOnly t.id → x.proxyName ≠ t'.proxyName := by
      intro hdash e'
      have hdrawn := hr.drawn a₂ (by simp) t' ht' (by rw [hs.id_eq]; exact hdash)
      rw [← h.users] at hdrawn
      refine hf.unused _ hdrawn (List.mem_append_left _ ?_)
      rw [← e', ← hsame.tunnels]
      exact List.mem_map_of_mem (f := fun r : TunnelRow => r.proxyName) hx
    obtain ⟨u, hu, o, ho, rfl⟩ := (hrows x).1 hx
    rw [show a₂.id = a.id by rw [hr.user.1]]
    exact rollback_clash_iff hv hd h ha hb hvs hfresh hu ho ht hs hnew hne
  have hadm := (admitsUsers_rename hv.names (newIn_empty.1 hv.distinct.tunnels.names) hf hused).2 hv.distinct
  have hwrite : ∀ revision, (∃ db', writeSnapshot disk₁.db { renamed c e.uuids with revision := revision } =
      .ok db') ↔ OrderSafe (·.id) RollbackClash ts a.tunnels := by
    intro revision
    rw [writeSnapshot_ok_iff_user (c := { renamed c e.uuids with revision := revision }) hc₂ hadm
      (renamed_protocols hv.protocols) (renamed_fits hfit)
      (rollback_oneUser hv h hb hvs hst₁ hr.user hrows), orderSafe_rows hr.user.2 hclash,
      rollback_orderSafe_iff hv hd h hb hvs hrows]
  rw [save_succeeds_iff hi]
  refine ⟨?_, ?_⟩
  · intro hand
    obtain ⟨k, hn, -, hw⟩ := hand
    rw [hnorm] at hn
    cases hn
    rw [he] at hw
    exact (hwrite _).1 hw
  · intro hsafe
    refine ⟨_, hnorm, ⟨SettingsRow.of stored, ?_, rfl⟩, ?_⟩
    · rw [hsame.settings, hst.settings]
    · rw [he]
      exact (hwrite _).2 hsafe

end

/-! ## What the 409 answer leaves -/

/-- The stored tunnels, the configuration in memory and the running specs are
those before, and the revision in memory is the stored one. -/
structure Restored {τ : Type} (s s' : Server τ) : Prop where
  tunnels : ∀ r, r ∈ s'.disk.db.tunnels.rows ↔ r ∈ s.disk.db.tunnels.rows
  config : s'.config = { s.config with revision := s'.config.revision }
  revision : ∃ row, s'.disk.db.settings = some row ∧ row.revision = s'.config.revision
  specs : ∀ k k', s.controller = some k → s'.controller = some k' → ∀ key,
    (k'.tasks.lookup key).map (·.spec) = (k.tasks.lookup key).map (·.spec)

section
variable {P : Primitives} {τ : Type} [Double τ] {s : Server τ} {i : Nat} {a : ServerUser}
  {ts : List Tunnel} {env : Env} {disk : Disk} {stored : ServerConfig} {k : TrafficController τ}
  {error : String}

/-- Without ids that leave no cleaned form the stored rows are the tunnels in memory. -/
theorem rows_of_noDash {db : Db} {c : ServerConfig} (hv : Valid P c) (hd : NoDash c)
    (hs : StoredAs db c) (r : TunnelRow) :
    r ∈ db.tunnels.rows ↔ ∃ u ∈ c.users, ∃ t ∈ u.tunnels, r = TunnelRow.of u.id t := by
  have hown : ∀ u ∈ c.users, ∀ t ∈ u.tunnels, ¬ DashOnly t.id := fun u hu t ht =>
    hd t (mem_tunnels hu ht)
  refine ⟨?_, ?_⟩
  · intro hr
    obtain ⟨u, hu, he, -⟩ := hs.tunnels r hr
    exact ⟨u, hu, (hs.rowsOf hv hu (hown u hu) r).1 ⟨hr, he⟩⟩
  · intro h
    obtain ⟨u, hu, ht⟩ := h
    exact ((hs.rowsOf hv hu (hown u hu) r).2 ht).1

/-- A stored name that is drawn again does not come back. -/
theorem noDash_of_rows {db : Db} {c : ServerConfig} {d : Draws} {rest : List Str} {db' : Db}
    {n : Nat} (hs : StoredAs db c) (hf : Fresh d n (db.tunnels.rows.map (·.proxyName) ++ rest))
    (hst : ∀ t ∈ stored.tunnels, DashOnly t.id → t.proxyName ∈ drawnNames d n)
    (hrows : ∀ r, r ∈ db'.tunnels.rows ↔ ∃ u ∈ stored.users, ∃ t ∈ u.tunnels, r = TunnelRow.of u.id t)
    (hsame : ∀ r, r ∈ db'.tunnels.rows ↔ r ∈ db.tunnels.rows) : NoDash c := by
  intro t ht hdash
  obtain ⟨u, hu, htu⟩ := List.mem_flatMap.1 ht
  obtain ⟨r, hr, -, hsr⟩ := hs.all u hu t htu
  obtain ⟨v, hv, o, ho, rfl⟩ := (hrows r).1 ((hsame r).2 hr)
  have hid : o.id = t.id := hsr.id_eq
  refine hf.unused _ (hst o (List.mem_flatMap.2 ⟨v, hv, ho⟩) (by rw [hid]; exact hdash))
    (List.mem_append_left _ ?_)
  exact List.mem_map_of_mem (f := fun r : TunnelRow => r.proxyName) hr

/-- An accepted save whose candidate is stored but cannot be brought up. -/
structure BindFails (P : Primitives) (s : Server τ) (i : Nat) (a : ServerUser)
    (tunnels ts : List Tunnel) (env : Env) (disk : Disk) (stored : ServerConfig)
    (k : TrafficController τ) (error : String) : Prop where
  user : s.config.users[i]? = some a
  quota : (trafficSummary a).exhausted = false
  accepted : ∃ d, normalizeUserTunnels s.config i a tunnels env.draws = .ok (ts, d)
  saved : ∃ e, save P s.disk (candidate s.config i a ts env.now) env.first = (disk, .ok (stored, e))
  controller : s.controller = some k
  failed : (k.reconcile stored env.firstWorld).2 = .error error

/-- The names drawn in both saves are new. -/
structure RollbackDraws (s : Server τ) (i : Nat) (a : ServerUser) (ts : List Tunnel) (env : Env) (disk : Disk) :
    Prop where
  first : FreshFor env.first.uuids s.disk.db (candidate s.config i a ts env.now)
  second : FreshFor env.second.uuids disk.db s.config

/-- What the rollback may count on: the order of a map, and every port that was bound
before the request. -/
structure RollbackWorld (P : Primitives) (s : Server τ) (env : Env) (disk : Disk) (stored : ServerConfig)
    (k : TrafficController τ) (w : World) : Prop where
  orders : ∀ disk' original e, save P disk { s.config with revision := stored.revision } env.second =
    (disk', .ok (original, e)) → w.Orders original
  rebind : ∀ key task, k.tasks.lookup key = some task → w.bind task.spec = true

theorem BindFails.result {tunnels : List Tunnel} (hb : BindFails P s i a tunnels ts env disk stored k error) :
    saveTunnels P s i a (some tunnels) env =
      rollback P s disk stored (k.reconcile stored env.firstWorld).1 error env := by
  obtain ⟨d, hn⟩ := hb.accepted
  obtain ⟨e, hs⟩ := hb.saved
  unfold saveTunnels
  rw [hb.quota]
  simp only [Bool.false_eq_true, if_false, hn, hs, hb.controller]
  split
  · rename_i hr
    have := hb.failed
    rw [hr] at this
    cases this
  · rename_i hr
    have := hb.failed
    rw [hr] at this
    cases this
    rw [hr]

theorem rollback_answer :
    (rollback P s disk stored k error env).2 = .failed 409 ("公网端口监听失败：" ++ error) := by
  unfold rollback
  split <;> rfl

/-- Tunnels of one configuration do not clash under different ids. -/
theorem rollbackClash_same {c : ServerConfig} (hv : Valid P c) (hd : NoDash c) {x t : Tunnel}
    (hx : x ∈ c.tunnels) (ht : t ∈ c.tunnels) (hne : x.id ≠ t.id) : ¬ RollbackClash x t := by
  rintro (hcl | ⟨-, hcl⟩)
  · exact hne (congrArg Tunnel.id (eq_of_tunnel_column
      (newIn_empty.1 hv.distinct.tunnels.publicPorts) hx ht hcl))
  · exact hne (congrArg Tunnel.id (eq_of_tunnel_column (newIn_empty.1 hv.distinct.tunnels.names) hx ht
      ((name_eq_iff (hv.names x hx) (hv.names t ht) (hd x hx) (hd t ht)).2 hcl)))

/-- Names that come back from the second save were not drawn, so there was no need to. -/
theorem noDash_of_config {c : ServerConfig} (hv : Valid P c) {db : Db} {disk disk' : Disk}
    {e e' : Entropy} {revision : Int} {original : ServerConfig}
    (hfresh : FreshFor e.uuids db c) (hset : ∃ row, disk.db.settings = some row)
    (hsave : save P disk { c with revision := revision } e = (disk', .ok (original, e')))
    (husers : original.users = c.users) : NoDash c := by
  obtain ⟨disk₁, e₁, hsaved⟩ := save_saved hsave
  obtain ⟨row, hset⟩ := hset
  have he := (initializeStore_initialized hset hsaved.initialized).2.2.2
  obtain ⟨c₁, hn, rfl⟩ := hsaved.normalized
  rw [he] at hn
  obtain ⟨-, -, hc₁⟩ := (normalize_clean_iff P (hv.withRevision revision).settings
    (hv.withRevision revision).users e.uuids).1 hn
  obtain rfl : c₁ = _ := congrArg Prod.fst hc₁
  intro t ht hdash
  have hmem : t ∈ (renameUsers c.users e.uuids).1.flatMap (·.tunnels) := by
    refine ((sortUsers_perm _).flatMap_right _).mem_iff.1 ?_
    rw [show sortUsers (renameUsers c.users e.uuids).1 = c.users from husers]
    exact ht
  rw [(renameUsers_tunnels _ _).1] at hmem
  exact hfresh.unused _ ((mem_renameTunnels hmem).2 hdash)
    (List.mem_append_right _ (List.mem_map_of_mem ht))

/-- What is known once the candidate has been stored. -/
structure AfterSave (P : Primitives) (s : Server τ) (i : Nat) (pre : List ServerUser) (a : ServerUser)
    (post : List ServerUser) (ts : List Tunnel) (env : Env) (disk : Disk) (stored : ServerConfig) :
    Prop where
  valid : Valid P s.config
  before : StoredAs s.disk.db s.config
  place : At s.config i pre a post
  accepted : AcceptedFor s.config i a ts
  draws : RollbackDraws s i a ts env disk
  storedValid : Valid P stored
  holds : Holds disk.db stored
  fits : ∀ u ∈ stored.users, CountersFit u
  users : stored.users = (renameUsers (candidate s.config i a ts env.now).users env.first.uuids).1

variable {pre post : List ServerUser}

omit [Double τ] in
theorem AfterSave.drawn (h : AfterSave P s i pre a post ts env disk stored) :
    ∀ t ∈ stored.tunnels, DashOnly t.id → t.proxyName ∈ drawnNames env.first.uuids
      (dashCount (candidate s.config i a ts env.now).tunnels) := by
  intro t ht hdash
  rw [ServerConfig.tunnels, h.users, (renameUsers_tunnels _ _).1] at ht
  exact (mem_renameTunnels ht).2 hdash

omit [Double τ] in
theorem AfterSave.save_iff (hP : P.Lawful) (h : AfterSave P s i pre a post ts env disk stored)
    (hd : NoDash s.config) :
    (∃ r, (save P disk { s.config with revision := stored.revision } env.second).2 = .ok r) ↔
      OrderSafe (·.id) RollbackClash ts a.tunnels := by
  obtain ⟨a', hbt⟩ := between_of_noDash h.valid (noDash_others hd h.place) h.place h.users
  refine rollback_save_iff hP h.valid (noDash_others hd h.place) h.before.fit h.place h.accepted hbt
    h.storedValid h.holds h.fits ?_ env.second h.draws.second
  intro name hname t ht _ heq
  obtain rfl := heq
  obtain ⟨u, hu, htu⟩ := List.mem_flatMap.1 ht
  refine h.draws.first.unused _ hname (List.mem_append_left _ ?_)
  exact List.mem_map.2 ⟨_, (rows_of_noDash h.valid hd h.before _).2 ⟨u, hu, t, htu, rfl⟩, rfl⟩

omit [Double τ] in
/-- When the second save is refused, the stored tunnels are those before only if there
was nothing to bring back. -/
theorem AfterSave.refused (h : AfterSave P s i pre a post ts env disk stored) {disk' : Disk}
    (hsame : SameButPasswords disk.db disk'.db)
    (hrows : ∀ r, r ∈ disk'.db.tunnels.rows ↔ r ∈ s.disk.db.tunnels.rows) :
    NoDash s.config ∧ OrderSafe (·.id) RollbackClash ts a.tunnels := by
  have hstored : ∀ r, r ∈ disk'.db.tunnels.rows ↔
      ∃ u ∈ stored.users, ∃ t ∈ u.tunnels, r = TunnelRow.of u.id t := by
    rw [hsame.tunnels]; exact h.holds.tunnels
  have hd := noDash_of_rows h.before h.draws.first h.drawn hstored hrows
  obtain ⟨a', hbt⟩ := between_of_noDash h.valid (noDash_others hd h.place) h.place h.users
  refine ⟨hd, OrderSafe.of_apart fun t ht x hx hne => ?_⟩
  obtain ⟨x', hx', hxs⟩ := exists_of_forall₂ hbt.user.2.flip hx
  obtain ⟨v, hv, o, ho, he⟩ := (rows_of_noDash h.valid hd h.before _).1 ((hrows _).1
    ((hstored _).2 ⟨a', by rw [hbt.users]; simp, x', hx', rfl⟩))
  obtain rfl : x' = o := congrArg (·.toTunnel) he
  have hnot := rollbackClash_same h.valid hd (mem_tunnels hv ho) (mem_tunnels h.place.mem ht)
    (by rw [hxs.id_eq]; exact hne)
  unfold RollbackClash at hnot ⊢
  rwa [hxs.publicKey_eq, hxs.id_eq] at hnot

omit [Double τ] in
/-- Every port that a running configuration asks for was bound. -/
theorem RollbackWorld.rebinds {w : World} (h : RollbackWorld P s env disk stored k w) (hv : Valid P s.config)
    (hrun : Running k s.config) : ∀ spec ∈ specs s.config, w.bind spec = true := by
  intro spec hspec
  have hd := (lookup_desired (newIn_empty.1 hv.distinct.tunnels.names) spec.proxyName spec).2 ⟨hspec, rfl⟩
  rw [← hrun] at hd
  obtain ⟨task, ht, rfl⟩ := Option.map_eq_some_iff.1 hd
  exact h.rebind _ task ht

/-- When the second save goes through without drawing a name, everything is back. -/
theorem AfterSave.restored (h : AfterSave P s i pre a post ts env disk stored)
    (hd : NoDash s.config) (hk : s.controller = some k) (hrun : Running k s.config) {w : World}
    (hw : RollbackWorld P s env disk stored k w) {k' : TrafficController τ} {disk' : Disk}
    {original : ServerConfig} {e' : Entropy}
    (hsave : save P disk { s.config with revision := stored.revision } env.second =
      (disk', .ok (original, e'))) :
    Restored s ⟨disk', original, some (k'.reconcile original w).1⟩ := by
  obtain ⟨disk₁, e₁, hsaved⟩ := save_saved hsave
  have hholds := hsaved.holds
  have hvalid := hsaved.valid
  have horders := hw.orders disk' original e' hsave
  obtain ⟨c₁, hn, horig⟩ := hsaved.normalized
  rw [normalize_self P (h.valid.withRevision stored.revision) hd, Except.ok.injEq,
    Prod.mk.injEq] at hn
  obtain ⟨rfl, -⟩ := hn
  subst horig
  refine ⟨fun r => ?_, rfl, ⟨_, hholds.settings, rfl⟩, fun k₀ k₁ h₀ h₁ key => ?_⟩
  · rw [hholds.tunnels, rows_of_noDash h.valid hd h.before]
  · rw [hk] at h₀
    cases h₀
    cases h₁
    have hback := (reconcile_ok (k := k') (newIn_empty.1 hvalid.distinct.tunnels.names) hvalid.protocols
      horders (hw.rebinds h.valid hrun)).2
    rw [hback key, hrun key]
    rfl

/-- Where every port can be bound, what runs after the rollback is what the original
configuration asks for. -/
theorem Restored.running (hk : s.controller = some k) {k' : TrafficController τ} {disk' : Disk}
    {original : ServerConfig} {w : World}
    (h : Restored s ⟨disk', original, some (k'.reconcile original w).1⟩) (hv : Valid P original)
    (ho : w.Orders original) (hb : ∀ spec, w.bind spec = true) : Running k s.config := by
  have hback := (reconcile_ok (k := k') (newIn_empty.1 hv.distinct.tunnels.names) hv.protocols ho
    fun spec _ => hb spec).2
  have hwanted : desired original = desired s.config := by
    rw [show original = { s.config with revision := original.revision } from h.config]
    rfl
  intro key
  rw [← h.specs k _ hk rfl key, hback key, hwanted]

/-- **When the 409 answer leaves everything as it was**, whatever the second `reconcile` finds: no
id without a cleaned form, an order of the original tunnels that the accepted ones do not block,
and no listeners but those of the configuration. -/
theorem rollback_restores_iff {tunnels : List Tunnel} (hP : P.Lawful) (hv : Valid P s.config)
    (hs : StoredAs s.disk.db s.config) (hb : BindFails P s i a tunnels ts env disk stored k error)
    (hf : RollbackDraws s i a ts env disk) :
    (∀ w, (saveTunnels P s i a (some tunnels) { env with secondWorld := w }).2 =
      .failed 409 ("公网端口监听失败：" ++ error)) ∧
    ((∀ w, RollbackWorld P s env disk stored k w →
        Restored s (saveTunnels P s i a (some tunnels) { env with secondWorld := w }).1) ↔
      NoDash s.config ∧ OrderSafe (·.id) RollbackClash ts a.tunnels ∧ Running k s.config) := by
  have hresult (w : World) : saveTunnels P s i a (some tunnels) { env with secondWorld := w } =
      rollback P s disk stored (k.reconcile stored env.firstWorld).1 error { env with secondWorld := w } :=
    BindFails.result ⟨hb.user, hb.quota, hb.accepted, hb.saved, hb.controller, hb.failed⟩
  simp only [hresult]
  refine ⟨fun w => rollback_answer, ?_⟩
  obtain ⟨d, hn⟩ := hb.accepted
  obtain ⟨e, hsave⟩ := hb.saved
  have ha := normalizeUserTunnels_ok hn
  obtain ⟨pre, post, hat⟩ := exists_at hb.user
  obtain ⟨-, hstored, hvs, hholds, hfits, -, -⟩ := stored_candidate hP hv hs hat ha hf.first hsave
  have h : AfterSave P s i pre a post ts env disk stored :=
    ⟨hv, hs, hat, ha, hf, hvs, hholds, hfits, by rw [hstored]; rfl⟩
  unfold rollback
  dsimp only
  cases hr : save P disk { s.config with revision := stored.revision } env.second with
  | mk disk' res =>
  cases res with
  | error err =>
    have hworld : RollbackWorld P s env disk stored k ⟨0, [], fun _ => true⟩ :=
      ⟨fun _ _ _ hr' => (by rw [hr] at hr'; cases hr'), fun _ _ _ => rfl⟩
    have hnot : ¬ (NoDash s.config ∧ OrderSafe (·.id) RollbackClash ts a.tunnels) := by
      rintro ⟨hd, hsafe⟩
      obtain ⟨r, hr'⟩ := (h.save_iff hP hd).2 hsafe
      rw [hr] at hr'
      cases hr'
    refine ⟨fun hall => ?_, fun hx => absurd ⟨hx.1, hx.2.1⟩ hnot⟩
    exact absurd (h.refused (save_error hholds.settings hr).1 (hall _ hworld).tunnels) hnot
  | ok res =>
    obtain ⟨original, e'⟩ := res
    refine ⟨fun hall => ?_, fun hx w hw => h.restored hx.1 hb.controller hx.2.2 hw hr⟩
    -- a world in which every port is free
    have hworld : RollbackWorld P s env disk stored k (World.blocking original []) :=
      ⟨fun _ _ _ hr' => (by rw [hr] at hr'; cases hr'; exact World.blocking_orders original []),
        fun _ _ _ => by simp [World.blocking]⟩
    have hre := hall _ hworld
    have hd := noDash_of_config hv hf.second ⟨_, hholds.settings⟩ hr (congrArg (·.users) hre.config)
    exact ⟨hd, (h.save_iff hP hd).1 ⟨_, congrArg Prod.snd hr⟩,
      hre.running hb.controller (save_valid hr) (World.blocking_orders original []) fun _ => by simp [World.blocking]⟩

end

/-- A server with two tunnels on ports 1 and 2, and port 3 taken by someone else. -/
def twoTunnelsServer : Server Rat :=
  ⟨Disk.ofConfig twoTunnels, twoTunnels, some (TrafficController.broughtUp twoTunnels)⟩

def blockedEnv (stored : ServerConfig) : Env where
  now := 5
  draws := Draws.constant
  first := Entropy.constant
  second := Entropy.constant
  firstWorld := World.blocking stored [3]
  secondWorld := World.blocking twoTunnels []

/-- The configuration that a save of the tunnels stores. -/
def twoTunnelsStored (ts : List Tunnel) : ServerConfig :=
  { candidate twoTunnels 0 twoTunnelsUser ts 5 with revision := 2 }

def diskAfter (ts : List Tunnel) : Disk :=
  (save .plain twoTunnelsServer.disk (candidate twoTunnels 0 twoTunnelsUser ts 5) Entropy.constant).1

theorem twoTunnels_running : Running (TrafficController.broughtUp twoTunnels) twoTunnels :=
  broughtUp_running (newIn_empty.1 twoTunnels_valid.distinct.tunnels.names) (by decide +kernel)

theorem twoTunnels_bindFails {tunnels ts : List Tunnel}
    (hn : (normalizeUserTunnels twoTunnels 0 twoTunnelsUser tunnels Draws.constant).toOption.map
      Prod.fst = some ts)
    (hs : (save .plain twoTunnelsServer.disk (candidate twoTunnels 0 twoTunnelsUser ts 5)
      Entropy.constant).2.toOption.map Prod.fst = some (twoTunnelsStored ts))
    (hf : ((TrafficController.broughtUp twoTunnels).reconcile (twoTunnelsStored ts)
      (World.blocking (twoTunnelsStored ts) [3])).2.isOk = false) :
    ∃ error, BindFails .plain twoTunnelsServer 0 twoTunnelsUser tunnels ts
      (blockedEnv (twoTunnelsStored ts)) (diskAfter ts) (twoTunnelsStored ts)
      (TrafficController.broughtUp twoTunnels) error := by
  obtain ⟨e, hs⟩ := exists_of_fst hs
  cases hr : ((TrafficController.broughtUp twoTunnels).reconcile (twoTunnelsStored ts)
      (World.blocking (twoTunnelsStored ts) [3])).2 with
  | ok u => rw [hr] at hf; cases hf
  | error error => exact ⟨error, rfl, by decide, exists_of_fst hn, ⟨e, Prod.ext rfl hs⟩, rfl, hr⟩

/-- Tunnel `a` moves to port 3, alone or with `b` taking its place. -/
def moveA : List Tunnel := [sampleTunnel ['a'] 3 20000, sampleTunnel ['b'] 2 20001]

def moveBoth : List Tunnel := [sampleTunnel ['a'] 3 20000, sampleTunnel ['b'] 1 20001]

theorem rollback_restores_moveA : ∃ error,
    (saveTunnels .plain twoTunnelsServer 0 twoTunnelsUser (some moveA)
      (blockedEnv (twoTunnelsStored moveA))).2 = .failed 409 error ∧
    Restored twoTunnelsServer (saveTunnels .plain twoTunnelsServer 0 twoTunnelsUser (some moveA)
      (blockedEnv (twoTunnelsStored moveA))).1 := by
  obtain ⟨error, hb⟩ := @twoTunnels_bindFails moveA moveA (by decide +kernel) (by decide +kernel)
    (by decide +kernel)
  obtain ⟨e, horig⟩ := exists_of_fst (show (save .plain (diskAfter moveA)
    { twoTunnels with revision := 2 } Entropy.constant).2.toOption.map Prod.fst =
      some { twoTunnels with revision := 3 } by decide +kernel)
  have h := rollback_restores_iff Primitives.plain_lawful twoTunnels_valid twoTunnels_stored hb
    ⟨by decide +kernel, by decide +kernel⟩
  refine ⟨_, h.1 (World.blocking twoTunnels []), h.2.2 ⟨by decide +kernel, by decide +kernel, twoTunnels_running⟩ _
    ⟨fun disk' original e' hs => ?_, fun _ _ _ => by simp [World.blocking]⟩⟩
  have hs' := (congrArg Prod.snd hs).symm.trans horig
  simp only [Except.ok.injEq, Prod.mk.injEq] at hs'
  rw [hs'.1]
  exact World.blocking_orders twoTunnels []

/-- **A rollback that is refused.** `b` has been stored on the port that `a` goes back
to, so the candidate stays stored and the configuration in memory is stale. -/
theorem rollback_moveBoth_stuck :
    Valid .plain twoTunnels ∧ StoredAs twoTunnelsServer.disk.db twoTunnels ∧
    Running (TrafficController.broughtUp twoTunnels) twoTunnels ∧ ∃ error,
    BindFails .plain twoTunnelsServer 0 twoTunnelsUser moveBoth moveBoth
      (blockedEnv (twoTunnelsStored moveBoth)) (diskAfter moveBoth) (twoTunnelsStored moveBoth)
      (TrafficController.broughtUp twoTunnels) error ∧
    RollbackDraws twoTunnelsServer 0 twoTunnelsUser moveBoth (blockedEnv (twoTunnelsStored moveBoth))
      (diskAfter moveBoth) ∧
    RollbackWorld .plain twoTunnelsServer (blockedEnv (twoTunnelsStored moveBoth)) (diskAfter moveBoth)
      (twoTunnelsStored moveBoth) (TrafficController.broughtUp twoTunnels) (World.blocking twoTunnels []) ∧
    ¬ Restored twoTunnelsServer (saveTunnels .plain twoTunnelsServer 0 twoTunnelsUser (some moveBoth)
      (blockedEnv (twoTunnelsStored moveBoth))).1 := by
  obtain ⟨error, hb⟩ := @twoTunnels_bindFails moveBoth moveBoth (by decide +kernel)
    (by decide +kernel) (by decide +kernel)
  have hrefused : (save .plain (diskAfter moveBoth) { twoTunnels with revision := 2 }
    Entropy.constant).2.isOk = false := by decide +kernel
  refine ⟨twoTunnels_valid, twoTunnels_stored, twoTunnels_running, error, hb,
    ⟨by decide +kernel, by decide +kernel⟩,
    ⟨fun disk' original e' hs => ?_, fun _ _ _ => by simp [World.blocking]⟩, fun hre => ?_⟩
  · have hs' : (save .plain (diskAfter moveBoth) { twoTunnels with revision := 2 }
      Entropy.constant).2 = .ok (original, e') := congrArg Prod.snd hs
    rw [hs'] at hrefused
    cases hrefused
  · obtain ⟨row, hrow, hrev⟩ := hre.revision
    have hrevs : (saveTunnels .plain twoTunnelsServer 0 twoTunnelsUser (some moveBoth)
        (blockedEnv (twoTunnelsStored moveBoth))).1.disk.db.settings.map (·.revision) = some 2 ∧
      (saveTunnels .plain twoTunnelsServer 0 twoTunnelsUser (some moveBoth)
        (blockedEnv (twoTunnelsStored moveBoth))).1.config.revision = 1 := by decide +kernel
    rw [hrow, Option.map_some, hrev, hrevs.2] at hrevs
    exact absurd hrevs.1 (by decide)

end OrangeFrp.App
