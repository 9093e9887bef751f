import OrangeFrp.App.UserTunnels
import OrangeFrp.Storage.WriteOrder

/-!
# The candidate of a tunnels save (`frp-game-server/src/app.rs`)

An accepted list replaces the user's tunnels in a copy of the configuration,
and this candidate is handed to `Storage::save`.

* `normalize_candidate_iff`: the candidate passes `normalize_loaded_config`
  exactly when no accepted tunnel has the id of another user's tunnel.
* `save_candidate_ok_iff`: it is stored exactly when, moreover, the upserts of
  the accepted tunnels never meet a stored row that is still to be deleted or
  rewritten.
-/
namespace OrangeFrp.App

open OrangeFrp.Core OrangeFrp.Core.Table OrangeFrp.Storage

/-- mirrors crates/frp-game-server/src/app.rs:1819-1821 -/
def deactivate (record : ProxyTrafficRecord) : ProxyTrafficRecord := { record with active := false }

def newRecord (t : Tunnel) : ProxyTrafficRecord where
  protocol := t.protocol
  remotePort := t.remotePort
  trafficInBytes := 0
  trafficOutBytes := 0
  active := true

/-- mirrors crates/frp-game-server/src/app.rs:1822-1832 -/
def activate (traffic : Assoc Str ProxyTrafficRecord) (t : Tunnel) : Assoc Str ProxyTrafficRecord :=
  Assoc.alter t.proxyName (newRecord t) (fun record => { record with active := true }) traffic

/-- mirrors crates/frp-game-server/src/app.rs:1818-1834 -/
def withTunnels (u : ServerUser) (ts : List Tunnel) (now : Int) : ServerUser :=
  { u with
    tunnels := ts
    trafficByProxy := ts.foldl activate (Assoc.mapVals deactivate u.trafficByProxy)
    updatedAt := now }

/-- mirrors crates/frp-game-server/src/app.rs:1817-1835 -/
def candidate (c : ServerConfig) (userIndex : Nat) (current : ServerUser) (ts : List Tunnel)
    (now : Int) : ServerConfig :=
  { c with users := c.users.set userIndex (withTunnels current ts now), updatedAt := now }

/-- The record under a name once the list is activated. -/
def activated (ts : List Tunnel) (traffic : Assoc Str ProxyTrafficRecord) (name : Str) :
    Option ProxyTrafficRecord :=
  match ts.find? fun t => t.proxyName = name with
  | some t => some { (traffic.lookup name).getD (newRecord t) with active := true }
  | none => traffic.lookup name

theorem lookup_foldl_activate {ts : List Tunnel} (hn : (ts.map (·.proxyName)).Nodup)
    (traffic : Assoc Str ProxyTrafficRecord) (name : Str) :
    (ts.foldl activate traffic).lookup name = activated ts traffic name := by
  induction ts generalizing traffic with
  | nil => rfl
  | cons t ts ih =>
    rw [List.map_cons, List.nodup_cons] at hn
    rw [List.foldl_cons, ih hn.2]
    unfold activated
    by_cases he : t.proxyName = name
    · -- no later tunnel has this name
      have hnone : ts.find? (fun t => t.proxyName = name) = none := by
        refine List.find?_eq_none.2 fun u hu => ?_
        rw [decide_eq_true_eq]
        exact fun hu' => hn.1 (List.mem_map.2 ⟨u, hu, hu'.trans he.symm⟩)
      simp only [hnone, List.find?_cons, he, decide_true]
      rw [activate, Assoc.lookup_alter, he, if_pos rfl]
    · have hlook : (activate traffic t).lookup name = traffic.lookup name := by
        rw [activate, Assoc.lookup_alter, if_neg (Ne.symm he)]
      simp only [List.find?_cons, he, decide_false, hlook]

/-- **The records of the candidate's user.** -/
theorem lookup_withTunnels {ts : List Tunnel} (hn : (ts.map (·.proxyName)).Nodup) (u : ServerUser)
    (now : Int) (name : Str) :
    (withTunnels u ts now).trafficByProxy.lookup name =
      activated ts (Assoc.mapVals deactivate u.trafficByProxy) name :=
  lookup_foldl_activate hn _ name

/-! ## One user among the others -/

/-- The user `a` stands at the index, between `pre` and `post`. -/
structure At (c : ServerConfig) (userIndex : Nat) (pre : List ServerUser) (a : ServerUser)
    (post : List ServerUser) : Prop where
  users : c.users = pre ++ a :: post
  index : userIndex = pre.length

theorem exists_at {c : ServerConfig} {userIndex : Nat} {a : ServerUser}
    (h : c.users[userIndex]? = some a) : ∃ pre post, At c userIndex pre a post := by
  obtain ⟨hlt, rfl⟩ := List.getElem?_eq_some_iff.1 h
  refine ⟨c.users.take userIndex, c.users.drop (userIndex + 1), ?_, ?_⟩
  · rw [← List.drop_eq_getElem_cons hlt, List.take_append_drop]
  · rw [List.length_take, min_eq_left hlt.le]

section
variable {c : ServerConfig} {i : Nat} {pre post : List ServerUser} {a : ServerUser}

theorem At.others (h : At c i pre a post) : othersOf c i = pre ++ post := by
  rw [othersOf, h.users, h.index, List.eraseIdx_append_of_length_le le_rfl]
  simp

theorem At.candidate_users (h : At c i pre a post) (ts : List Tunnel) (now : Int) :
    (candidate c i a ts now).users = pre ++ withTunnels a ts now :: post := by
  rw [candidate, h.users, h.index, List.set_append_right _ _ le_rfl]
  simp

theorem At.drop (h : At c i pre a post) : c.users.drop i = a :: post := by
  rw [h.users, h.index, List.drop_left]

theorem At.mem (h : At c i pre a post) : a ∈ c.users := by rw [h.users]; simp

theorem At.mem_other (h : At c i pre a post) {u : ServerUser} (hu : u ∈ pre ++ post) :
    u ∈ c.users := by
  rw [h.users]
  rcases List.mem_append.1 hu with hu | hu <;> simp [hu]

theorem perm_middle {pre post : List ServerUser} (u : ServerUser) :
    ((pre ++ u :: post).flatMap (·.tunnels)).Perm
      (u.tunnels ++ (pre ++ post).flatMap (·.tunnels)) := by
  rw [List.flatMap_append, List.flatMap_cons, List.flatMap_append]
  exact List.perm_append_comm_assoc _ _ _

theorem At.tunnels_perm (h : At c i pre a post) :
    c.tunnels.Perm (a.tunnels ++ (pre ++ post).flatMap (·.tunnels)) := by
  rw [ServerConfig.tunnels, h.users]; exact perm_middle a

theorem At.candidate_tunnels_perm (h : At c i pre a post) (ts : List Tunnel) (now : Int) :
    (candidate c i a ts now).tunnels.Perm (ts ++ (pre ++ post).flatMap (·.tunnels)) := by
  rw [ServerConfig.tunnels, h.candidate_users]; exact perm_middle (withTunnels a ts now)

/-- A key column of the old tunnels is distinct within the user, within the
others, and between them. -/
theorem nodup_split {α : Type} {f : Tunnel → α} (h : At c i pre a post) :
    (c.tunnels.map f).Nodup ↔ (a.tunnels.map f).Nodup ∧
      (((pre ++ post).flatMap (·.tunnels)).map f).Nodup ∧
      ∀ t ∈ a.tunnels, ∀ o ∈ (pre ++ post).flatMap (·.tunnels), f t ≠ f o := by
  rw [(h.tunnels_perm.map f).nodup_iff, List.map_append, List.nodup_append]
  simp only [List.forall_mem_map]

theorem nodup_candidate {α : Type} {f : Tunnel → α} (h : At c i pre a post) (ts : List Tunnel)
    (now : Int) :
    ((candidate c i a ts now).tunnels.map f).Nodup ↔ (ts.map f).Nodup ∧
      (((pre ++ post).flatMap (·.tunnels)).map f).Nodup ∧
      ∀ t ∈ ts, ∀ o ∈ (pre ++ post).flatMap (·.tunnels), f t ≠ f o := by
  rw [((h.candidate_tunnels_perm ts now).map f).nodup_iff, List.map_append, List.nodup_append]
  simp only [List.forall_mem_map]

/-! ## Backend ports of an accepted list -/

variable {P : Primitives} {ts : List Tunnel}

theorem mem_usedPorts_backend {o : Tunnel} (ho : o ∈ c.tunnels) :
    o.backendPort ∈ usedPorts c a ts := by
  obtain ⟨u, hu, hou⟩ := List.mem_flatMap.1 ho
  unfold usedPorts
  refine List.mem_append_left _ (List.mem_append_right _ ?_)
  refine List.mem_flatMap.2 ⟨u, hu, List.mem_flatMap.2 ⟨o, hou, ?_⟩⟩
  split <;> simp

theorem mem_usedPorts_remote {t : Tunnel} (ht : t ∈ ts) : t.remotePort ∈ usedPorts c a ts :=
  List.mem_append_left _ (List.mem_append_left _ (List.mem_map_of_mem ht))

theorem mem_usedPorts_other {u : ServerUser} {o : Tunnel} (hu : u ∈ c.users) (hne : u.id ≠ a.id)
    (ho : o ∈ u.tunnels) : o.remotePort ∈ usedPorts c a ts := by
  unfold usedPorts
  refine List.mem_append_left _ (List.mem_append_right _ ?_)
  exact List.mem_flatMap.2 ⟨u, hu, List.mem_flatMap.2 ⟨o, ho, by simp [hne]⟩⟩

theorem mem_usedPorts_reserved {p : Port} (hp : p ∈ c.reserved) : p ∈ usedPorts c a ts :=
  List.mem_append_right _ hp

theorem mem_tunnels {u : ServerUser} {t : Tunnel} (hu : u ∈ c.users) (ht : t ∈ u.tunnels) :
    t ∈ c.tunnels := List.mem_flatMap.2 ⟨u, hu, ht⟩

theorem eq_of_tunnel_column {α : Type} {f : Tunnel → α} (h : (c.tunnels.map f).Nodup) {t o : Tunnel}
    (ht : t ∈ c.tunnels) (ho : o ∈ c.tunnels) (he : f t = f o) : t = o :=
  List.inj_on_of_nodup_map h ht ho he

theorem other_id_ne (hv : Valid P c) (h : At c i pre a post) {u : ServerUser}
    (hu : u ∈ pre ++ post) : u.id ≠ a.id := by
  have hn := newIn_empty.1 hv.distinct.ids
  rw [h.users, List.map_append, List.map_cons, List.nodup_middle, List.nodup_cons,
    ← List.map_append] at hn
  exact fun e => hn.1 (e ▸ List.mem_map_of_mem hu)

/-- The accepted tunnels have distinct backend ports, and none of another tunnel. -/
theorem accepted_backend (hv : Valid P c) (h : At c i pre a post) (ha : AcceptedFor c i a ts) :
    (ts.map (·.backendPort)).Nodup ∧
      (∀ t ∈ ts, ∀ o ∈ c.tunnels, o.id ≠ t.id ∨ o ∉ a.tunnels → t.backendPort ≠ o.backendPort) ∧
      (∀ t ∈ ts, t.backendPort ≠ 0 ∧ t.backendPort ∉ c.reserved) ∧
      (∀ t ∈ ts, ∀ o ∈ ts, o.remotePort ≠ t.backendPort) ∧
      ∀ t ∈ ts, ∀ u ∈ pre ++ post, ∀ o ∈ u.tunnels, o.remotePort ≠ t.backendPort := by
  have hback := newIn_empty.1 hv.distinct.tunnels.backendPorts
  have hold : ∀ old ∈ a.tunnels, old ∈ c.tunnels := fun old ho => mem_tunnels h.mem ho
  refine ⟨List.pairwise_map.2 ?_, ?_, ?_, ?_, ?_⟩
  · have hids := List.pairwise_map.1 ha.ids
    refine (hids.and ha.fresh).imp_of_mem ?_
    intro t u ht hu hx e
    obtain ⟨hid, hfresh⟩ := hx
    cases ha.backend t ht with
    | kept old hm hid₁ hp₁ =>
      cases ha.backend u hu with
      | kept old' hm' hid₂ hp₂ =>
        have := eq_of_tunnel_column hback (hold _ hm) (hold _ hm') (hp₁.trans (e.trans hp₂.symm))
        exact hid (by rw [← hid₁, ← hid₂, this])
      | fresh hn hu' h0 => exact hu' (by rw [← e, ← hp₁]; exact mem_usedPorts_backend (hold _ hm))
    | fresh hn ht' h0 =>
      cases ha.backend u hu with
      | kept old' hm' hid₂ hp₂ => exact ht' (by rw [e, ← hp₂]; exact mem_usedPorts_backend (hold _ hm'))
      | fresh hn' hu' h0' => exact hfresh hn hn' e
  · intro t ht o ho hne e
    cases ha.backend t ht with
    | kept old hm hid hp =>
      have := eq_of_tunnel_column hback (hold _ hm) ho (hp.trans e)
      subst this
      rcases hne with hne | hne
      · exact hne hid
      · exact hne hm
    | fresh hn hu h0 => exact hu (by rw [e]; exact mem_usedPorts_backend ho)
  · intro t ht
    cases ha.backend t ht with
    | kept old hm hid hp => rw [← hp]; exact hv.distinct.tunnels.backend old (hold _ hm)
    | fresh hn hu h0 => exact ⟨h0, fun hr => hu (mem_usedPorts_reserved hr)⟩
  · intro t ht o ho e
    cases ha.backend t ht with
    | kept old hm hid hp => exact ha.notBackend o ho old (hold _ hm) (e.trans hp.symm)
    | fresh hn hu h0 => exact hu (by rw [← e]; exact mem_usedPorts_remote ho)
  · intro t ht u hu o ho e
    cases ha.backend t ht with
    | kept old hm hid hp =>
      exact hv.disjoint o (mem_tunnels (h.mem_other hu) ho) old (hold _ hm) (e.trans hp.symm)
    | fresh hn hu' h0 =>
      exact hu' (by rw [← e]; exact mem_usedPorts_other (h.mem_other hu) (other_id_ne hv h hu) ho)

/-! ## The candidate and `normalize_loaded_config` -/

variable (now : Int)

theorem mem_candidate_users (h : At c i pre a post) {u : ServerUser} :
    u ∈ (candidate c i a ts now).users ↔ u = withTunnels a ts now ∨ u ∈ pre ++ post := by
  rw [h.candidate_users]
  simp only [List.mem_append, List.mem_cons]
  tauto

theorem mem_candidate_tunnels (h : At c i pre a post) {t : Tunnel} :
    t ∈ (candidate c i a ts now).tunnels ↔ t ∈ ts ∨ t ∈ (pre ++ post).flatMap (·.tunnels) := by
  rw [(h.candidate_tunnels_perm ts now).mem_iff, List.mem_append]

/-- The columns of the users that no save of tunnels touches. -/
theorem candidate_column {α : Type} (h : At c i pre a post) (f : ServerUser → α)
    (hf : f (withTunnels a ts now) = f a) : (candidate c i a ts now).users.map f = c.users.map f := by
  rw [h.candidate_users, h.users, List.map_append, List.map_cons, hf, List.map_append, List.map_cons]

theorem candidate_userOk (hv : Valid P c) (h : At c i pre a post) (ha : AcceptedFor c i a ts) :
    ∀ u ∈ (candidate c i a ts now).users, UserOk P c.apiSalt u := by
  intro u hu
  rcases (mem_candidate_users now h).1 hu with rfl | hu
  · have hok := hv.users a h.mem
    exact ⟨hok.account_trim, hok.account_ne, hok.id, hok.passwordHash, hok.secret_length,
      hok.secret_alnum, hok.password, hok.limit, ha.count, ha.wellFormed⟩
  · exact hv.users u (h.mem_other hu)

theorem candidate_nameFor (hv : Valid P c) (h : At c i pre a post) (ha : AcceptedFor c i a ts) :
    ∀ t ∈ (candidate c i a ts now).tunnels, NameFor t.id t.proxyName := by
  intro t ht
  rcases (mem_candidate_tunnels now h).1 ht with ht | ht
  · exact ha.name t ht
  · obtain ⟨u, hu, htu⟩ := List.mem_flatMap.1 ht
    exact hv.names t (mem_tunnels (h.mem_other hu) htu)

theorem candidate_names (hv : Valid P c) (h : At c i pre a post) (ha : AcceptedFor c i a ts) :
    ((candidate c i a ts now).tunnels.map (·.proxyName)).Nodup := by
  have hold := (nodup_split (f := (·.proxyName)) h).1 (newIn_empty.1 hv.distinct.tunnels.names)
  refine (nodup_candidate h ts now).2 ⟨ha.names, hold.2.1, fun t ht o ho => ?_⟩
  obtain ⟨u, hu, hou⟩ := List.mem_flatMap.1 ho
  exact fun e => (ha.others t ht u (by rw [h.others]; exact hu) o hou).2 e.symm

/-- No accepted tunnel has the id of another user's tunnel. -/
def NoForeignId (c : ServerConfig) (userIndex : Nat) (ts : List Tunnel) : Prop :=
  ∀ t ∈ ts, ∀ u ∈ othersOf c userIndex, ∀ o ∈ u.tunnels, o.id ≠ t.id

instance (c : ServerConfig) (userIndex : Nat) (ts : List Tunnel) :
    Decidable (NoForeignId c userIndex ts) := by unfold NoForeignId; infer_instance

theorem candidate_ids (hv : Valid P c) (h : At c i pre a post) (ha : AcceptedFor c i a ts) :
    ((candidate c i a ts now).tunnels.map (·.id)).Nodup ↔ NoForeignId c i ts := by
  have hold := (nodup_split (f := (·.id)) h).1 (newIn_empty.1 hv.distinct.tunnels.ids)
  rw [nodup_candidate h ts now, NoForeignId, h.others]
  refine ⟨?_, ?_⟩
  · intro hx t ht u hu o ho e
    obtain ⟨-, -, hne⟩ := hx
    exact hne t ht o (List.mem_flatMap.2 ⟨u, hu, ho⟩) e.symm
  · intro hne
    refine ⟨ha.ids, hold.2.1, fun t ht o ho => ?_⟩
    obtain ⟨u, hu, hou⟩ := List.mem_flatMap.1 ho
    exact fun e => hne t ht u hu o hou e.symm

theorem candidate_backendPorts (hv : Valid P c) (h : At c i pre a post) (ha : AcceptedFor c i a ts) :
    ((candidate c i a ts now).tunnels.map (·.backendPort)).Nodup := by
  have hold := (nodup_split (f := (·.backendPort)) h).1
    (newIn_empty.1 hv.distinct.tunnels.backendPorts)
  obtain ⟨h₁, h₂, -⟩ := accepted_backend hv h ha
  refine (nodup_candidate h ts now).2 ⟨h₁, hold.2.1, fun t ht o ho => ?_⟩
  obtain ⟨u, hu, hou⟩ := List.mem_flatMap.1 ho
  refine h₂ t ht o (mem_tunnels (h.mem_other hu) hou) (.inr fun hoa => ?_)
  exact hold.2.2 o hoa o ho rfl

theorem candidate_publicPorts (hv : Valid P c) (h : At c i pre a post) (ha : AcceptedFor c i a ts) :
    ((candidate c i a ts now).tunnels.map Tunnel.publicKey).Nodup := by
  have hold := (nodup_split (f := Tunnel.publicKey) h).1
    (newIn_empty.1 hv.distinct.tunnels.publicPorts)
  refine (nodup_candidate h ts now).2 ⟨ha.wellFormed.ports, hold.2.1, fun t ht o ho => ?_⟩
  obtain ⟨u, hu, hou⟩ := List.mem_flatMap.1 ho
  exact fun e => (ha.others t ht u (by rw [h.others]; exact hu) o hou).1 e.symm

theorem candidate_portsApart (hv : Valid P c) (h : At c i pre a post) (ha : AcceptedFor c i a ts) :
    PortsApart (candidate c i a ts now).users := by
  obtain ⟨-, -, -, h₄, h₅⟩ := accepted_backend hv h ha
  intro t ht o ho e
  rcases (mem_candidate_tunnels now h).1 ht with ht | ht <;>
    rcases (mem_candidate_tunnels now h).1 ho with ho | ho
  · exact h₄ o ho t ht e
  · obtain ⟨u, hu, hou⟩ := List.mem_flatMap.1 ho
    exact ha.notBackend t ht o (mem_tunnels (h.mem_other hu) hou) e
  · obtain ⟨u, hu, htu⟩ := List.mem_flatMap.1 ht
    exact h₅ o ho u hu t htu e
  · obtain ⟨u, hu, htu⟩ := List.mem_flatMap.1 ht
    obtain ⟨v, hv', hov⟩ := List.mem_flatMap.1 ho
    exact hv.disjoint t (mem_tunnels (h.mem_other hu) htu) o (mem_tunnels (h.mem_other hv') hov) e

/-- The draws of a save give names that are neither stored nor used by the candidate. -/
def FreshFor (d : Draws) (db : Db) (c : ServerConfig) : Prop :=
  Fresh d (dashCount c.tunnels) (db.tunnels.rows.map (·.proxyName) ++ c.tunnels.map (·.proxyName))

instance (d : Draws) (db : Db) (c : ServerConfig) : Decidable (FreshFor d db c) := by
  unfold FreshFor; infer_instance

theorem candidate_settings (hv : Valid P c) : checkSettings P (candidate c i a ts now) = .ok () :=
  hv.settings

theorem candidate_admits (hv : Valid P c) (h : At c i pre a post) (ha : AcceptedFor c i a ts) :
    AdmitsUsers c.reserved Seen.empty (candidate c i a ts now).users ↔ NoForeignId c i ts := by
  rw [← candidate_ids now hv h ha]
  refine ⟨?_, ?_⟩
  · exact fun hadm => newIn_empty.1 hadm.tunnels.ids
  · intro hids
    obtain ⟨-, h₂, h₃, -, -⟩ := accepted_backend hv h ha
    have hold := hv.distinct
    refine ⟨?_, ?_, ?_, newIn_empty.2 hids, newIn_empty.2 (candidate_names now hv h ha),
      newIn_empty.2 (candidate_publicPorts now hv h ha),
      newIn_empty.2 (candidate_backendPorts now hv h ha), fun t ht => ?_, fun t ht => ?_⟩
    · rw [candidate_column now h (·.account) rfl]; exact hold.accounts
    · rw [candidate_column now h (·.id) rfl]; exact hold.ids
    · rw [candidate_column now h (·.secret) rfl]; exact hold.secrets
    · rcases (mem_candidate_tunnels now h).1 ht with ht | ht
      · exact ha.reserved t ht
      · obtain ⟨u, hu, htu⟩ := List.mem_flatMap.1 ht
        exact hold.tunnels.remote t (mem_tunnels (h.mem_other hu) htu)
    · rcases (mem_candidate_tunnels now h).1 ht with ht | ht
      · exact h₃ t ht
      · obtain ⟨u, hu, htu⟩ := List.mem_flatMap.1 ht
        exact hold.tunnels.backend t (mem_tunnels (h.mem_other hu) htu)

/-- **When the candidate is accepted.** -/
theorem normalize_candidate_iff (hv : Valid P c) (h : At c i pre a post)
    (ha : AcceptedFor c i a ts) {d : Draws} {db : Db}
    (hf : FreshFor d db (candidate c i a ts now)) {r : ServerConfig × Draws} :
    normalizeLoadedConfig P (candidate c i a ts now) d = .ok r ↔
      NoForeignId c i ts ∧
        r = (renamed (candidate c i a ts now) d, (renameUsers (candidate c i a ts now).users d).2) := by
  have hadm := @admitsUsers_rename c.reserved _ _ _ (candidate_nameFor now hv h ha)
    (candidate_names now hv h ha) hf
    (fun t ht => List.mem_append_right _ (List.mem_map_of_mem ht))
  have hcol := map_eq_of_sameButNames (·.account) (fun _ _ => rfl)
    (renameUsers_forall₂ (candidate c i a ts now).users d)
  have hsorted := sorted_of_accounts (hcol.trans (candidate_column now h (·.account) rfl)) hv.sorted
  rw [normalize_clean_iff P (candidate_settings now hv) (candidate_userOk now hv h ha),
    sortUsers_self hsorted]
  refine ⟨?_, ?_⟩
  · intro hx
    obtain ⟨h₁, -, rfl⟩ := hx
    exact ⟨(candidate_admits now hv h ha).1 (hadm.1 h₁), rfl⟩
  · intro hx
    obtain ⟨h₁, rfl⟩ := hx
    exact ⟨hadm.2 ((candidate_admits now hv h ha).2 h₁),
      portsApart_rename d (candidate_portsApart now hv h ha), rfl⟩

/-! ## When the candidate is stored -/

/-- A stored tunnel keeps an accepted one out while it is there: the same public
key, or the proxy name the accepted tunnel is written under. -/
def SaveClash (stored t : Tunnel) : Prop :=
  stored.publicKey = t.publicKey ∨ (¬ DashOnly t.id ∧ stored.proxyName = t.proxyName)

instance (stored t : Tunnel) : Decidable (SaveClash stored t) := by unfold SaveClash; infer_instance

/-- The stored tunnels of the user and of the users written after it. -/
def storedFrom (db : Db) (c : ServerConfig) (userIndex : Nat) : List Tunnel :=
  (rowsFrom db (c.users.take userIndex)).map (·.toTunnel)

theorem At.take (h : At c i pre a post) : c.users.take i = pre := by
  rw [h.users, h.index, List.take_left]

theorem rowsFrom_congr {db : Db} {us vs : List ServerUser} (h : us.map (·.id) = vs.map (·.id)) :
    rowsFrom db us = rowsFrom db vs := by
  unfold rowsFrom; rw [h]

theorem countersFit_withTunnels (hn : (ts.map (·.proxyName)).Nodup) (hfit : CountersFit a) :
    CountersFit (withTunnels a ts now) := by
  refine ⟨hfit.limit, hfit.used, fun name record h => ?_⟩
  rw [lookup_withTunnels hn, activated, Assoc.lookup_mapVals] at h
  have hzero : ((0 : Nat) : Int) ≤ I64_MAX := by decide
  cases hl : a.trafficByProxy.lookup name with
  | none =>
    rw [hl] at h
    split at h
    · cases h; exact ⟨hzero, hzero⟩
    · cases h
  | some old =>
    have hold := hfit.records name old hl
    rw [hl] at h
    split at h <;> · cases h; exact hold

theorem initialize_of_storedAs (hP : P.Lawful) {disk : Disk} (hv : Valid P c)
    (hs : StoredAs disk.db c) (e : Entropy) :
    ∃ disk₁ e₁, initializeStore P disk e = .ok (disk₁, e₁) ∧ SameButPasswords disk.db disk₁.db ∧
      e₁.uuids = e.uuids := by
  obtain ⟨s, hset, -, hsalt⟩ := hs.settings
  obtain ⟨-, -, salt, hdec, hlen⟩ := checkSettings_ok P hv.settings
  have hsecret : ∀ r ∈ disk.db.users.rows, r.secret ≠ [] := by
    intro r hr hnil
    obtain ⟨u, hu, -, -, hsec⟩ := hs.users r hr
    have := (hv.users u hu).secret_length
    rw [← hsec, hnil] at this
    cases this
  obtain ⟨⟨disk₁, e₁⟩, hi⟩ := initializeStore_total hP hset (hsalt ▸ hdec) hlen hsecret e
  obtain ⟨hsame, -, -, he⟩ := initializeStore_initialized hset hi
  exact ⟨disk₁, e₁, hi, hsame, he⟩

/-- A stored row has the backend port of an accepted tunnel only if it has its id. -/
theorem stored_backend_ne {db : Db} (hv : Valid P c) (h : At c i pre a post)
    (ha : AcceptedFor c i a ts) (hs : StoredAs db c) {r : TunnelRow} (hr : r ∈ db.tunnels.rows)
    {t : Tunnel} (ht : t ∈ ts) (hne : r.id ≠ t.id) : r.backendPort ≠ t.backendPort := by
  obtain ⟨u, hu, -, o, ho, hso⟩ := hs.tunnels r hr
  have hback : r.backendPort = o.backendPort := hso.backendPort_eq
  rw [hback]
  exact ((accepted_backend hv h ha).2.1 t ht o (mem_tunnels hu ho)
    (.inl fun e => hne (hso.id_eq.trans e))).symm

/-- A name that another user's tunnel is written under is stored under its own id at most. -/
theorem stored_name_ne {db : Db} {d : Draws} (hv : Valid P c) (h : At c i pre a post) (hs : StoredAs db c)
    (hf : FreshFor d db (candidate c i a ts now)) {pre' post' : List ServerUser}
    (hpre : List.Forall₂ SameButNames pre pre') (hpost : List.Forall₂ SameButNames post post')
    (hdraw : ∀ u ∈ pre' ++ post', ∀ t ∈ u.tunnels, DashOnly t.id →
      t.proxyName ∈ drawnNames d (dashCount (candidate c i a ts now).tunnels)) :
    ∀ r ∈ db.tunnels.rows, ∀ u ∈ pre' ++ post', ∀ t ∈ u.tunnels, r.id ≠ t.id →
      r.proxyName ≠ t.proxyName := by
  intro r hr u hu t ht hne e
  by_cases hdash : DashOnly t.id
  · refine hf.unused _ (hdraw u hu t ht hdash) (List.mem_append_left _ ?_)
    rw [← e]
    exact List.mem_map_of_mem (f := fun r : TunnelRow => r.proxyName) hr
  · have hall := List.rel_append hpre hpost
    obtain ⟨w, hw, -, o, ho, hso⟩ := mem_of_sameButNames hall hu ht
    have hwc := h.mem_other hw
    obtain ⟨q, hq, -, hsq⟩ := hs.all w hwc o ho
    have hon := hv.names o (mem_tunnels hwc ho)
    have hqid : q.id = t.id := hsq.id_eq.trans hso.id_eq.symm
    have hqn : q.proxyName = t.proxyName :=
      (hsq.name_eq hon (by rw [hqid]; exact hdash)).trans (hso.name_eq hon hdash).symm
    have hapart := db.tunnels.unique r hr q hq (fun e' => hne (e'.trans hqid))
    simp only [tunnelSchema, Bool.or_eq_false_iff, decide_eq_false_iff_not] at hapart
    exact hapart.1.1 (e.trans hqn.symm)

/-- The upserts of the accepted tunnels, read off the stored tunnels. -/
theorem write_candidate_iff {db : Db} {d : Draws} (hv : Valid P c) (hs : StoredAs db c)
    (h : At c i pre a post) (ha : AcceptedFor c i a ts)
    (hf : FreshFor d db (candidate c i a ts now)) (hno : NoForeignId c i ts) (revision : Int) :
    (∃ db', writeSnapshot db { renamed (candidate c i a ts now) d with revision := revision } =
        .ok db') ↔
      OrderSafe (·.id) SaveClash (storedFrom db c i) ts := by
  have hus := renameUsers_forall₂ (candidate c i a ts now).users d
  have hts := (renameUsers_tunnels (candidate c i a ts now).users d).1
  have hus' := hus
  rw [h.candidate_users] at hus'
  obtain ⟨pre', a', post', hk, hpre, haa, hpost⟩ := forall₂_middle hus'
  rw [← h.candidate_users ts now] at hk
  have hdraw : ∀ t ∈ (renameUsers (candidate c i a ts now).users d).1.flatMap (·.tunnels),
      DashOnly t.id → t.proxyName ∈ drawnNames d (dashCount (candidate c i a ts now).tunnels) := by
    intro t ht hdash
    rw [hts] at ht
    exact (mem_renameTunnels ht).2 hdash
  have hdrawn : ∀ u ∈ pre' ++ a' :: post', ∀ t ∈ u.tunnels, DashOnly t.id →
      t.proxyName ∈ drawnNames d (dashCount (candidate c i a ts now).tunnels) := by
    intro u hu t ht
    refine hdraw t (List.mem_flatMap.2 ⟨u, ?_, ht⟩)
    rw [hk]
    exact hu
  have hadm : AdmitsUsers c.reserved Seen.empty (renameUsers (candidate c i a ts now).users d).1 :=
    (admitsUsers_rename (candidate_nameFor now hv h ha) (candidate_names now hv h ha) hf
      fun t ht => List.mem_append_right _ (List.mem_map_of_mem ht)).2
      ((candidate_admits now hv h ha).2 hno)
  have hone : OneUser db pre' a' post' := by
    refine oneUser_of_storedAs hs hv.distinct h.users hpre hpost ?_
      (stored_name_ne now hv h hs hf hpre hpost fun u hu => hdrawn u ?_)
    · rw [haa.1]; exact ⟨rfl, rfl, rfl⟩
    · rcases List.mem_append.1 hu with hu | hu <;> simp [hu]
  have hproto : ∀ t ∈ (renameUsers (candidate c i a ts now).users d).1.flatMap (·.tunnels),
      t.protocol = tcp ∨ t.protocol = udp := by
    intro t ht
    rw [hts] at ht
    obtain ⟨o, ho, hso⟩ := exists_of_forall₂ (renameTunnels_forall₂ _ d) ht
    obtain ⟨u, hu, hou⟩ := List.mem_flatMap.1 ho
    have hok := ((candidate_userOk now hv h ha u hu).tunnels.each o hou).protocol
    rw [hso.eq]
    exact hok
  have hfits : ∀ u ∈ (renameUsers (candidate c i a ts now).users d).1, CountersFit u := by
    intro u hu
    obtain ⟨v, hv', hvu⟩ := exists_of_forall₂ hus hu
    have : CountersFit v := by
      rcases (mem_candidate_users now h).1 hv' with rfl | hv'
      · exact countersFit_withTunnels now ha.names (hs.fit a h.mem)
      · exact hs.fit v (h.mem_other hv')
    rw [hvu.1]
    exact ⟨this.limit, this.used, this.records⟩
  have hts' : List.Forall₂ SameButName ts a'.tunnels := haa.2
  -- a stored row never has the backend port of an accepted tunnel with another id
  have hclash : ∀ x ∈ db.tunnels.rows, ∀ t ∈ ts, ∀ t' ∈ a'.tunnels, SameButName t t' → x.id ≠ t.id →
      (tunnelSchema.clash x (TunnelRow.of a'.id t') = true ↔ SaveClash x.toTunnel t) := by
    intro x hx t ht t' ht' hst hne
    have hb := stored_backend_ne hv h ha hs hx ht hne
    have hpk : (TunnelRow.of a'.id t').publicKey = t.publicKey := hst.publicKey_eq
    simp only [tunnelSchema, Bool.or_eq_true, decide_eq_true_eq, SaveClash, hpk]
    simp only [TunnelRow.of, hst.backendPort_eq]
    by_cases hdash : DashOnly t.id
    · have hnew : x.proxyName ≠ t'.proxyName := by
        intro e
        refine hf.unused _ (hdrawn a' (by simp) t' ht' (hst.id_eq ▸ hdash))
          (List.mem_append_left _ ?_)
        rw [← e]
        exact List.mem_map_of_mem (f := fun r : TunnelRow => r.proxyName) hx
      tauto
    · rw [hst.name_eq (ha.name t ht) (hst.id_eq.symm ▸ hdash)]
      tauto
  rw [writeSnapshot_ok_iff_user (c := { renamed (candidate c i a ts now) d with revision := revision })
    hk hadm hproto hfits hone, orderSafe_rows hts' hclash, storedFrom, h.take,
    rowsFrom_congr (map_eq_of_sameButNames (·.id) (fun _ _ => rfl) hpre)]

theorem save_candidate_ok_iff (hP : P.Lawful) {disk : Disk} (hv : Valid P c)
    (hs : StoredAs disk.db c) (h : At c i pre a post) (ha : AcceptedFor c i a ts) (e : Entropy)
    (hf : FreshFor e.uuids disk.db (candidate c i a ts now)) :
    (∃ r, (save P disk (candidate c i a ts now) e).2 = .ok r) ↔
      NoForeignId c i ts ∧ OrderSafe (·.id) SaveClash (storedFrom disk.db c i) ts := by
  obtain ⟨disk₁, e₁, hi, hsame, he⟩ := initialize_of_storedAs hP hv hs e
  obtain ⟨s, hset, hrev, -⟩ := hs.settings
  have hs₁ := hs.of_samePasswords hsame
  have hf₁ : FreshFor e.uuids disk₁.db (candidate c i a ts now) := by
    unfold FreshFor; rw [hsame.tunnels]; exact hf
  have hfrom : storedFrom disk₁.db c i = storedFrom disk.db c i := by
    unfold storedFrom rowsFrom; rw [hsame.tunnels]
  rw [save_succeeds_iff hi, he, ← hfrom]
  refine ⟨?_, ?_⟩
  · intro hx
    obtain ⟨k, hn, -, hw⟩ := hx
    obtain ⟨hno, rfl⟩ := (normalize_candidate_iff now hv h ha hf₁).1 hn
    exact ⟨hno, (write_candidate_iff now hv hs₁ h ha hf₁ hno _).1 hw⟩
  · intro hx
    obtain ⟨hno, hsafe⟩ := hx
    refine ⟨_, (normalize_candidate_iff now hv h ha hf₁).2 ⟨hno, rfl⟩, ⟨s, ?_, hrev⟩,
      (write_candidate_iff now hv hs₁ h ha hf₁ hno _).2 hsafe⟩
    rw [hsame.settings, hset]

end

/-- What is stored once the candidate has been saved. -/
theorem stored_candidate {P : Primitives} (hP : P.Lawful) {disk disk' : Disk} {c stored : ServerConfig}
    (hv : Valid P c) (hs : StoredAs disk.db c) {i : Nat} {pre post : List ServerUser} {a : ServerUser}
    (h : At c i pre a post) {ts : List Tunnel} (ha : AcceptedFor c i a ts) {now : Int}
    {e e' : Entropy} (hf : FreshFor e.uuids disk.db (candidate c i a ts now))
    (hsave : save P disk (candidate c i a ts now) e = (disk', .ok (stored, e'))) :
    NoForeignId c i ts ∧
      stored = { renamed (candidate c i a ts now) e.uuids with
        revision := nextRevision c.revision } ∧
      Valid P stored ∧ Holds disk'.db stored ∧ (∀ u ∈ stored.users, CountersFit u) ∧
      disk'.backups = disk.backups ∧ disk'.legacy = disk.legacy := by
  obtain ⟨disk₁, e₁, hsaved⟩ := save_saved hsave
  obtain ⟨disk₂, e₂, hi, hsame, he⟩ := initialize_of_storedAs hP hv hs e
  rw [hsaved.initialized] at hi
  cases hi
  obtain ⟨s, hset, -⟩ := hs.settings
  obtain ⟨-, hback, hleg, -⟩ := initializeStore_initialized hset hsaved.initialized
  have hf₁ : FreshFor e.uuids disk₁.db (candidate c i a ts now) := by
    unfold FreshFor; rw [hsame.tunnels]; exact hf
  obtain ⟨c₁, hn, hc₁⟩ := hsaved.normalized
  rw [he] at hn
  obtain ⟨hno, hk⟩ := (normalize_candidate_iff now hv h ha hf₁).1 hn
  obtain rfl : c₁ = renamed (candidate c i a ts now) e.uuids := congrArg Prod.fst hk
  exact ⟨hno, hc₁, hsaved.valid, hsaved.holds, (writeSnapshot_inv hsaved.written).1,
    hsaved.backups.trans hback, hsaved.legacy.trans hleg⟩

/-- **When an accepted list is stored**: no tunnel takes another user's id, and going
through the list no stored tunnel that still stands is in the way. -/
theorem save_accepted_iff {P : Primitives} (hP : P.Lawful) {disk : Disk} {c : ServerConfig}
    (hv : Valid P c) (hs : StoredAs disk.db c) {i : Nat} {a : ServerUser}
    (hi : c.users[i]? = some a) {tunnels ts : List Tunnel} {d d' : Draws}
    (hn : normalizeUserTunnels c i a tunnels d = .ok (ts, d')) (now : Int) (e : Entropy)
    (hf : FreshFor e.uuids disk.db (candidate c i a ts now)) :
    (∃ r, (save P disk (candidate c i a ts now) e).2 = .ok r) ↔
      NoForeignId c i ts ∧ OrderSafe (·.id) SaveClash (storedFrom disk.db c i) ts := by
  obtain ⟨pre, post, hat⟩ := exists_at hi
  exact save_candidate_ok_iff now hP hv hs hat (normalizeUserTunnels_ok hn) e hf

/-- Two tunnels of one user, on ports 1 and 2. -/
def twoTunnelsUser : ServerUser :=
  sampleUser 'u' [sampleTunnel ['a'] 1 20000, sampleTunnel ['b'] 2 20001]

def twoTunnels : ServerConfig := sampleConfig [twoTunnelsUser]

theorem twoTunnels_valid : Valid .plain twoTunnels :=
  valid_of_fixed (d := Draws.constant) .plain (by decide +kernel)

theorem twoTunnels_stored : StoredAs (Db.ofConfig twoTunnels) twoTunnels :=
  storedAs_ofConfig twoTunnels_valid (by decide +kernel)

/-- The ports are moved on by one, the later tunnel first. -/
theorem save_moved_ports : ∃ ts d', normalizeUserTunnels twoTunnels 0 twoTunnelsUser
      [sampleTunnel ['b'] 3 0, sampleTunnel ['a'] 2 0] Draws.constant = .ok (ts, d') ∧
    ∃ r, (save .plain (Disk.ofConfig twoTunnels) (candidate twoTunnels 0 twoTunnelsUser ts 5)
      Entropy.constant).2 = .ok r := by
  obtain ⟨d', hn⟩ := exists_of_fst (show (normalizeUserTunnels twoTunnels 0 twoTunnelsUser
    [sampleTunnel ['b'] 3 0, sampleTunnel ['a'] 2 0] Draws.constant).toOption.map Prod.fst =
      some [sampleTunnel ['b'] 3 20001, sampleTunnel ['a'] 2 20000] by decide +kernel)
  exact ⟨_, d', hn, (save_accepted_iff Primitives.plain_lawful twoTunnels_valid twoTunnels_stored
    (i := 0) rfl hn 5 Entropy.constant (by decide +kernel)).2
      ⟨by decide +kernel, by decide +kernel⟩⟩

/-- **Swapped ports.** The list is accepted, but the row of `a` cannot take port 2
while the row of `b` still has it. -/
theorem save_swapped_ports_fails : Valid .plain twoTunnels ∧
    StoredAs (Disk.ofConfig twoTunnels).db twoTunnels ∧
    ∃ ts d', normalizeUserTunnels twoTunnels 0 twoTunnelsUser
        [sampleTunnel ['a'] 2 0, sampleTunnel ['b'] 1 0] Draws.constant = .ok (ts, d') ∧
      FreshFor Entropy.constant.uuids (Disk.ofConfig twoTunnels).db
        (candidate twoTunnels 0 twoTunnelsUser ts 5) ∧
      ∀ r, (save .plain (Disk.ofConfig twoTunnels) (candidate twoTunnels 0 twoTunnelsUser ts 5)
        Entropy.constant).2 ≠ .ok r := by
  obtain ⟨d', hn⟩ := exists_of_fst (show (normalizeUserTunnels twoTunnels 0 twoTunnelsUser
    [sampleTunnel ['a'] 2 0, sampleTunnel ['b'] 1 0] Draws.constant).toOption.map Prod.fst =
      some [sampleTunnel ['a'] 2 20000, sampleTunnel ['b'] 1 20001] by decide +kernel)
  refine ⟨twoTunnels_valid, twoTunnels_stored, _, d', hn, by decide +kernel, fun r hr => ?_⟩
  have hfails : (save .plain (Disk.ofConfig twoTunnels) (candidate twoTunnels 0 twoTunnelsUser
    [sampleTunnel ['a'] 2 20000, sampleTunnel ['b'] 1 20001] 5) Entropy.constant).2.isOk = false := by
    decide +kernel
  rw [hr] at hfails
  cases hfails

end OrangeFrp.App
