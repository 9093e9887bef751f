import OrangeFrp.App.Rollback
import OrangeFrp.Storage.Owners

/-!
# One user's request and the other users (`frp-game-server/src/app.rs`)

A save rewrites the whole configuration, so the other users are reached by it in four
places: every read or save draws new names for ids that leave no cleaned form, the key of
a traffic record is the proxy name alone, a deleted tunnel clears the flag of the record
with its name, whoever owns it, and `reconcile` brings the listeners of all users in line.

* `FirstSave.leaves`, `SecondSave.leaves`: whose record each name is left with, by the
  candidate's snapshot and by the one that goes back.
* `FirstSave.binding_iff`, `FirstSave.failing_iff`: when a stored candidate leaves the
  other users alone, if the ports of its list can be bound and if some cannot.
* `request_isolated_iff`: the same for every request.

It stands on a valid configuration in memory, stored unless it is out of date, with gates
that have its limits (`Settled`; of the gates, `Routed` says so in every run), and on draws
that are new (`RequestDraws`).
-/
namespace OrangeFrp.App

open OrangeFrp.Core OrangeFrp.Core.Table OrangeFrp.Storage OrangeFrp.Controller

/-! ## What isolation says -/

/-- The users other than the one at the index are the same in memory, in the
database, as they are reloaded, and in the controller. -/
structure Isolated {τ : Type} (s s' : Server τ) (userIndex : Nat) : Prop where
  config : othersOf s'.config userIndex = othersOf s.config userIndex
  rows : ∀ u ∈ othersOf s.config userIndex, ∀ r : TunnelRow, r.userId = u.id →
    (r ∈ s'.disk.db.tunnels.rows ↔ r ∈ s.disk.db.tunnels.rows)
  records : ∀ u ∈ othersOf s.config userIndex, ∀ r : TrafficRow, r.userId = u.id →
    (r ∈ s'.disk.db.traffic.rows ↔ r ∈ s.disk.db.traffic.rows)
  reloaded : ∀ u ∈ othersOf s.config userIndex, ∀ name,
    (s'.disk.db.trafficOf u.id).lookup name = (s.disk.db.trafficOf u.id).lookup name
  controller : s'.controller.isSome = s.controller.isSome ∧
    ∀ u ∈ othersOf s.config userIndex, ∀ k k', s.controller = some k → s'.controller = some k' →
      Untouched k k' u.id

/-- How a request ends: nothing stored, the candidate kept, the original stored
again, or the candidate stored and the configuration in memory left behind. -/
inductive Ending where
  | unstored
  | kept (tunnels : List Tunnel)
  | rolledBack (tunnels : List Tunnel)
  | stuck (tunnels : List Tunnel)
  deriving DecidableEq

/-- The branch that a request takes. -/
def ending {τ : Type} [Double τ] (P : Primitives) (s : Server τ) (userIndex : Nat)
    (current : ServerUser) (action : Action) (env : Env) : Ending :=
  match action with
  | .save (some tunnels) =>
    if (trafficSummary current).exhausted then .unstored
    else
      match normalizeUserTunnels s.config userIndex current tunnels env.draws with
      | .error _ => .unstored
      | .ok (ts, _) =>
        match save P s.disk (candidate s.config userIndex current ts env.now) env.first with
        | (_, .error _) => .unstored
        | (disk, .ok (stored, _)) =>
          match (s.controller.map fun k => (k.reconcile stored env.firstWorld).2 :
              Option (Except String Unit)) with
          | some (.error _) =>
            match (save P disk { s.config with revision := stored.revision } env.second).2 with
            | .ok _ => .rolledBack ts
            | .error _ => .stuck ts
          | _ => .kept ts
  | _ => .unstored

/-- The names of the user's stored tunnels that are not in the list. -/
def droppedNames (db : Db) (userId : Str) (ts : List Tunnel) : List Str :=
  (db.tunnels.rows.filter fun r => r.userId = userId ∧ r.id ∉ ts.map (·.id)).map (·.proxyName)

/-- The names of the accepted tunnels that the user did not have. -/
def addedNames (u : ServerUser) (ts : List Tunnel) : List Str :=
  (ts.filter fun t => ¬ DashOnly t.id ∧ t.id ∉ u.tunnels.map (·.id)).map (·.proxyName)

/-! ## What is asked of a request -/

/-- The configuration in memory is the one that is stored. -/
def Current (db : Db) (c : ServerConfig) : Prop := ∃ row, db.settings = some row ∧ row.revision = c.revision

instance (db : Db) (c : ServerConfig) : Decidable (Current db c) := by
  refine decidable_of_iff (db.settings.map (·.revision) = some c.revision) ?_
  rw [Option.map_eq_some_iff]
  rfl

/-- A state that a request may start from: a valid configuration, which is stored unless it
is out of date, and gates with its limits. -/
structure Settled {τ : Type} [Double τ] (P : Primitives) (s : Server τ) (i : Nat) (a : ServerUser) :
    Prop where
  valid : Valid P s.config
  settings : ∃ row, s.disk.db.settings = some row
  stored : Current s.disk.db s.config → StoredAs s.disk.db s.config
  gates : ∀ k, s.controller = some k → GatesCurrent k s.config
  user : s.config.users[i]? = some a

/-- The request is a save whose list is accepted and does not run into stored rows. -/
structure Admitted {τ : Type} (s : Server τ) (i : Nat) (a : ServerUser) (action : Action) (env : Env)
    (ts : List Tunnel) : Prop where
  quota : (trafficSummary a).exhausted = false
  accepted : ∃ tunnels d, action = .save (some tunnels) ∧
    normalizeUserTunnels s.config i a tunnels env.draws = .ok (ts, d)
  current : Current s.disk.db s.config
  noForeign : NoForeignId s.config i ts
  order : OrderSafe (·.id) SaveClash (storedFrom s.disk.db s.config i) ts

/-- The names that records and listeners have. -/
def namesHeld {τ : Type} (s : Server τ) : List Str :=
  s.config.users.flatMap (·.trafficByProxy.keys) ++ s.disk.db.traffic.rows.map (·.proxyName) ++
    s.controller.elim [] (·.tasks.keys)

/-- The names that the two saves draw are new. -/
structure RequestDraws {τ : Type} (P : Primitives) (s : Server τ) (i : Nat) (a : ServerUser) (env : Env)
    (ts : List Tunnel) : Prop where
  first : FreshFor env.first.uuids s.disk.db (candidate s.config i a ts env.now)
  unheld : ∀ name ∈ namesHeld s,
    name ∉ drawnNames env.first.uuids (dashCount (candidate s.config i a ts env.now).tunnels)
  second : ∀ disk r, save P s.disk (candidate s.config i a ts env.now) env.first = (disk, .ok r) →
    FreshFor env.second.uuids disk.db s.config

/-- The map of the wanted listeners comes in one of its orders, for the candidate and for the
original. -/
structure Found {τ : Type} (s : Server τ) (i : Nat) (a : ServerUser) (env : Env) (ts : List Tunnel)
    (w₁ w₂ : World) : Prop where
  first : w₁.Orders (renamed (candidate s.config i a ts env.now) env.first.uuids)
  second : w₂.Orders (renamed s.config env.second.uuids)

/-- The ports of the list that are not bound yet are free. -/
def ListBinds {τ : Type} (s : Server τ) (i : Nat) (a : ServerUser) (env : Env) (ts : List Tunnel)
    (w : World) : Prop :=
  ∀ k, s.controller = some k → ∀ spec ∈ specs (renamed (candidate s.config i a ts env.now) env.first.uuids),
    spec.userId = a.id → Missing k spec → w.bind spec = true

/-- The list has a tunnel whose listener does not run. -/
def Adds {τ : Type} (s : Server τ) (a : ServerUser) (ts : List Tunnel) : Prop :=
  ∃ k, s.controller = some k ∧ ∃ t ∈ ts, DashOnly t.id ∨ Missing k (specOf s.config a t)

/-- What spares the other users: none has an id without a cleaned form, their listeners are
those of their tunnels, and their records are left to them. -/
structure Spares {τ : Type} (s : Server τ) (i : Nat) (owner : Str → Option Str) (gone kept : List Str) :
    Prop where
  noDash : NoDashIn (othersOf s.config i)
  serves : ∀ k, s.controller = some k → ∀ u ∈ othersOf s.config i, Serves k s.config u.id
  records : RecordsSpared s.disk.db.traffic (othersOf s.config i) owner gone kept

/-- What spares them while the candidate stays stored. -/
def SparesStored {τ : Type} (s : Server τ) (i : Nat) (a : ServerUser) (ts : List Tunnel) (now : Int) : Prop :=
  Spares s i (lastOwner (candidate s.config i a ts now).users) (droppedNames s.disk.db a.id ts)
    (droppedNames s.disk.db a.id ts)

/-- What spares them when the original is stored over the candidate: its records are written
last, and what only the candidate writes stays. -/
def SparesRestored {τ : Type} (s : Server τ) (i : Nat) (a : ServerUser) (ts : List Tunnel) (now : Int) : Prop :=
  Spares s i
    (fun name => (lastOwner s.config.users name).or (lastOwner (candidate s.config i a ts now).users name))
    (addedNames a ts) (droppedNames s.disk.db a.id ts ++ addedNames a ts)

/-! ## The branches of the handler -/

/-- The request is a save whose accepted list was stored. -/
structure StoredBy {τ : Type} (P : Primitives) (s : Server τ) (userIndex : Nat) (current : ServerUser)
    (action : Action) (env : Env) (ts : List Tunnel) (disk : Disk) (stored : ServerConfig) : Prop where
  accepted : ∃ tunnels d, action = .save (some tunnels) ∧
    normalizeUserTunnels s.config userIndex current tunnels env.draws = .ok (ts, d)
  saved : ∃ e, save P s.disk (candidate s.config userIndex current ts env.now) env.first =
    (disk, .ok (stored, e))

section
variable {τ : Type} [Double τ] {P : Primitives} {s : Server τ} {i : Nat} {a : ServerUser} {env : Env}

/-- **Each ending and the state it leaves.** -/
theorem ending_cases (action : Action) :
    (ending P s i a action env = .unstored ∧ ∃ disk, Unsaved P s.disk disk ∧
      (tunnelsRequest P s i a action env).1 = { s with disk := disk }) ∨
    (∃ ts disk stored, ending P s i a action env = .kept ts ∧
      StoredBy P s i a action env ts disk stored ∧ (tunnelsRequest P s i a action env).1 =
        ⟨disk, stored, s.controller.map fun k => (k.reconcile stored env.firstWorld).1⟩) ∨
    (∃ ts disk stored k disk' original e', ending P s i a action env = .rolledBack ts ∧
      StoredBy P s i a action env ts disk stored ∧ s.controller = some k ∧
      save P disk { s.config with revision := stored.revision } env.second =
        (disk', .ok (original, e')) ∧
      (tunnelsRequest P s i a action env).1 = ⟨disk', original, some
        ((k.reconcile stored env.firstWorld).1.reconcile original env.secondWorld).1⟩) ∨
    (∃ ts disk stored k disk' error, ending P s i a action env = .stuck ts ∧
      StoredBy P s i a action env ts disk stored ∧ s.controller = some k ∧
      save P disk { s.config with revision := stored.revision } env.second =
        (disk', .error error) ∧
      (tunnelsRequest P s i a action env).1 =
        ⟨disk', s.config, some (k.reconcile stored env.firstWorld).1⟩) := by
  have hself : ∃ disk, Unsaved P s.disk disk ∧ s = { s with disk := disk } := ⟨s.disk, .inl rfl, rfl⟩
  match action with
  | .list => exact .inl ⟨rfl, hself⟩
  | .unknown => exact .inl ⟨rfl, hself⟩
  | .save none =>
    refine .inl ⟨rfl, ?_⟩
    simp only [tunnelsRequest, saveTunnels]
    split <;> exact hself
  | .save (some tunnels) =>
    simp only [ending, tunnelsRequest, saveTunnels]
    split
    · exact .inl ⟨rfl, hself⟩
    cases hn : normalizeUserTunnels s.config i a tunnels env.draws with
    | error e => exact .inl ⟨rfl, hself⟩
    | ok r =>
    obtain ⟨ts, d'⟩ := r
    cases hs : save P s.disk (candidate s.config i a ts env.now) env.first with
    | mk disk res =>
    cases res with
    | error e => exact .inl ⟨by simp only [hs], disk, .inr ⟨_, _, e, hs⟩, by simp only [hs]⟩
    | ok r =>
    obtain ⟨stored, e'⟩ := r
    have hst : StoredBy P s i a (.save (some tunnels)) env ts disk stored :=
      ⟨⟨tunnels, d', rfl, hn⟩, e', hs⟩
    simp only [hs]
    cases hk : s.controller with
    | none => exact .inr (.inl ⟨ts, disk, stored, rfl, hst, rfl⟩)
    | some k =>
    simp only [Option.map_some]
    cases hr : k.reconcile stored env.firstWorld with
    | mk k' res =>
    cases res with
    | ok u => exact .inr (.inl ⟨ts, disk, stored, rfl, hst, by rw [hr]⟩)
    | error e =>
    simp only [rollback]
    cases hs' : save P disk { s.config with revision := stored.revision } env.second with
    | mk disk' res =>
    cases res with
    | ok r =>
      obtain ⟨original, e''⟩ := r
      exact .inr (.inr (.inl ⟨ts, disk, stored, k, disk', original, e'', rfl, hst, rfl,
        hs', by rw [hr]⟩))
    | error e'' =>
      exact .inr (.inr (.inr ⟨ts, disk, stored, k, disk', e'', rfl, hst, rfl, hs',
        by rw [hr]⟩))

end

/-! ## What is known once the candidate is stored -/

section
variable {P : Primitives} {c c' : ServerConfig} {db db' : Db} {pre post pre' post' : List ServerUser}
  {w w' : ServerUser} {d : Draws} {i : Nat}

/-- The tunnel rows of a user are the same once its tunnels are held again. -/
theorem rows_same (hs : StoredAs db c) (hv : Valid P c) (hh : Holds db' c') (hv' : Valid P c')
    {u : ServerUser} (hu : u ∈ c.users) (hu' : u ∈ c'.users)
    (hd : ∀ t ∈ u.tunnels, ¬ DashOnly t.id) (r : TunnelRow) (hown : r.userId = u.id) :
    r ∈ db'.tunnels.rows ↔ r ∈ db.tunnels.rows := by
  have hbefore := hs.rowsOf hv hu hd r
  rw [and_iff_left hown] at hbefore
  rw [hbefore, hh.tunnels]
  refine ⟨?_, ?_⟩
  · intro h
    obtain ⟨v, hv'', t, ht, rfl⟩ := h
    obtain rfl := List.inj_on_of_nodup_map (newIn_empty.1 hv'.distinct.ids) hv'' hu' hown
    exact ⟨t, ht, rfl⟩
  · intro h
    obtain ⟨t, ht, rfl⟩ := h
    exact ⟨u, hu', t, ht, rfl⟩

theorem othersOf_middle (h : At c i pre w post) (hus : c'.users = pre' ++ w' :: post')
    (hl : pre'.length = pre.length) : othersOf c' i = pre' ++ post' := by
  have hat : At c' i pre' w' post' := ⟨hus, h.index.trans hl.symm⟩
  exact hat.others

end

section
variable {τ : Type} [Double τ] {P : Primitives} {s : Server τ} {i : Nat} {a : ServerUser} {env : Env}
  {pre post : List ServerUser} {ts : List Tunnel} {disk : Disk} {stored : ServerConfig}

omit [Double τ] in
theorem RequestDraws.recorded (h : RequestDraws P s i a env ts) {u : ServerUser} (hu : u ∈ s.config.users)
    {name : Str} (hn : name ∈ u.trafficByProxy) :
    name ∉ drawnNames env.first.uuids (dashCount (candidate s.config i a ts env.now).tunnels) :=
  h.unheld name (List.mem_append_left _ (List.mem_append_left _ (List.mem_flatMap.2 ⟨u, hu, hn⟩)))

omit [Double τ] in
theorem RequestDraws.inRows (h : RequestDraws P s i a env ts) {r : TrafficRow}
    (hr : r ∈ s.disk.db.traffic.rows) :
    r.proxyName ∉ drawnNames env.first.uuids (dashCount (candidate s.config i a ts env.now).tunnels) :=
  h.unheld _ (List.mem_append_left _ (List.mem_append_right _
    (List.mem_map_of_mem (f := fun r : TrafficRow => r.proxyName) hr)))

omit [Double τ] in
theorem RequestDraws.missing (h : RequestDraws P s i a env ts) {k : TrafficController τ}
    (hk : s.controller = some k) {spec : TunnelSpec} (hn : spec.proxyName ∈
      drawnNames env.first.uuids (dashCount (candidate s.config i a ts env.now).tunnels)) : Missing k spec := by
  intro hx
  obtain ⟨task, ht, -⟩ := Option.map_eq_some_iff.1 hx
  refine h.unheld _ (List.mem_append_right _ ?_) hn
  rw [hk]
  exact Assoc.mem_iff_exists.2 ⟨task, ht⟩

/-- What is known once the candidate has been stored. -/
structure FirstSave (P : Primitives) (s : Server τ) (i : Nat) (pre : List ServerUser) (a : ServerUser)
    (post : List ServerUser) (env : Env) (ts : List Tunnel) (disk : Disk) (stored : ServerConfig)
    (pre' : List ServerUser) (a' : ServerUser) (post' : List ServerUser) : Prop where
  settled : Settled P s i a
  before : StoredAs s.disk.db s.config
  place : At s.config i pre a post
  draws : RequestDraws P s i a env ts
  second : FreshFor env.second.uuids disk.db s.config
  accepted : AcceptedFor s.config i a ts
  noForeign : NoForeignId s.config i ts
  rewritten : Rewritten P s.disk (candidate s.config i a ts env.now) env.first.uuids disk stored
  users : RenamedAt env.first.uuids pre (withTunnels a ts env.now) post stored.users pre' a' post'

/-- A save that goes through had the stored revision. -/
theorem StoredBy.current {action : Action} (h : Settled P s i a)
    (hst : StoredBy P s i a action env ts disk stored) : Current s.disk.db s.config := by
  obtain ⟨e', hsave⟩ := hst.saved
  obtain ⟨row, hset⟩ := h.settings
  obtain ⟨disk₁, e₁, hs⟩ := save_saved hsave
  obtain ⟨row', hrow, hrev⟩ := hs.current
  rw [(initializeStore_initialized hset hs.initialized).1.settings] at hrow
  exact ⟨row', hrow, hrev⟩

theorem firstSave (hP : P.Lawful) (h : Settled P s i a) (hat : At s.config i pre a post)
    {action : Action} (hst : StoredBy P s i a action env ts disk stored)
    (hd : RequestDraws P s i a env ts) :
    ∃ pre' a' post', FirstSave P s i pre a post env ts disk stored pre' a' post' := by
  have hs := h.stored (hst.current h)
  obtain ⟨⟨tunnels, d, -, hn⟩, e', hsave⟩ := hst
  have ha := normalizeUserTunnels_ok hn
  obtain ⟨row, hset⟩ := h.settings
  have hno := (stored_candidate hP h.valid hs hat ha hd.first hsave).1
  have hrew := save_rewritten hset (candidate_settings env.now h.valid)
    (candidate_userOk env.now h.valid hat ha)
    (sorted_of_accounts (candidate_column env.now hat (·.account) rfl) h.valid.sorted) hsave
  obtain ⟨pre', a', post', hr⟩ := renamedAt pre (withTunnels a ts env.now) post env.first.uuids
  have hus : stored.users = (renameUsers (pre ++ withTunnels a ts env.now :: post)
      env.first.uuids).1 := by
    rw [hrew.eq, ← hat.candidate_users]; rfl
  rw [← hus] at hr
  exact ⟨pre', a', post', h, hs, hat, hd, hd.second _ _ hsave, ha, hno, hrew, hr⟩

/-- **When a candidate is stored**, read off the request. -/
theorem admitted_iff (hP : P.Lawful) (h : Settled P s i a) {action : Action}
    (hd : ∀ tunnels d, action = .save (some tunnels) →
      normalizeUserTunnels s.config i a tunnels env.draws = .ok (ts, d) → RequestDraws P s i a env ts) :
    Admitted s i a action env ts ↔ (trafficSummary a).exhausted = false ∧
      ∃ disk stored, StoredBy P s i a action env ts disk stored := by
  obtain ⟨pre, post, hat⟩ := exists_at h.user
  refine ⟨fun hs => ⟨hs.quota, ?_⟩, fun ⟨hq, disk, stored, hst⟩ => ?_⟩
  · obtain ⟨tunnels, d, ha, hn⟩ := hs.accepted
    obtain ⟨⟨stored, e'⟩, hsave⟩ := (save_candidate_ok_iff env.now hP h.valid (h.stored hs.current) hat
      (normalizeUserTunnels_ok hn) env.first (hd tunnels d ha hn).first).2 ⟨hs.noForeign, hs.order⟩
    exact ⟨_, stored, ⟨⟨tunnels, d, ha, hn⟩, e', Prod.ext rfl hsave⟩⟩
  · have hcur := hst.current h
    obtain ⟨⟨tunnels, d, ha, hn⟩, e', hsave⟩ := hst
    obtain ⟨hno, hsafe⟩ := (save_candidate_ok_iff env.now hP h.valid (h.stored hcur) hat
      (normalizeUserTunnels_ok hn) env.first (hd tunnels d ha hn).first).1 ⟨_, congrArg Prod.snd hsave⟩
    exact ⟨hq, ⟨tunnels, d, ha, hn⟩, hcur, hno, hsafe⟩

section
variable {pre' post' : List ServerUser} {a' : ServerUser}
  (h : FirstSave P s i pre a post env ts disk stored pre' a' post')
include h

theorem FirstSave.name : ∀ u ∈ pre ++ post, ∀ t ∈ u.tunnels, NameFor t.id t.proxyName :=
  fun _ hu t ht => h.settled.valid.names t (mem_tunnels (h.place.mem_other hu) ht)

/-- The drawn names are neither stored nor in memory. -/
theorem FirstSave.unused {name : Str}
    (hn : name ∈ drawnNames env.first.uuids
      (dashCount ((pre ++ withTunnels a ts env.now :: post).flatMap (·.tunnels)))) :
    (∀ r ∈ s.disk.db.tunnels.rows, r.proxyName ≠ name) ∧
      ∀ u ∈ pre ++ post, ∀ t ∈ u.tunnels, t.proxyName ≠ name := by
  rw [← h.place.candidate_users ts env.now] at hn
  have hnot := h.draws.first.unused name hn
  refine ⟨fun r hr e => ?_, fun u hu t ht e => ?_⟩
  · exact hnot (List.mem_append_left _ (e ▸ List.mem_map_of_mem (f := fun r : TunnelRow => r.proxyName) hr))
  · refine hnot (List.mem_append_right _ (e ▸ List.mem_map_of_mem ?_))
    exact (mem_candidate_tunnels env.now h.place).2 (.inr (List.mem_flatMap.2 ⟨u, hu, ht⟩))

/-- The configuration keeps the others exactly when no name of theirs is drawn again. -/
theorem FirstSave.config_iff : othersOf stored i = othersOf s.config i ↔ NoDashIn (pre ++ post) := by
  rw [othersOf_middle h.place h.users.users h.users.before.length_eq.symm, h.place.others]
  exact h.users.same_iff h.name fun u hu t ht hm => (h.unused hm).2 u hu t ht rfl

/-- Nor do the stored tunnels of the others stay the same when one is. -/
theorem FirstSave.noDash_of_rows {db : Db} (hdb : db.tunnels = disk.db.tunnels)
    (hrows : ∀ u ∈ pre ++ post, ∀ r : TunnelRow, r.userId = u.id →
      (r ∈ db.tunnels.rows ↔ r ∈ s.disk.db.tunnels.rows)) : NoDashIn (pre ++ post) := by
  intro u hu t ht hdash
  obtain ⟨r, hr, hown, hsr⟩ := h.before.all u (h.place.mem_other hu) t ht
  have hr' := (hrows u hu r hown).2 hr
  rw [hdb, h.rewritten.holds.tunnels] at hr'
  obtain ⟨v, hv, o, ho, rfl⟩ := hr'
  have hid : o.id = t.id := hsr.id_eq
  rw [h.users.users] at hv
  exact (h.unused (h.users.drawn v hv o ho (by rw [hid]; exact hdash))).1 _ hr rfl

/-- Whose record the candidate's snapshot leaves under a name. -/
theorem FirstSave.lastOwner_eq (name : Str) :
    lastOwner stored.users name = lastOwner (candidate s.config i a ts env.now).users name := by
  refine lastOwner_congr ?_ name
  rw [h.rewritten.eq]
  exact map_eq_of_sameButNames _ (fun _ _ => rfl) (renameUsers_forall₂ _ _)

theorem FirstSave.tunnel_ids (id : Str) : id ∈ stored.tunnels.map (·.id) ↔
    id ∈ ts.map (·.id) ∨ ∃ u ∈ pre ++ post, ∃ t ∈ u.tunnels, t.id = id := by
  have hcol : stored.tunnels.map (·.id) =
      (candidate s.config i a ts env.now).tunnels.map (·.id) := by
    rw [h.rewritten.eq]
    exact (congrArg (List.map (·.id)) (renameUsers_tunnels _ _).1).trans
      (map_eq_of_sameButName (·.id) (fun _ _ => rfl) (renameTunnels_forall₂ _ _))
  rw [hcol, List.mem_map, List.mem_map]
  simp only [mem_candidate_tunnels env.now h.place, List.mem_flatMap]
  refine ⟨?_, ?_⟩
  · rintro ⟨t, ht | ⟨u, hu, ht⟩, rfl⟩
    · exact .inl ⟨t, ht, rfl⟩
    · exact .inr ⟨u, hu, t, ht, rfl⟩
  · rintro (⟨t, ht, rfl⟩ | ⟨u, hu, t, ht, rfl⟩)
    · exact ⟨t, .inl ht, rfl⟩
    · exact ⟨t, .inr ⟨u, hu, ht⟩, rfl⟩

/-- The listeners that the list adds, under the names they are stored with. -/
theorem FirstSave.adds_iff : Adds s a ts ↔ ∃ k, s.controller = some k ∧
    ∃ spec ∈ specs stored, spec.userId = a.id ∧ Missing k spec := by
  have hid : a'.id = a.id := by rw [h.users.user.1]; rfl
  have hbind : stored.publicBind = s.config.publicBind := by rw [h.rewritten.eq]; rfl
  have hown : ∀ spec, (spec ∈ specs stored ∧ spec.userId = a.id) ↔ ∃ t ∈ a'.tunnels, spec = specOf stored a' t := by
    intro spec
    rw [mem_specs]
    refine ⟨?_, ?_⟩
    · rintro ⟨⟨u, hu, t, ht, rfl⟩, he⟩
      obtain rfl : u = a' := List.inj_on_of_nodup_map (newIn_empty.1 h.rewritten.valid.distinct.ids) hu
        (by rw [h.users.users]; simp) (he.trans hid.symm)
      exact ⟨t, ht, rfl⟩
    · rintro ⟨t, ht, rfl⟩
      exact ⟨⟨a', by rw [h.users.users]; simp, t, ht, rfl⟩, hid⟩
  have hspec : ∀ {t t'}, t ∈ ts → t' ∈ a'.tunnels → SameButName t t' → ∀ k, s.controller = some k →
      (Missing k (specOf stored a' t') ↔ DashOnly t.id ∨ Missing k (specOf s.config a t)) := by
    intro t t' ht ht' hst k hk
    by_cases hdash : DashOnly t.id
    · refine iff_of_true (h.draws.missing hk ?_) (.inl hdash)
      rw [ServerConfig.tunnels, h.place.candidate_users]
      exact h.users.drawn a' (by simp) t' ht' (by rw [hst.id_eq]; exact hdash)
    · have hname := hst.name_eq (h.accepted.name t ht) (by rw [hst.id_eq]; exact hdash)
      have he : t' = t := by rw [hst.eq, hname]
      rw [he, or_iff_right hdash]
      unfold specOf
      rw [hid, hbind]
  refine exists_congr fun k => and_congr_right fun hk => ⟨?_, ?_⟩
  · rintro ⟨t, ht, hm⟩
    obtain ⟨t', ht', hst⟩ := exists_of_forall₂ h.users.user.2.flip ht
    obtain ⟨h₁, h₂⟩ := (hown _).2 ⟨t', ht', rfl⟩
    exact ⟨_, h₁, h₂, (hspec ht ht' hst k hk).2 hm⟩
  · rintro ⟨spec, h₁, h₂, hm⟩
    obtain ⟨t', ht', rfl⟩ := (hown spec).1 ⟨h₁, h₂⟩
    obtain ⟨t, ht, hst⟩ := exists_of_forall₂ h.users.user.2 ht'
    exact ⟨t, ht, (hspec ht ht' hst k hk).1 hm⟩

variable (hd : NoDashIn (pre ++ post))
include hd

/-- Without such ids the stored configuration has the others as they were. -/
theorem FirstSave.stored_users : stored.users = pre ++ a' :: post := by
  obtain ⟨h₁, h₂⟩ := h.users.same h.name hd
  rw [h.users.users, h₁, h₂]

theorem FirstSave.mem_stored {u : ServerUser} (hu : u ∈ pre ++ post) : u ∈ stored.users := by
  rw [h.stored_users hd]
  rcases List.mem_append.1 hu with hu | hu <;> simp [hu]

theorem FirstSave.rows {u : ServerUser} (hu : u ∈ pre ++ post) (r : TunnelRow)
    (hown : r.userId = u.id) : r ∈ disk.db.tunnels.rows ↔ r ∈ s.disk.db.tunnels.rows :=
  rows_same h.before h.settled.valid h.rewritten.holds h.rewritten.valid
    (h.place.mem_other hu) (h.mem_stored hd hu) (hd u hu) r hown

/-- The users' columns that a save of tunnels leaves alone. -/
theorem FirstSave.column {α : Type} (f : ServerUser → α) (hf : ∀ u ts, f { u with tunnels := ts } = f u)
    (ha : f (withTunnels a ts env.now) = f a) : stored.users.map f = s.config.users.map f := by
  have hu : f a' = f (withTunnels a ts env.now) := by rw [h.users.user.1, hf]
  rw [h.stored_users hd, h.place.users, List.map_append, List.map_cons, hu, ha, List.map_append,
    List.map_cons]

/-- The rows whose id is gone are those of the user that the list drops. -/
theorem FirstSave.stale {db : Db} (hsame : SameButPasswords s.disk.db db) (name : Str) :
    name ∈ staleNames db stored ↔ name ∈ droppedNames s.disk.db a.id ts := by
  have hown : ∀ r ∈ db.tunnels.rows, r.userId ∈ stored.users.map (·.id) := by
    intro r hr
    rw [hsame.tunnels] at hr
    obtain ⟨u, hu, he, -⟩ := h.before.tunnels r hr
    rw [h.column hd (·.id) (fun _ _ => rfl) rfl, he]
    exact List.mem_map_of_mem hu
  rw [mem_staleNames hown, hsame.tunnels]
  simp only [droppedNames, List.mem_map (f := fun r : TunnelRow => r.proxyName), List.mem_filter,
    decide_eq_true_eq]
  refine exists_congr fun r => ?_
  rw [and_assoc]
  refine and_congr_right fun hr => and_congr_left fun _ => ?_
  obtain ⟨u, hu, he, t, ht, hst⟩ := h.before.tunnels r hr
  have hid : r.id = t.id := hst.id_eq
  rw [h.tunnel_ids, not_or]
  refine ⟨?_, ?_⟩
  · intro hx
    obtain ⟨hts, hother⟩ := hx
    refine ⟨?_, hts⟩
    rw [he]
    rw [h.place.users] at hu
    simp only [List.mem_append, List.mem_cons] at hu
    rcases hu with hu | rfl | hu
    · exact absurd ⟨u, List.mem_append_left _ hu, t, ht, hid.symm⟩ hother
    · rfl
    · exact absurd ⟨u, List.mem_append_right _ hu, t, ht, hid.symm⟩ hother
  · intro hx
    obtain ⟨hau, hts⟩ := hx
    refine ⟨hts, ?_⟩
    intro hx
    obtain ⟨v, hv, o, ho, hoid⟩ := hx
    obtain rfl : t = o := eq_of_tunnel_column
      (newIn_empty.1 h.settled.valid.distinct.tunnels.ids) (mem_tunnels hu ht)
      (mem_tunnels (h.place.mem_other hv) ho) (hid.symm.trans hoid.symm)
    obtain rfl : u = a := List.inj_on_of_nodup_map
      (newIn_empty.1 h.settled.valid.distinct.ids) hu h.place.mem (he.symm.trans hau)
    exact ((nodup_split (f := (·.id)) h.place).1
      (newIn_empty.1 h.settled.valid.distinct.tunnels.ids)).2.2 t ht t
        (List.mem_flatMap.2 ⟨v, hv, ho⟩) rfl

theorem FirstSave.leaves : LeavesRecords s.disk.db.traffic disk.db.traffic (pre ++ post)
    (lastOwner (candidate s.config i a ts env.now).users) (droppedNames s.disk.db a.id ts)
    (droppedNames s.disk.db a.id ts) := by
  obtain ⟨db, hsame, hw⟩ := h.rewritten.written
  have hv := h.rewritten.valid.distinct
  have hl := writeSnapshot_leaves hw (newIn_empty.1 hv.tunnels.ids) (newIn_empty.1 hv.ids)
    (fun u hu => h.mem_stored hd hu) (h.stale hd hsame)
  rwa [hsame.traffic, funext h.lastOwner_eq] at hl

theorem FirstSave.gates {k : TrafficController τ} (hk : s.controller = some k) : GatesCurrent k stored :=
  (h.settled.gates k hk).congr rfl rfl (h.column hd
    (fun u => (u.id, u.trafficLimitBytes, u.speedLimitMbps)) (fun _ _ => rfl) rfl)

/-- The others are served by the stored configuration as by the one before. -/
theorem FirstSave.desired_iff {u : ServerUser} (hu : u ∈ pre ++ post) (key : Str) (spec : TunnelSpec)
    (hs : spec.userId = u.id) :
    (desired stored).lookup key = some spec ↔ (desired s.config).lookup key = some spec := by
  have hv := h.settled.valid
  have hv' := h.rewritten.valid
  have hbind : ∀ t, specOf stored u t = specOf s.config u t := by
    intro t; rw [h.rewritten.eq]; rfl
  rw [desired_own (newIn_empty.1 hv'.distinct.tunnels.names) (newIn_empty.1 hv'.distinct.ids)
      (h.mem_stored hd hu) hs,
    desired_own (newIn_empty.1 hv.distinct.tunnels.names) (newIn_empty.1 hv.distinct.ids)
      (h.place.mem_other hu) hs]
  simp only [hbind]

theorem FirstSave.untouched {k : TrafficController τ} (hk : s.controller = some k) {w : World}
    (ho : w.Orders stored) {u : ServerUser} (hu : u ∈ pre ++ post) (hs : Serves k s.config u.id) :
    Untouched k (k.reconcile stored w).1 u.id ∧ Serves (k.reconcile stored w).1 stored u.id :=
  reconcile_untouched (h.gates hd hk) hs (newIn_empty.1 h.rewritten.valid.distinct.tunnels.names) ho
    (h.desired_iff hd hu)

/-- Who is left alone and served afterwards has been served before. -/
theorem FirstSave.serves_of_untouched {k k' : TrafficController τ} {u : ServerUser} (hu : u ∈ pre ++ post)
    (hunt : Untouched k k' u.id) (hs : Serves k' stored u.id) : Serves k s.config u.id :=
  hunt.serves (hs.congr fun key spec he => (h.desired_iff hd hu key spec he).symm)

/-- With the others served, only the list can keep a call from its end. -/
theorem FirstSave.reconcile_ok_iff {k : TrafficController τ} (hk : s.controller = some k)
    (hs : ∀ u ∈ pre ++ post, Serves k s.config u.id) {w : World} (ho : w.Orders stored) :
    (k.reconcile stored w).2 = .ok () ↔ ListBinds s i a env ts w := by
  have hv := h.rewritten.valid
  have hn := newIn_empty.1 hv.distinct.tunnels.names
  have hid : a'.id = a.id := by rw [h.users.user.1]; rfl
  have hspecs : specs (renamed (candidate s.config i a ts env.now) env.first.uuids) = specs stored := by
    rw [h.rewritten.eq]; rfl
  rw [Controller.reconcile_ok_iff hn hv.protocols ho, ListBinds, hspecs]
  refine ⟨fun hb k' hk' spec hspec _ hm => ?_, fun hb spec hspec hm => hb k hk spec hspec ?_ hm⟩
  · cases hk.symm.trans hk'
    exact hb spec hspec hm
  · -- a listener that is missing is not one of the others
    obtain ⟨u, hu, t, ht, rfl⟩ := mem_specs.1 hspec
    rw [h.stored_users hd] at hu
    simp only [List.mem_append, List.mem_cons] at hu
    have hother : u ∈ pre ++ post → False := fun hu => hm ((hs u hu _ _ rfl).2
      ((h.desired_iff hd hu _ _ rfl).1 ((lookup_desired hn _ _).2 ⟨hspec, rfl⟩)))
    rcases hu with hu | rfl | hu
    · exact absurd (List.mem_append_left _ hu) hother
    · exact hid
    · exact absurd (List.mem_append_right _ hu) hother

end

/-! ## The second save of a rollback -/

/-- What is known once the original has been stored again. -/
structure SecondSave (P : Primitives) (s : Server τ) (i : Nat) (pre : List ServerUser) (a : ServerUser)
    (post : List ServerUser) (env : Env) (ts : List Tunnel) (disk : Disk) (stored : ServerConfig)
    (pre' : List ServerUser) (a' : ServerUser) (post' : List ServerUser) (disk' : Disk)
    (original : ServerConfig) (pre₂ : List ServerUser) (a₂ : ServerUser) (post₂ : List ServerUser) :
    Prop where
  first : FirstSave P s i pre a post env ts disk stored pre' a' post'
  rewritten : Rewritten P disk { s.config with revision := stored.revision } env.second.uuids disk'
    original
  users : RenamedAt env.second.uuids pre a post original.users pre₂ a₂ post₂

section
variable {pre' post' pre₂ post₂ : List ServerUser} {a' a₂ : ServerUser} {disk' : Disk}
  {original : ServerConfig}

theorem secondSave (h : FirstSave P s i pre a post env ts disk stored pre' a' post') {e' : Entropy}
    (hsave : save P disk { s.config with revision := stored.revision } env.second =
      (disk', .ok (original, e'))) :
    ∃ pre₂ a₂ post₂, SecondSave P s i pre a post env ts disk stored pre' a' post' disk' original
      pre₂ a₂ post₂ := by
  have hv := h.settled.valid.withRevision stored.revision
  have hrew := save_rewritten h.rewritten.holds.settings hv.settings hv.users hv.sorted hsave
  obtain ⟨pre₂, a₂, post₂, hr⟩ := renamedAt pre a post env.second.uuids
  have hus : original.users = (renameUsers (pre ++ a :: post) env.second.uuids).1 := by
    rw [hrew.eq, ← h.place.users]; rfl
  rw [← hus] at hr
  exact ⟨pre₂, a₂, post₂, h, hrew, hr⟩

/-- **When the original goes back in**, where no other user has an id without a cleaned form. -/
theorem FirstSave.rollback_iff (hP : P.Lawful)
    (h : FirstSave P s i pre a post env ts disk stored pre' a' post') (hd : NoDashIn (pre ++ post)) :
    (∃ r, (save P disk { s.config with revision := stored.revision } env.second).2 = .ok r) ↔
      OrderSafe (·.id) RollbackClash ts a.tunnels := by
  have hst : stored.users = (renameUsers (candidate s.config i a ts env.now).users env.first.uuids).1 := by
    rw [h.rewritten.eq]
    rfl
  obtain ⟨b, hb⟩ := between_of_noDash h.settled.valid hd h.place hst
  refine rollback_save_iff hP h.settled.valid hd h.before.fit h.place h.accepted hb h.rewritten.valid
    h.rewritten.holds h.rewritten.fits ?_ env.second h.second
  intro name hname t ht hclean heq
  subst heq
  obtain ⟨u, hu, htu⟩ := List.mem_flatMap.1 ht
  obtain ⟨r, hr, -, hsr⟩ := h.before.all u hu t htu
  have hn := hsr.name_eq (h.settled.valid.names t ht) (by rw [hsr.id_eq]; exact hclean)
  refine h.draws.first.unused _ hname (List.mem_append_left _ ?_)
  rw [← hn]
  exact List.mem_map_of_mem (f := fun r : TunnelRow => r.proxyName) hr

variable (h : SecondSave P s i pre a post env ts disk stored pre' a' post' disk' original
  pre₂ a₂ post₂)
include h

theorem SecondSave.config_iff : othersOf original i = othersOf s.config i ↔ NoDashIn (pre ++ post) := by
  rw [othersOf_middle h.first.place h.users.users h.users.before.length_eq.symm,
    h.first.place.others]
  refine h.users.same_iff h.first.name fun u hu t ht hm => ?_
  rw [← h.first.place.users] at hm
  exact h.first.second.unused _ hm (List.mem_append_right _
    (List.mem_map_of_mem (mem_tunnels (h.first.place.mem_other hu) ht)))

theorem SecondSave.tunnel_ids : original.tunnels.map (·.id) = s.config.tunnels.map (·.id) := by
  rw [h.rewritten.eq]
  exact (congrArg (List.map (·.id)) (renameUsers_tunnels _ _).1).trans
    (map_eq_of_sameButName (·.id) (fun _ _ => rfl) (renameTunnels_forall₂ _ _))

theorem SecondSave.column {α : Type} (f : ServerUser → α)
    (hf : ∀ u ts, f { u with tunnels := ts } = f u) :
    original.users.map f = s.config.users.map f := by
  rw [h.rewritten.eq]
  exact map_eq_of_sameButNames f hf (renameUsers_forall₂ s.config.users env.second.uuids)

theorem SecondSave.lastOwner_eq (name : Str) :
    lastOwner original.users name = lastOwner s.config.users name :=
  lastOwner_congr (h.column _ fun _ _ => rfl) name

variable (hd : NoDashIn (pre ++ post))
include hd

theorem SecondSave.original_users : original.users = pre ++ a₂ :: post := by
  obtain ⟨h₁, h₂⟩ := h.users.same h.first.name hd
  rw [h.users.users, h₁, h₂]

theorem SecondSave.mem_original {u : ServerUser} (hu : u ∈ pre ++ post) : u ∈ original.users := by
  rw [h.original_users hd]
  rcases List.mem_append.1 hu with hu | hu <;> simp [hu]

theorem SecondSave.rows {u : ServerUser} (hu : u ∈ pre ++ post) (r : TunnelRow)
    (hown : r.userId = u.id) : r ∈ disk'.db.tunnels.rows ↔ r ∈ s.disk.db.tunnels.rows :=
  rows_same h.first.before h.first.settled.valid h.rewritten.holds h.rewritten.valid
    (h.first.place.mem_other hu) (h.mem_original hd hu) (hd u hu) r hown

/-- The stale names of the second save, apart from those that the first has drawn. -/
theorem SecondSave.stale {db : Db} (hsame : SameButPasswords disk.db db) {name : Str}
    (hn : name ∉ drawnNames env.first.uuids (dashCount (candidate s.config i a ts env.now).tunnels)) :
    name ∈ staleNames db original ↔ name ∈ addedNames a ts := by
  have hf := h.first
  have hown : ∀ r ∈ db.tunnels.rows, r.userId ∈ original.users.map (·.id) := by
    intro r hr
    rw [hsame.tunnels, hf.rewritten.holds.tunnels] at hr
    obtain ⟨v, hv, t, ht, rfl⟩ := hr
    rw [h.column (·.id) (fun _ _ => rfl), ← hf.column hd (·.id) (fun _ _ => rfl) rfl]
    exact List.mem_map_of_mem hv
  rw [mem_staleNames hown, hsame.tunnels, h.tunnel_ids]
  simp only [addedNames, List.mem_map, List.mem_filter, decide_eq_true_eq]
  have hold : ∀ q ∈ ts, q.id ∉ a.tunnels.map (·.id) → ∀ o ∈ s.config.tunnels, o.id ≠ q.id := by
    intro q hq hqa o ho e
    obtain ⟨v, hv, hov⟩ := List.mem_flatMap.1 ho
    rw [hf.place.users] at hv
    simp only [List.mem_append, List.mem_cons] at hv
    have hforeign := hf.noForeign
    rw [NoForeignId, hf.place.others] at hforeign
    rcases hv with hv | rfl | hv
    · exact hforeign q hq v (List.mem_append_left _ hv) o hov e
    · exact hqa (List.mem_map.2 ⟨o, hov, e⟩)
    · exact hforeign q hq v (List.mem_append_right _ hv) o hov e
  refine ⟨?_, ?_⟩
  · intro hx
    obtain ⟨r, hr, hnew, rfl⟩ := hx
    rw [hf.rewritten.holds.tunnels, hf.stored_users hd] at hr
    obtain ⟨v, hv, t, ht, rfl⟩ := hr
    have hnot : ∀ o ∈ s.config.tunnels, o.id ≠ t.id := fun o ho e =>
      hnew ⟨o, ho, e⟩
    have hva : v = a' := by
      simp only [List.mem_append, List.mem_cons] at hv
      rcases hv with hv | rfl | hv
      · exact absurd rfl (hnot t (mem_tunnels (hf.place.mem_other (List.mem_append_left _ hv)) ht))
      · rfl
      · exact absurd rfl (hnot t (mem_tunnels (hf.place.mem_other (List.mem_append_right _ hv)) ht))
    subst hva
    obtain ⟨q, hq, hqt⟩ := exists_of_forall₂ hf.users.user.2 ht
    have hclean : ¬ DashOnly t.id := by
      intro hdash
      refine hn ?_
      rw [ServerConfig.tunnels, hf.place.candidate_users]
      exact hf.users.drawn v (by simp) t ht hdash
    have hqn := hqt.name_eq (hf.accepted.name q hq) hclean
    refine ⟨q, ⟨hq, by rw [← hqt.id_eq]; exact hclean, ?_⟩, hqn.symm⟩
    intro hx
    obtain ⟨o, ho, e⟩ := hx
    exact hnot o (mem_tunnels hf.place.mem ho) (e.trans hqt.id_eq.symm)
  · intro hx
    obtain ⟨q, ⟨hq, hclean, hnew⟩, rfl⟩ := hx
    obtain ⟨t, ht, hqt⟩ := exists_of_forall₂ hf.users.user.2.flip hq
    have hqn := hqt.name_eq (hf.accepted.name q hq) (by rw [hqt.id_eq]; exact hclean)
    refine ⟨TunnelRow.of a'.id t, (hf.rewritten.holds.tunnels _).2
      ⟨a', by rw [hf.users.users]; simp, t, ht, rfl⟩, ?_, hqn⟩
    intro hx
    obtain ⟨o, ho, e⟩ := hx
    exact hold q hq (fun hm => hnew (List.mem_map.1 hm)) o ho (e.trans hqt.id_eq)

theorem SecondSave.leaves : LeavesRecords s.disk.db.traffic disk'.db.traffic (pre ++ post)
    (fun name => (lastOwner s.config.users name).or
      (lastOwner (candidate s.config i a ts env.now).users name))
    (addedNames a ts) (droppedNames s.disk.db a.id ts ++ addedNames a ts) := by
  have hf := h.first
  obtain ⟨db, hsame, hw⟩ := h.rewritten.written
  have hv := h.rewritten.valid.distinct
  have hl := hf.leaves hd
  rw [← hsame.traffic] at hl
  have h' := hl.followed hw (newIn_empty.1 hv.tunnels.ids) (newIn_empty.1 hv.ids)
    (fun u hu => h.mem_original hd hu) ?_
    (fun u hu name hn => h.stale hd hsame (hf.draws.recorded (hf.place.mem_other hu) hn))
    fun u _ r hr _ => h.stale hd hsame (hf.draws.inRows hr)
  · simpa only [h.lastOwner_eq] using h'
  · -- a name that only the candidate writes is the requesting user's
    intro name id hnone hsome
    obtain ⟨v, hv', rfl⟩ := Option.map_eq_some_iff.1 hsome
    obtain ⟨hvm, hvn⟩ := mem_of_lastWriter hv'
    rcases (mem_candidate_users env.now hf.place).1 hvm with rfl | hvo
    · refine ⟨?_, fun u hu => other_id_ne hf.settled.valid hf.place hu⟩
      rw [h.column (·.id) fun _ _ => rfl]
      exact List.mem_map_of_mem (f := (·.id)) hf.place.mem
    · exact absurd hvn (lastOwner_none.1 hnone v (h.mem_original hd hvo))

theorem SecondSave.desired_iff {u : ServerUser} (hu : u ∈ pre ++ post) (key : Str) (spec : TunnelSpec)
    (hs : spec.userId = u.id) :
    (desired original).lookup key = some spec ↔ (desired s.config).lookup key = some spec := by
  have hv := h.first.settled.valid
  have hv' := h.rewritten.valid
  have hbind : ∀ t, specOf original u t = specOf s.config u t := by
    intro t; rw [h.rewritten.eq]; rfl
  rw [desired_own (newIn_empty.1 hv'.distinct.tunnels.names) (newIn_empty.1 hv'.distinct.ids)
      (h.mem_original hd hu) hs,
    desired_own (newIn_empty.1 hv.distinct.tunnels.names) (newIn_empty.1 hv.distinct.ids)
      (h.first.place.mem_other hu) hs]
  simp only [hbind]

theorem SecondSave.untouched {k : TrafficController τ} (hk : s.controller = some k) {w₁ w₂ : World}
    (ho₁ : w₁.Orders stored) (ho₂ : w₂.Orders original) {u : ServerUser} (hu : u ∈ pre ++ post)
    (hs : Serves k s.config u.id) :
    Untouched k ((k.reconcile stored w₁).1.reconcile original w₂).1 u.id := by
  obtain ⟨hu₁, hs₁⟩ := h.first.untouched hd hk ho₁ hu hs
  have hgates : (k.reconcile stored w₁).1.gates = k.gates ∧ (k.reconcile stored w₁).1.heap = k.heap := by
    have := reconcile_gates (k := k) (c := stored) (w := w₁)
    rwa [reconcileGates_same (h.first.gates hd hk)] at this
  refine hu₁.trans (reconcile_untouched ((h.first.settled.gates k hk).congr hgates.1 hgates.2 (h.column
    (fun u => (u.id, u.trafficLimitBytes, u.speedLimitMbps)) fun _ _ => rfl)) hs₁
    (newIn_empty.1 h.rewritten.valid.distinct.tunnels.names) ho₂ fun key spec hspec => ?_).1
  rw [h.desired_iff hd hu key spec hspec, h.first.desired_iff hd hu key spec hspec]

theorem SecondSave.serves_of_untouched {k k' : TrafficController τ} {u : ServerUser} (hu : u ∈ pre ++ post)
    (hunt : Untouched k k' u.id) (hs : Serves k' original u.id) : Serves k s.config u.id :=
  hunt.serves (hs.congr fun key spec he => (h.desired_iff hd hu key spec he).symm)

end

/-! ## When each ending leaves the others alone -/

omit [Double τ] in
theorem isolated_iff {s' : Server τ} : Isolated s s' i ↔
    othersOf s'.config i = othersOf s.config i ∧
      (∀ u ∈ othersOf s.config i, ∀ r : TunnelRow, r.userId = u.id →
        (r ∈ s'.disk.db.tunnels.rows ↔ r ∈ s.disk.db.tunnels.rows)) ∧
      (∀ u ∈ othersOf s.config i, ∀ r : TrafficRow, r.userId = u.id →
        (r ∈ s'.disk.db.traffic.rows ↔ r ∈ s.disk.db.traffic.rows)) ∧
      s'.controller.isSome = s.controller.isSome ∧
      ∀ u ∈ othersOf s.config i, ∀ k k', s.controller = some k → s'.controller = some k' →
        Untouched k k' u.id :=
  ⟨fun h => ⟨h.config, h.rows, h.records, h.controller⟩,
    fun ⟨h₁, h₂, h₃, h₄⟩ => ⟨h₁, h₂, h₃, fun u hu => trafficOf_congr (h₃ u hu), h₄⟩⟩

section
variable {pre' post' pre₂ post₂ : List ServerUser} {a' a₂ : ServerUser} {disk' : Disk}
  {original : ServerConfig} {ctl : Option (TrafficController τ)} (hctl : ctl.isSome = s.controller.isSome)
include hctl

theorem FirstSave.kept_iff (h : FirstSave P s i pre a post env ts disk stored pre' a' post') :
    Isolated s ⟨disk, stored, ctl⟩ i ↔ NoDashIn (pre ++ post) ∧
      RecordsSpared s.disk.db.traffic (pre ++ post) (lastOwner (candidate s.config i a ts env.now).users)
        (droppedNames s.disk.db a.id ts) (droppedNames s.disk.db a.id ts) ∧
      ∀ u ∈ pre ++ post, ∀ k k', s.controller = some k → ctl = some k' → Untouched k k' u.id := by
  rw [isolated_iff, h.config_iff, h.place.others]
  refine and_congr_right fun hd => ?_
  rw [(h.leaves hd).same_iff, and_iff_right fun u hu => h.rows hd hu, and_iff_right hctl]

theorem FirstSave.stuck_iff (h : FirstSave P s i pre a post env ts disk stored pre' a' post')
    (hsame : SameButPasswords disk.db disk'.db) :
    Isolated s ⟨disk', s.config, ctl⟩ i ↔ NoDashIn (pre ++ post) ∧
      RecordsSpared s.disk.db.traffic (pre ++ post) (lastOwner (candidate s.config i a ts env.now).users)
        (droppedNames s.disk.db a.id ts) (droppedNames s.disk.db a.id ts) ∧
      ∀ u ∈ pre ++ post, ∀ k k', s.controller = some k → ctl = some k' → Untouched k k' u.id := by
  rw [isolated_iff, and_iff_right rfl, h.place.others, hsame.tunnels, hsame.traffic]
  refine ⟨fun ⟨hrows, hrest⟩ => ?_, fun ⟨hd, hrest⟩ => ⟨fun u hu => h.rows hd hu, ?_⟩⟩
  · have hd : NoDashIn (pre ++ post) := h.noDash_of_rows rfl hrows
    rw [(h.leaves hd).same_iff, and_iff_right hctl] at hrest
    exact ⟨hd, hrest⟩
  · rwa [(h.leaves hd).same_iff, and_iff_right hctl]

theorem SecondSave.restored_iff (h : SecondSave P s i pre a post env ts disk stored pre' a' post' disk'
      original pre₂ a₂ post₂) :
    Isolated s ⟨disk', original, ctl⟩ i ↔ NoDashIn (pre ++ post) ∧
      RecordsSpared s.disk.db.traffic (pre ++ post)
        (fun name => (lastOwner s.config.users name).or
          (lastOwner (candidate s.config i a ts env.now).users name))
        (addedNames a ts) (droppedNames s.disk.db a.id ts ++ addedNames a ts) ∧
      ∀ u ∈ pre ++ post, ∀ k k', s.controller = some k → ctl = some k' → Untouched k k' u.id := by
  rw [isolated_iff, h.config_iff, h.first.place.others]
  refine and_congr_right fun hd => ?_
  rw [(h.leaves hd).same_iff, and_iff_right fun u hu => h.rows hd hu, and_iff_right hctl]

end

/-! ## The whole request -/

theorem quota_of_ending {action : Action} (h : ending P s i a action env ≠ .unstored) :
    (trafficSummary a).exhausted = false := by
  cases he : (trafficSummary a).exhausted with
  | false => rfl
  | true =>
    refine absurd ?_ h
    unfold ending
    split
    · rw [if_pos he]
    · rfl

/-- A request that stores nothing touches nobody. -/
theorem isolated_of_unstored (h : Settled P s i a) {action : Action}
    (he : ending P s i a action env = .unstored) :
    Isolated s (tunnelsRequest P s i a action env).1 i := by
  obtain ⟨row, hset⟩ := h.settings
  rcases @ending_cases τ _ P s i a env action with ⟨-, disk, hun, hs'⟩ | ⟨ts, disk, stored, he', -⟩ |
    ⟨ts, disk, stored, k, disk', original, e', he', -⟩ | ⟨ts, disk, stored, k, disk', error, he', -⟩
  · have hsame := hun.same hset
    rw [hs', isolated_iff]
    refine ⟨rfl, fun u _ r _ => by rw [hsame.tunnels], fun u _ r _ => by rw [hsame.traffic], rfl,
      fun u _ k k' h₁ h₂ => ?_⟩
    cases h₁.symm.trans h₂
    exact .refl k u.id
  all_goals rw [he] at he'; cases he'

/-- How a save with a stored candidate ends, by what the calls to the controller find. -/
structure SaveEnding (P : Primitives) (s : Server τ) (i : Nat) (a : ServerUser) (action : Action) (env : Env)
    (disk : Disk) (stored : ServerConfig) (w₁ w₂ : World) : Prop where
  kept : (∀ k, s.controller = some k → (k.reconcile stored w₁).2 = .ok ()) →
    (tunnelsRequest P s i a action { env with firstWorld := w₁, secondWorld := w₂ }).1 =
      ⟨disk, stored, s.controller.map fun k => (k.reconcile stored w₁).1⟩
  failed : ∀ k, s.controller = some k → (k.reconcile stored w₁).2 ≠ .ok () →
    (∃ disk' original e', save P disk { s.config with revision := stored.revision } env.second =
        (disk', .ok (original, e')) ∧
      (tunnelsRequest P s i a action { env with firstWorld := w₁, secondWorld := w₂ }).1 =
        ⟨disk', original, some ((k.reconcile stored w₁).1.reconcile original w₂).1⟩) ∨
    (∃ disk' error, save P disk { s.config with revision := stored.revision } env.second =
        (disk', .error error) ∧
      (tunnelsRequest P s i a action { env with firstWorld := w₁, secondWorld := w₂ }).1 =
        ⟨disk', s.config, some (k.reconcile stored w₁).1⟩)

theorem saveEnding {action : Action} (hq : (trafficSummary a).exhausted = false)
    (hst : StoredBy P s i a action env ts disk stored) (w₁ w₂ : World) :
    SaveEnding P s i a action env disk stored w₁ w₂ := by
  obtain ⟨⟨tunnels, d, rfl, hn⟩, e, hsave⟩ := hst
  have hq' : ¬ (trafficSummary a).exhausted = true := by rw [hq]; exact Bool.false_ne_true
  refine ⟨fun hok => ?_, fun k hk hfail => ?_⟩
  · simp only [tunnelsRequest, saveTunnels, if_neg hq', hn, hsave]
    cases hk : s.controller with
    | none => rfl
    | some k =>
      cases hr : k.reconcile stored w₁ with
      | mk k' res =>
        have hok := hok k hk
        rw [hr] at hok
        cases hok
        simp only [Option.map_some, hr]
  · simp only [tunnelsRequest, saveTunnels, if_neg hq', hn, hsave, hk]
    cases hr : k.reconcile stored w₁ with
    | mk k' res =>
      rw [hr] at hfail
      cases res with
      | ok u => exact absurd rfl hfail
      | error error =>
        simp only [rollback]
        cases hs' : save P disk { s.config with revision := stored.revision } env.second with
        | mk disk' res =>
          cases res with
          | ok r => exact .inl ⟨disk', r.1, r.2, rfl, rfl⟩
          | error e'' => exact .inr ⟨disk', e'', rfl, rfl⟩

section
variable {pre' post' : List ServerUser} {a' : ServerUser}
  (h : FirstSave P s i pre a post env ts disk stored pre' a' post') {action : Action}
  (hout : ∀ w₁ w₂, SaveEnding P s i a action env disk stored w₁ w₂)
include h hout

omit hout in
theorem FirstSave.orders_iff (w : World) :
    w.Orders (renamed (candidate s.config i a ts env.now) env.first.uuids) ↔ w.Orders stored := by
  rw [h.rewritten.eq]
  rfl

omit hout in
/-- Some port of the list cannot be bound. -/
theorem FirstSave.not_listBinds {w : World} : ¬ ListBinds s i a env ts w ↔ ∃ k, s.controller = some k ∧
    ∃ spec ∈ specs stored, spec.userId = a.id ∧ Missing k spec ∧ ¬ w.bind spec = true := by
  have hspecs : specs (renamed (candidate s.config i a ts env.now) env.first.uuids) = specs stored := by
    rw [h.rewritten.eq]
    rfl
  unfold ListBinds
  rw [hspecs]
  push Not
  rfl

omit hout in
theorem FirstSave.spares_iff {owner : Str → Option Str} {gone kept : List Str} :
    Spares s i owner gone kept ↔ NoDashIn (pre ++ post) ∧
      (∀ k, s.controller = some k → ∀ u ∈ pre ++ post, Serves k s.config u.id) ∧
      RecordsSpared s.disk.db.traffic (pre ++ post) owner gone kept := by
  rw [← h.place.others]
  exact ⟨fun hs => ⟨hs.noDash, hs.serves, hs.records⟩, fun hs => ⟨hs.1, hs.2.1, hs.2.2⟩⟩

/-- **When the others are left alone while the ports of the list can be bound.** -/
theorem FirstSave.binding_iff : (∀ w₁ w₂, Found s i a env ts w₁ w₂ → ListBinds s i a env ts w₁ →
      Isolated s (tunnelsRequest P s i a action { env with firstWorld := w₁, secondWorld := w₂ }).1 i) ↔
    SparesStored s i a ts env.now := by
  have hv := h.rewritten.valid
  have hn := newIn_empty.1 hv.distinct.tunnels.names
  have hctl : ∀ w, (s.controller.map fun k => (k.reconcile stored w).1).isSome = s.controller.isSome :=
    fun w => Option.isSome_map
  unfold SparesStored
  rw [h.spares_iff]
  refine ⟨fun hall => ?_, fun hs w₁ w₂ hw hb => ?_⟩
  · -- a world in which every port is free
    have hfree : ∀ spec, (World.blocking stored []).bind spec = true := fun _ => by simp [World.blocking]
    have hok : ∀ k : TrafficController τ, (k.reconcile stored (World.blocking stored [])).2 = .ok () ∧
        Running (k.reconcile stored (World.blocking stored [])).1 stored := fun k =>
      reconcile_ok hn hv.protocols (World.blocking_orders stored []) fun spec _ => hfree spec
    have hiso := hall (World.blocking stored []) (World.blocking (renamed s.config env.second.uuids) [])
      ⟨(h.orders_iff _).2 (World.blocking_orders stored []), World.blocking_orders _ []⟩
      fun k _ spec _ _ _ => hfree spec
    rw [(hout _ _).kept fun k _ => (hok k).1, h.kept_iff (hctl _)] at hiso
    obtain ⟨hd, hrec, hunt⟩ := hiso
    refine ⟨hd, fun k hk u hu => ?_, hrec⟩
    exact h.serves_of_untouched hd hu (hunt u hu k _ hk (by rw [hk]; rfl)) ((hok k).2.serves u.id)
  · obtain ⟨hd, hserve, hrec⟩ := hs
    have ho := (h.orders_iff w₁).1 hw.first
    rw [(hout w₁ w₂).kept fun k hk => (h.reconcile_ok_iff hd hk (hserve k hk) ho).2 hb, h.kept_iff (hctl _)]
    refine ⟨hd, hrec, fun u hu k k' hk hk' => ?_⟩
    rw [hk, Option.map_some, Option.some.injEq] at hk'
    rw [← hk']
    exact (h.untouched hd hk ho hu (hserve k hk u hu)).1

end

/-! ## The endings of a failed `reconcile` -/

section
variable {pre' post' pre₂ post₂ : List ServerUser} {a' a₂ : ServerUser} {disk' : Disk}
  {original : ServerConfig} {k k₁ : TrafficController τ} (hk : s.controller = some k)

theorem SecondSave.orders_iff (h : SecondSave P s i pre a post env ts disk stored pre' a' post' disk'
      original pre₂ a₂ post₂) (w : World) :
    w.Orders (renamed s.config env.second.uuids) ↔ w.Orders original := by
  rw [h.rewritten.eq]
  rfl

theorem FirstSave.refused_unsafe (h : FirstSave P s i pre a post env ts disk stored pre' a' post')
    (hP : P.Lawful) (hd : NoDashIn (pre ++ post)) {error : String}
    (hsave : save P disk { s.config with revision := stored.revision } env.second = (disk', .error error)) :
    ¬ OrderSafe (·.id) RollbackClash ts a.tunnels := by
  intro hsafe
  obtain ⟨r, hr⟩ := (h.rollback_iff hP hd).2 hsafe
  rw [hsave] at hr
  cases hr

include hk

/-- A rollback that finds every port free touches only those who were not served. -/
theorem SecondSave.spares (h : SecondSave P s i pre a post env ts disk stored pre' a' post' disk' original
      pre₂ a₂ post₂) {w : World} (ho : w.Orders original) (hw : ∀ spec, w.bind spec = true)
    (hiso : Isolated s ⟨disk', original, some (k₁.reconcile original w).1⟩ i) :
    SparesRestored s i a ts env.now := by
  rw [h.restored_iff (by rw [hk]; rfl)] at hiso
  obtain ⟨hd, hrec, hunt⟩ := hiso
  refine h.first.spares_iff.2 ⟨hd, fun k' hk' u hu => ?_, hrec⟩
  cases hk.symm.trans hk'
  have hv := h.rewritten.valid
  refine h.serves_of_untouched hd hu (hunt u hu k _ hk rfl) (Running.serves ?_ u.id)
  exact (reconcile_ok (newIn_empty.1 hv.distinct.tunnels.names) hv.protocols ho fun spec _ => hw spec).2

/-- What the call leaves when only the last listener, one of the list's, could not be bound:
only those who were not served are touched. -/
theorem FirstSave.spares_stuck (h : FirstSave P s i pre a post env ts disk stored pre' a' post')
    (hsame : SameButPasswords disk.db disk'.db) {spec : TunnelSpec} (hspec : spec ∈ specs stored)
    (hown : spec.userId = a.id)
    (hiso : Isolated s ⟨disk', s.config, some (k.reconcile stored (World.stoppingAt stored spec)).1⟩ i) :
    SparesStored s i a ts env.now := by
  rw [h.stuck_iff (by rw [hk]; rfl) hsame] at hiso
  obtain ⟨hd, hrec, hunt⟩ := hiso
  refine h.spares_iff.2 ⟨hd, fun k' hk' u hu => ?_, hrec⟩
  cases hk.symm.trans hk'
  have hv := h.rewritten.valid
  have hn := newIn_empty.1 hv.distinct.tunnels.names
  refine h.serves_of_untouched hd hu (hunt u hu k _ hk rfl) (reconcile_stoppingAt hn hv.protocols
    ((lookup_desired hn spec.proxyName spec).2 ⟨hspec, rfl⟩) ?_)
  rw [hown]
  exact other_id_ne h.settled.valid h.place hu

theorem SecondSave.isolated (h : SecondSave P s i pre a post env ts disk stored pre' a' post' disk' original
      pre₂ a₂ post₂) {w₁ w₂ : World} (ho₁ : w₁.Orders stored) (ho₂ : w₂.Orders original)
    (hs : SparesRestored s i a ts env.now) :
    Isolated s ⟨disk', original, some ((k.reconcile stored w₁).1.reconcile original w₂).1⟩ i := by
  obtain ⟨hd, hserve, hrec⟩ := h.first.spares_iff.1 hs
  rw [h.restored_iff (by rw [hk]; rfl)]
  refine ⟨hd, hrec, fun u hu k₀ k' hk₀ hk' => ?_⟩
  cases hk.symm.trans hk₀
  cases hk'
  exact h.untouched hd hk ho₁ ho₂ hu (hserve k hk u hu)

theorem FirstSave.isolated_stuck (h : FirstSave P s i pre a post env ts disk stored pre' a' post')
    (hsame : SameButPasswords disk.db disk'.db) {w : World} (ho : w.Orders stored)
    (hs : SparesStored s i a ts env.now) :
    Isolated s ⟨disk', s.config, some (k.reconcile stored w).1⟩ i := by
  obtain ⟨hd, hserve, hrec⟩ := h.spares_iff.1 hs
  rw [h.stuck_iff (by rw [hk]; rfl) hsame]
  refine ⟨hd, hrec, fun u hu k₀ k' hk₀ hk' => ?_⟩
  cases hk.symm.trans hk₀
  cases hk'
  exact (h.untouched hd hk ho hu (hserve k hk u hu)).1

end

section
variable {pre' post' : List ServerUser} {a' : ServerUser}
  (h : FirstSave P s i pre a post env ts disk stored pre' a' post') {action : Action}
  (hout : ∀ w₁ w₂, SaveEnding P s i a action env disk stored w₁ w₂)
include h hout

/-- **When the others are left alone while some port of the list cannot be bound.** -/
theorem FirstSave.failing_iff (hP : P.Lawful) :
    (∀ w₁ w₂, Found s i a env ts w₁ w₂ → ¬ ListBinds s i a env ts w₁ →
      Isolated s (tunnelsRequest P s i a action { env with firstWorld := w₁, secondWorld := w₂ }).1 i) ↔
    (Adds s a ts → if OrderSafe (·.id) RollbackClash ts a.tunnels then SparesRestored s i a ts env.now
      else SparesStored s i a ts env.now) := by
  have hv := h.rewritten.valid
  have hn := newIn_empty.1 hv.distinct.tunnels.names
  refine ⟨fun hall hadds => ?_, fun hs w₁ w₂ hw hb => ?_⟩
  · obtain ⟨k, hk, spec, hspec, hown, hmiss⟩ := h.adds_iff.1 hadds
    -- the listener comes last, and only its port is taken
    have hnot : ¬ (World.stoppingAt stored spec).bind spec = true := by simp [World.stoppingAt]
    have ho : (World.stoppingAt stored spec).Orders stored :=
      World.stoppingAt_orders ((lookup_desired hn spec.proxyName spec).2 ⟨hspec, rfl⟩)
    have ho₂ : (World.blocking (renamed s.config env.second.uuids) []).Orders
        (renamed s.config env.second.uuids) := World.blocking_orders _ []
    have hiso := hall _ _ ⟨(h.orders_iff _).2 ho, ho₂⟩ (h.not_listBinds.2 ⟨k, hk, spec, hspec, hown, hmiss, hnot⟩)
    have hfail : (k.reconcile stored (World.stoppingAt stored spec)).2 ≠ .ok () := fun hok =>
      hnot ((Controller.reconcile_ok_iff hn hv.protocols ho).1 hok spec hspec hmiss)
    rcases (hout (World.stoppingAt stored spec) _).failed k hk hfail with
      ⟨disk', original, e', hsave, hs'⟩ | ⟨disk', error, hsave, hs'⟩ <;> rw [hs'] at hiso
    · obtain ⟨pre₂, a₂, post₂, h₂⟩ := secondSave h hsave
      have hspares := h₂.spares hk ((h₂.orders_iff _).1 ho₂) (fun _ => by simp [World.blocking]) hiso
      have hd := (h.spares_iff.1 hspares).1
      rwa [if_pos ((h.rollback_iff hP hd).1 ⟨_, congrArg Prod.snd hsave⟩)]
    · have hspares := h.spares_stuck hk (save_error h.rewritten.holds.settings hsave).1 hspec hown hiso
      rwa [if_neg (h.refused_unsafe hP (h.spares_iff.1 hspares).1 hsave)]
  · obtain ⟨k, hk, spec, hspec, hown, hmiss, hbind⟩ := h.not_listBinds.1 hb
    have hs := hs (h.adds_iff.2 ⟨k, hk, spec, hspec, hown, hmiss⟩)
    have ho := (h.orders_iff w₁).1 hw.first
    have hfail : (k.reconcile stored w₁).2 ≠ .ok () := fun hok =>
      hbind ((Controller.reconcile_ok_iff hn hv.protocols ho).1 hok spec hspec hmiss)
    have hd : NoDashIn (pre ++ post) := by
      split at hs
      · exact (h.spares_iff.1 hs).1
      · exact (h.spares_iff.1 hs).1
    rcases (hout w₁ w₂).failed k hk hfail with
      ⟨disk', original, e', hsave, hs'⟩ | ⟨disk', error, hsave, hs'⟩ <;> rw [hs']
    · obtain ⟨pre₂, a₂, post₂, h₂⟩ := secondSave h hsave
      rw [if_pos ((h.rollback_iff hP hd).1 ⟨_, congrArg Prod.snd hsave⟩)] at hs
      exact h₂.isolated hk ho ((h₂.orders_iff w₂).1 hw.second) hs
    · rw [if_neg (h.refused_unsafe hP hd hsave)] at hs
      exact h.isolated_stuck hk (save_error h.rewritten.holds.settings hsave).1 ho hs

end

/-- **When a request leaves the other users alone**: where the ports of an accepted list can be
bound, and where some cannot, whatever else is bound and in whatever order. -/
theorem request_isolated_iff (hP : P.Lawful) (h : Settled P s i a) (action : Action)
    (hd : ∀ tunnels ts d, action = .save (some tunnels) →
      normalizeUserTunnels s.config i a tunnels env.draws = .ok (ts, d) → RequestDraws P s i a env ts) :
    ((∀ w₁ w₂, (∀ ts, Admitted s i a action env ts → Found s i a env ts w₁ w₂ ∧ ListBinds s i a env ts w₁) →
        Isolated s (tunnelsRequest P s i a action { env with firstWorld := w₁, secondWorld := w₂ }).1 i) ↔
      ∀ ts, Admitted s i a action env ts → SparesStored s i a ts env.now) ∧
    ((∀ w₁ w₂, (∀ ts, Admitted s i a action env ts → Found s i a env ts w₁ w₂ ∧ ¬ ListBinds s i a env ts w₁) →
        Isolated s (tunnelsRequest P s i a action { env with firstWorld := w₁, secondWorld := w₂ }).1 i) ↔
      ∀ ts, Admitted s i a action env ts → Adds s a ts →
        if OrderSafe (·.id) RollbackClash ts a.tunnels then SparesRestored s i a ts env.now
        else SparesStored s i a ts env.now) := by
  by_cases hstore : ∃ ts, Admitted s i a action env ts
  · obtain ⟨ts, hts⟩ := hstore
    have hone : ∀ ts', Admitted s i a action env ts' ↔ ts' = ts := by
      refine fun ts' => ⟨fun hts' => ?_, fun he => he ▸ hts⟩
      obtain ⟨tunnels, d, rfl, hn⟩ := hts.accepted
      obtain ⟨tunnels', d', he, hn'⟩ := hts'.accepted
      cases he
      rw [hn] at hn'
      cases hn'
      rfl
    simp only [hone, forall_eq]
    obtain ⟨pre, post, hat⟩ := exists_at h.user
    obtain ⟨hq, disk, stored, hst⟩ := (admitted_iff hP h fun tunnels d => hd tunnels ts d).1 hts
    obtain ⟨tunnels, d, ha, hn⟩ := hts.accepted
    obtain ⟨pre', a', post', hf⟩ := firstSave hP h hat hst (hd tunnels ts d ha hn)
    refine ⟨?_, ?_⟩
    · rw [← hf.binding_iff fun w₁ w₂ => saveEnding hq hst w₁ w₂]
      exact forall₂_congr fun _ _ => and_imp
    · rw [← hf.failing_iff (fun w₁ w₂ => saveEnding hq hst w₁ w₂) hP]
      exact forall₂_congr fun _ _ => and_imp
  · have hnone : ∀ ts, ¬ Admitted s i a action env ts := fun ts hts => hstore ⟨ts, hts⟩
    have hiso : ∀ w₁ w₂, Isolated s
        (tunnelsRequest P s i a action { env with firstWorld := w₁, secondWorld := w₂ }).1 i := by
      intro w₁ w₂
      refine isolated_of_unstored h ?_
      by_contra hne
      have hq := quota_of_ending hne
      have hnot : ∀ {ts disk stored}, ¬ StoredBy P s i a action env ts disk stored := fun hst =>
        hnone _ ((admitted_iff hP h fun tunnels d => hd tunnels _ d).2 ⟨hq, _, _, hst⟩)
      rcases @ending_cases τ _ P s i a { env with firstWorld := w₁, secondWorld := w₂ } action with
        ⟨he, -⟩ | ⟨ts, disk, stored, -, hst, -⟩ | ⟨ts, disk, stored, k, disk', original, e', -, hst, -⟩ |
        ⟨ts, disk, stored, k, disk', error, -, hst, -⟩
      · exact hne he
      · exact hnot ⟨hst.accepted, hst.saved⟩
      · exact hnot ⟨hst.accepted, hst.saved⟩
      · exact hnot ⟨hst.accepted, hst.saved⟩
    exact ⟨iff_of_true (fun w₁ w₂ _ => hiso w₁ w₂) fun ts hts => absurd hts (hnone ts),
      iff_of_true (fun w₁ w₂ _ => hiso w₁ w₂) fun ts hts => absurd hts (hnone ts)⟩

end

/-- A user with an inactive record under the name of the tunnel id `x`. -/
def withRecord (u : ServerUser) : ServerUser :=
  { u with
    trafficByProxy := (∅ : Assoc Str ProxyTrafficRecord).insert (fgPrefix ++ ['x']) {
      protocol := tcp
      remotePort := 9
      trafficInBytes := 3
      trafficOutBytes := 4
      active := false } }

/-- The record belongs to the user written first or last. -/
def recordFirst : ServerConfig := sampleConfig [withRecord (sampleUser 'a' []), sampleUser 'b' []]

def recordLast : ServerConfig := sampleConfig [sampleUser 'a' [], withRecord (sampleUser 'b' [])]

def serverOf (c : ServerConfig) : Server Rat :=
  ⟨Disk.ofConfig c, c, some (TrafficController.broughtUp c)⟩

/-- The save of a tunnel `x` on port 5. -/
def saveX : Action := .save (some [sampleTunnel ['x'] 5 0])

def freeEnv (stored original : ServerConfig) : Env where
  now := 5
  draws := Draws.constant
  first := Entropy.constant
  second := Entropy.constant
  firstWorld := World.blocking stored []
  secondWorld := World.blocking original []

theorem serverOf_settled {c : ServerConfig} {i : Nat} {a : ServerUser}
    (hn : (normalizeLoadedConfig .plain c Draws.constant).toOption.map Prod.fst = some c)
    (hw : (writeSnapshot Db.empty c).isOk = true) (hi : c.users[i]? = some a) :
    Settled .plain (serverOf c) i a := by
  have hv := valid_of_fixed (d := Draws.constant) .plain hn
  have hs := storedAs_ofConfig hv hw
  obtain ⟨row, hset, -⟩ := hs.settings
  refine ⟨hv, ⟨row, hset⟩, fun _ => hs, fun k hk => ?_, hi⟩
  cases hk
  exact broughtUp_gatesCurrent (newIn_empty.1 hv.distinct.ids)

theorem serverOf_serves {c : ServerConfig}
    (hn : (normalizeLoadedConfig .plain c Draws.constant).toOption.map Prod.fst = some c)
    {k : TrafficController Rat} (hk : (serverOf c).controller = some k) (userId : Str) : Serves k c userId := by
  have hv := valid_of_fixed (d := Draws.constant) .plain hn
  cases hk
  exact (broughtUp_running (newIn_empty.1 hv.distinct.tunnels.names) hv.protocols).serves userId

/-- The list that is accepted for the save, and what is stored. -/
def acceptedX : List Tunnel := [sampleTunnel ['x'] 5 20000]

def storedX (c : ServerConfig) (i : Nat) (a : ServerUser) : ServerConfig :=
  { candidate c i a acceptedX 5 with revision := 2 }

def diskX (c : ServerConfig) (i : Nat) (a : ServerUser) : Disk :=
  (save .plain (Disk.ofConfig c) (candidate c i a acceptedX 5) Entropy.constant).1

/-- The only list that the save can be accepted with. -/
theorem accepted_saveX {c : ServerConfig} {i : Nat} {a : ServerUser}
    (hn : (normalizeUserTunnels c i a [sampleTunnel ['x'] 5 0] Draws.constant).toOption.map Prod.fst =
      some acceptedX) {tunnels ts : List Tunnel} {d : Draws} (ha : saveX = .save (some tunnels))
    (hts : normalizeUserTunnels c i a tunnels Draws.constant = .ok (ts, d)) : ts = acceptedX := by
  cases ha
  obtain ⟨d', hn⟩ := exists_of_fst hn
  rw [hn] at hts
  cases hts
  rfl

theorem draws_saveX {c : ServerConfig} {i : Nat} {a : ServerUser} {env : Env} (hfirst : env.first = Entropy.constant)
    (hsecond : env.second = Entropy.constant) (hnow : env.now = 5)
    (hf₁ : FreshFor Draws.constant (Disk.ofConfig c).db (candidate c i a acceptedX 5))
    (hu : ∀ name ∈ namesHeld (serverOf c),
      name ∉ drawnNames Draws.constant (dashCount (candidate c i a acceptedX 5).tunnels))
    (hf₂ : FreshFor Draws.constant (diskX c i a).db c) :
    RequestDraws .plain (serverOf c) i a env acceptedX := by
  refine ⟨by rw [hfirst, hnow]; exact hf₁, by rw [hfirst, hnow]; exact hu, fun disk r hs => ?_⟩
  rw [hfirst, hnow] at hs
  rw [hsecond, show disk = diskX c i a from (congrArg Prod.fst hs).symm]
  exact hf₂

/-- The surroundings of the save on the second server, with some ports taken. -/
def envX (blocked : List Port) : Env :=
  { freeEnv recordLast recordLast with
    firstWorld := World.blocking (candidate recordLast 0 (sampleUser 'a' []) acceptedX 5) blocked }

/-- A user written later keeps its record, whether the tunnel can be brought up or not. -/
theorem request_isolated_recordLast :
    Isolated (serverOf recordLast)
      (tunnelsRequest .plain (serverOf recordLast) 0 (sampleUser 'a' []) saveX (envX [])).1 0 ∧
    Isolated (serverOf recordLast)
      (tunnelsRequest .plain (serverOf recordLast) 0 (sampleUser 'a' []) saveX (envX [5])).1 0 := by
  have hn : (normalizeLoadedConfig .plain recordLast Draws.constant).toOption.map Prod.fst = some recordLast := by
    decide +kernel
  have hx : (normalizeUserTunnels recordLast 0 (sampleUser 'a' []) [sampleTunnel ['x'] 5 0]
    Draws.constant).toOption.map Prod.fst = some acceptedX := by decide +kernel
  have hsame : renamed (candidate recordLast 0 (sampleUser 'a' []) acceptedX 5) Draws.constant =
    candidate recordLast 0 (sampleUser 'a' []) acceptedX 5 := by decide +kernel
  have hfound : ∀ blocked, Found (serverOf recordLast) 0 (sampleUser 'a' []) (envX blocked) acceptedX
      (envX blocked).firstWorld (envX blocked).secondWorld := fun blocked => by
    refine ⟨?_, World.blocking_orders _ []⟩
    show (World.blocking _ blocked).Orders (renamed (candidate recordLast 0 (sampleUser 'a' []) acceptedX 5)
      Draws.constant)
    rw [hsame]
    exact World.blocking_orders _ blocked
  have h := fun blocked => @request_isolated_iff _ _ _ _ _ _ (envX blocked) Primitives.plain_lawful
    (serverOf_settled hn (by decide +kernel) (i := 0) rfl) saveX fun tunnels ts d ha hts => by
      obtain rfl := accepted_saveX hx ha hts
      exact draws_saveX rfl rfl rfl (by decide +kernel) (by decide +kernel) (by decide +kernel)
  have hone : ∀ {blocked ts}, Admitted (serverOf recordLast) 0 (sampleUser 'a' []) saveX (envX blocked) ts →
      ts = acceptedX := fun hs => by
    obtain ⟨tunnels, d, ha, hts⟩ := hs.accepted
    exact accepted_saveX hx ha hts
  refine ⟨(h []).1.2 (fun ts hs => ?_) _ _ fun ts hs => ?_, (h [5]).2.2 (fun ts hs _ => ?_) _ _ fun ts hs => ?_⟩ <;>
    obtain rfl := hone hs
  · exact ⟨by decide +kernel, fun k hk u _ => serverOf_serves hn hk u.id, by decide +kernel⟩
  · exact ⟨hfound [], fun k _ spec _ _ _ => by simp [World.blocking]⟩
  · rw [if_pos (by decide +kernel)]
    exact ⟨by decide +kernel, fun k hk u _ => serverOf_serves hn hk u.id, by decide +kernel⟩
  · refine ⟨hfound [5], fun hb => ?_⟩
    have hbind := hb _ rfl (specOf recordLast (sampleUser 'a' []) (sampleTunnel ['x'] 5 20000))
      (by decide +kernel) rfl (by unfold Missing; decide +kernel)
    revert hbind
    decide +kernel

/-- **Another user's record is taken over.** The user written later creates a tunnel
under the name of the record, and the record changes hands. -/
theorem request_takes_record : Settled .plain (serverOf recordFirst) 1 (sampleUser 'b' []) ∧
    (∀ k, (serverOf recordFirst).controller = some k → Running k recordFirst) ∧
    (∀ u ∈ recordFirst.users, Recorded (serverOf recordFirst).disk.db u) ∧
    (∀ tunnels ts d, saveX = .save (some tunnels) →
      normalizeUserTunnels recordFirst 1 (sampleUser 'b' []) tunnels Draws.constant = .ok (ts, d) →
      RequestDraws .plain (serverOf recordFirst) 1 (sampleUser 'b' [])
        (freeEnv (storedX recordFirst 1 (sampleUser 'b' [])) recordFirst) ts) ∧
    ¬ Isolated (serverOf recordFirst)
      (tunnelsRequest .plain (serverOf recordFirst) 1 (sampleUser 'b' []) saveX
        (freeEnv (storedX recordFirst 1 (sampleUser 'b' [])) recordFirst)).1 1 := by
  have hn : (normalizeLoadedConfig .plain recordFirst Draws.constant).toOption.map Prod.fst =
    some recordFirst := by decide +kernel
  have hw : (writeSnapshot Db.empty recordFirst).isOk = true := by decide +kernel
  have hv := valid_of_fixed (d := Draws.constant) .plain hn
  refine ⟨serverOf_settled hn hw rfl, fun k hk => ?_, recorded_ofConfig hv hw (by decide +kernel),
    fun tunnels ts d ha hts => ?_, fun h => ?_⟩
  · cases hk
    exact broughtUp_running (newIn_empty.1 hv.distinct.tunnels.names) hv.protocols
  · obtain rfl := accepted_saveX (by decide +kernel) ha hts
    exact draws_saveX rfl rfl rfl (by decide +kernel) (by decide +kernel) (by decide +kernel)
  · have hlook := h.reloaded (withRecord (sampleUser 'a' [])) (by decide +kernel) (fgPrefix ++ ['x'])
    revert hlook
    decide +kernel

end OrangeFrp.App
