import OrangeFrp.App.Isolation
import OrangeFrp.Controller.Accounting
import OrangeFrp.Core.LTS
import OrangeFrp.Storage.RoundTrip

/-!
# A serving process and what it stores

From its start a server changes the directory by the saves of tunnels requests
and by the flushes of the accounting task. In most runs a read returns what the
last save has handed back; it does not when an event tells the directory more or
less than the configuration (`Retells`).

* `candidate_storable_iff`, `original_storable_iff`, `accounted_storable_iff`: what
  each kind of save asks for.
* `InStep`: the directory mirrors the memory, or has been left behind for good by a
  rollback that was refused.
* `stores_roundTrip_iff`: in such a state the saves of an event are read back
  exactly when the event retells.
* `saves_roundTrip_iff`: the same after every run.
-/
namespace OrangeFrp.App

open OrangeFrp.Core OrangeFrp.Core.Table OrangeFrp.Storage OrangeFrp.Controller

/-! ## The system -/

/-- What a serving process does to the directory. -/
inductive ServingEvent where
  | request (userIndex : Nat) (action : Action) (env : Env)
  | flush (pending : Pending) (e : Entropy)

section
variable {τ : Type} [Double τ] (P : Primitives)

/-- A server that has just read the directory. No name was drawn, and the records of
stored tunnels are active, as every snapshot writes them. -/
structure Started (s : Server τ) : Prop where
  read : ∃ disk e e', Kept P disk.db ∧ Storage.read P disk e = (s.disk, .ok (s.config, e'))
  clean : NoDash s.config
  flagged : ∀ u ∈ s.config.users, ∀ t ∈ u.tunnels, ∀ record,
    u.trafficByProxy.lookup t.proxyName = some record → record.active = true

def Server.step (s : Server τ) : ServingEvent → Option (Server τ)
  | .request userIndex action env => do
    let current ← s.config.users[userIndex]?
    some (tunnelsRequest P s userIndex current action env).1
  | .flush pending e =>
    let t := flushPending P s.disk s.config pending e
    some { s with disk := t.1, config := t.2.1 }

def serving : LTS (Server τ) ServingEvent := .ofFn (Started P) (Server.step P)

/-- A save of the event that returned `Ok`, with the directory it left and the
configuration it handed back. -/
inductive Stores (s : Server τ) : ServingEvent → Disk → ServerConfig → Prop
  | candidate {i : Nat} {a : ServerUser} {action : Action} {env : Env} {ts : List Tunnel} {disk : Disk}
      {stored : ServerConfig} : s.config.users[i]? = some a → ending P s i a action env ≠ .unstored →
      StoredBy P s i a action env ts disk stored → Stores s (.request i action env) disk stored
  | original {i : Nat} {a : ServerUser} {action : Action} {env : Env} {ts : List Tunnel} :
      s.config.users[i]? = some a → ending P s i a action env = .rolledBack ts →
      Stores s (.request i action env) (tunnelsRequest P s i a action env).1.disk
        (tunnelsRequest P s i a action env).1.config
  | flushed {pending : Pending} {e e' : Entropy} {disk : Disk} {stored : ServerConfig} :
      pending.entries ≠ [] →
      save P s.disk (accounted s.config pending) e = (disk, .ok (stored, e')) →
      Stores s (.flush pending e) disk stored

/-! ## What an event tells the directory -/

/-- An accepted list in place of the user's tunnels: no name is drawn, no other user
has a record under a name of the list, nor an active one under a dropped name. -/
structure Retold (c : ServerConfig) (userIndex : Nat) (current : ServerUser) (ts : List Tunnel) :
    Prop where
  clean : ∀ t ∈ ts, ¬ DashOnly t.id
  unshared : ∀ t ∈ ts, ∀ u ∈ othersOf c userIndex, t.proxyName ∉ u.trafficByProxy
  gone : ∀ t ∈ current.tunnels, t.id ∉ ts.map (·.id) → ∀ u ∈ othersOf c userIndex, ∀ record,
    u.trafficByProxy.lookup t.proxyName = some record → record.active = false

/-- A list whose save can be undone: the user has a record under each of its names, an
inactive one unless the tunnel is there already. -/
def Undone (current : ServerUser) (ts : List Tunnel) : Prop :=
  ∀ t ∈ ts, ∃ record, current.trafficByProxy.lookup t.proxyName = some record ∧
    (t.id ∉ current.tunnels.map (·.id) → record.active = false)

/-- No two users have a record of the same name. -/
def Apart (c : ServerConfig) : Prop :=
  ∀ u ∈ c.users, ∀ v ∈ c.users, ∀ name, name ∈ u.trafficByProxy → name ∈ v.trafficByProxy → u.id = v.id

/-- What an event has to meet so that its saves are read back. -/
def Retells (s : Server τ) : ServingEvent → Prop
  | .request i action env => ∀ a, s.config.users[i]? = some a →
    match ending P s i a action env with
    | .unstored => True
    | .kept ts | .stuck ts => Retold s.config i a ts
    | .rolledBack ts => Retold s.config i a ts ∧ Undone a ts
  | .flush pending e => pending.entries ≠ [] →
    (save P s.disk (accounted s.config pending) e).2.isOk = true → Apart (accounted s.config pending)

/-- The same, and that no rollback is refused at the last revision. -/
structure Sound (s : Server τ) (l : ServingEvent) : Prop where
  retells : Retells P s l
  counted : ∀ i action env a ts, l = .request i action env → s.config.users[i]? = some a →
    ending P s i a action env = .stuck ts → s.config.revision < I64_MAX

/-- The memory is behind the database, so that nothing is stored any more. -/
def Behind (s : Server τ) : Prop :=
  ∃ row, s.disk.db.settings = some row ∧ row.revision ≠ s.config.revision

def InStep (s : Server τ) : Prop := Mirrored P s.disk s.config ∨ Behind s

end

/-! ## The save of a candidate -/

theorem mem_withTunnels {a : ServerUser} {ts : List Tunnel} {now : Int} {name : Str} :
    name ∈ (withTunnels a ts now).trafficByProxy ↔
      name ∈ a.trafficByProxy ∨ name ∈ ts.map (·.proxyName) := by
  have h : ∀ traffic : Assoc Str ProxyTrafficRecord, name ∈ ts.foldl activate traffic ↔
      name ∈ traffic ∨ name ∈ ts.map (·.proxyName) := by
    intro traffic
    induction ts generalizing traffic with
    | nil => simp
    | cons t ts ih =>
      rw [List.foldl_cons, ih, activate, Assoc.mem_alter, List.map_cons, List.mem_cons]
      tauto
  rw [withTunnels, h, Assoc.mem_mapVals]

section
variable {τ : Type} {P : Primitives} {s : Server τ} {i : Nat} {a : ServerUser} {env : Env}
  {pre post : List ServerUser} {ts : List Tunnel} {disk : Disk} {stored : ServerConfig}

/-- A candidate that was stored. -/
structure CandidateSave (P : Primitives) (s : Server τ) (i : Nat) (pre : List ServerUser)
    (a : ServerUser) (post : List ServerUser) (env : Env) (ts : List Tunnel) (disk : Disk)
    (stored : ServerConfig) : Prop where
  place : At s.config i pre a post
  accepted : AcceptedFor s.config i a ts
  noForeign : NoForeignId s.config i ts
  resaved : Resaved P s.disk s.config (candidate s.config i a ts env.now) env.first.uuids disk stored

theorem candidateSave (h : Mirrored P s.disk s.config) (hat : At s.config i pre a post)
    {action : Action} (hst : StoredBy P s i a action env ts disk stored) :
    CandidateSave P s i pre a post env ts disk stored := by
  obtain ⟨⟨tunnels, d, -, hn⟩, e', hsave⟩ := hst
  have ha := normalizeUserTunnels_ok hn
  have hv := h.valid
  have hrew := save_rewritten h.holds.settings (candidate_settings env.now hv)
    (candidate_userOk env.now hv hat ha)
    (sorted_of_accounts (candidate_column env.now hat (·.account) rfl) hv.sorted) hsave
  refine ⟨hat, ha, (candidate_ids env.now hv hat ha).1 ?_, h,
    candidate_column env.now hat (·.login) rfl, candidate_nameFor env.now hv hat ha, hrew⟩
  have hcol : stored.tunnels.map (·.id) = (candidate s.config i a ts env.now).tunnels.map (·.id) := by
    rw [hrew.eq]
    exact (congrArg (List.map (·.id)) (renameUsers_tunnels _ _).1).trans
      (map_eq_of_sameButName (·.id) (fun _ _ => rfl) (renameTunnels_forall₂ _ _))
  rw [← hcol]
  exact newIn_empty.1 hrew.valid.distinct.tunnels.ids

section
variable (h : CandidateSave P s i pre a post env ts disk stored)
include h

theorem CandidateSave.other_ne {u : ServerUser} (hu : u ∈ pre ++ post) : u.id ≠ a.id :=
  other_id_ne h.resaved.before.valid h.place hu

/-- The dropped tunnels are those whose id is gone. -/
theorem CandidateSave.gone_iff {t : Tunnel} : (t ∈ s.config.tunnels ∧
      t.id ∉ (candidate s.config i a ts env.now).tunnels.map (·.id)) ↔
    t ∈ a.tunnels ∧ t.id ∉ ts.map (·.id) := by
  have hsplit := (nodup_split (f := (·.id)) h.place).1
    (newIn_empty.1 h.resaved.before.valid.distinct.tunnels.ids)
  refine ⟨?_, ?_⟩
  · intro hx
    obtain ⟨ht, hid⟩ := hx
    simp only [List.mem_map, mem_candidate_tunnels env.now h.place] at hid
    rcases List.mem_append.1 (h.place.tunnels_perm.mem_iff.1 ht) with ht | ht
    · exact ⟨ht, fun hm => hid (by obtain ⟨o, ho, e⟩ := List.mem_map.1 hm; exact ⟨o, .inl ho, e⟩)⟩
    · exact absurd ⟨t, .inr ht, rfl⟩ hid
  · intro hx
    obtain ⟨ht, hid⟩ := hx
    refine ⟨mem_tunnels h.place.mem ht, fun hm => ?_⟩
    obtain ⟨o, ho, e⟩ := List.mem_map.1 hm
    rcases (mem_candidate_tunnels env.now h.place).1 ho with ho | ho
    · exact hid (List.mem_map.2 ⟨o, ho, e⟩)
    · exact hsplit.2.2 t ht o ho e.symm

theorem CandidateSave.others : othersOf s.config i = pre ++ post := h.place.others

/-- **What the save of a candidate asks for.** -/
theorem candidate_storable_iff :
    Storable s.config (candidate s.config i a ts env.now) ↔ Retold s.config i a ts := by
  have hbefore := h.resaved.before
  have huser : withTunnels a ts env.now ∈ (candidate s.config i a ts env.now).users :=
    (mem_candidate_users env.now h.place).2 (.inl rfl)
  have hother : ∀ u ∈ pre ++ post, u ∈ (candidate s.config i a ts env.now).users := fun u hu =>
    (mem_candidate_users env.now h.place).2 (.inr hu)
  refine ⟨?_, ?_⟩
  · intro hst
    refine ⟨fun t ht => hst.clean t ((mem_candidate_tunnels env.now h.place).2 (.inl ht)), ?_, ?_⟩
    · intro t ht u hu hun
      rw [h.others] at hu
      exact h.other_ne hu (hst.apart u (hother u hu) (withTunnels a ts env.now) huser
        t.proxyName hun (mem_withTunnels.2 (.inr (List.mem_map_of_mem ht))))
    · intro t ht hid u hu record hl
      rw [h.others] at hu
      obtain ⟨htc, hgone⟩ := h.gone_iff.2 ⟨ht, hid⟩
      exact hst.gone t htc hgone u (hother u hu) record hl
  · intro hr
    have hc : NoDash (candidate s.config i a ts env.now) := by
      intro t ht
      rcases (mem_candidate_tunnels env.now h.place).1 ht with ht | ht
      · exact hr.clean t ht
      · obtain ⟨u, hu, htu⟩ := List.mem_flatMap.1 ht
        exact hbefore.clean t (mem_tunnels (h.place.mem_other hu) htu)
    have hlook := lookup_withTunnels h.accepted.names a env.now
    refine ⟨hc, ?_, fun u hu name hn => ?_, fun t ht hid u hu record hl => ?_,
      fun u hu t ht record hl => ?_⟩
    · have hkey : ∀ u ∈ pre ++ post, ∀ name, name ∈ u.trafficByProxy →
          name ∉ (withTunnels a ts env.now).trafficByProxy := by
        intro u hu name hun hm
        rcases mem_withTunnels.1 hm with hm | hm
        · exact h.other_ne hu ((hbefore.recorded u (h.place.mem_other hu)).owner_unique
            (hbefore.recorded a h.place.mem) hun hm)
        · obtain ⟨t, ht, rfl⟩ := List.mem_map.1 hm
          exact hr.unshared t ht u (by rw [h.others]; exact hu) hun
      intro u hu v hv name hun hvn
      rcases (mem_candidate_users env.now h.place).1 hu with rfl | hu <;>
        rcases (mem_candidate_users env.now h.place).1 hv with rfl | hv
      · rfl
      · exact absurd hun (hkey v hv name hvn)
      · exact absurd hvn (hkey u hu name hun)
      · exact (hbefore.recorded u (h.place.mem_other hu)).owner_unique
          (hbefore.recorded v (h.place.mem_other hv)) hun hvn
    · rw [h.place.users] at hu
      simp only [List.mem_append, List.mem_cons] at hu
      rcases hu with hu | rfl | hu
      · exact ⟨u, hother u (List.mem_append_left _ hu), hn⟩
      · exact ⟨_, huser, mem_withTunnels.2 (.inl hn)⟩
      · exact ⟨u, hother u (List.mem_append_right _ hu), hn⟩
    · obtain ⟨hta, hts⟩ := h.gone_iff.1 ⟨ht, hid⟩
      rcases (mem_candidate_users env.now h.place).1 hu with rfl | hu
      · -- no accepted tunnel has the name of a dropped one: its row would have met the stale one
        have hnone : ts.find? (fun o => o.proxyName = t.proxyName) = none := by
          refine List.find?_eq_none.2 fun o ho he => ?_
          rw [decide_eq_true_eq] at he
          obtain ⟨db, hs⟩ := h.resaved.snapshot hc
          refine not_mem_staleNames hs.written (newIn_empty.1
            h.resaved.rewritten.valid.distinct.tunnels.ids) (t := o) ?_
            ((hs.stale _).2 ⟨t, ht, hid, he.symm⟩)
          rw [h.resaved.tunnels hc]
          exact (mem_candidate_tunnels env.now h.place).2 (.inl ho)
        rw [hlook, activated, hnone] at hl
        simp only [Assoc.lookup_mapVals, Option.map_eq_some_iff] at hl
        obtain ⟨record, -, rfl⟩ := hl
        rfl
      · exact hr.gone t hta hts u (by rw [h.others]; exact hu) record hl
    · rcases (mem_candidate_users env.now h.place).1 hu with rfl | hu
      · have hsome : (ts.find? fun o => o.proxyName = t.proxyName).isSome = true :=
          List.find?_isSome.2 ⟨t, ht, decide_eq_true rfl⟩
        obtain ⟨o, ho⟩ := Option.isSome_iff_exists.1 hsome
        rw [hlook, activated, ho, Option.some.injEq] at hl
        rw [← hl]
      · exact hbefore.flagged u (h.place.mem_other hu) t ht record hl

end

/-! ## The save of a rollback -/

theorem originalSave (h : CandidateSave P s i pre a post env ts disk stored)
    (hr : Retold s.config i a ts) {disk' : Disk} {original : ServerConfig} {e' : Entropy}
    (hsave : save P disk { s.config with revision := stored.revision } env.second =
      (disk', .ok (original, e'))) :
    Resaved P disk stored { s.config with revision := stored.revision } env.second.uuids disk'
      original := by
  have hst := (candidate_storable_iff h).2 hr
  have hv := h.resaved.before.valid.withRevision stored.revision
  refine ⟨h.resaved.mirrored hst.clean hst, h.resaved.logins'.symm, hv.names,
    save_rewritten h.resaved.rewritten.holds.settings hv.settings hv.users hv.sorted hsave⟩

/-- **What the save of the original asks for** after a candidate that was retold. -/
theorem original_storable_iff (h : CandidateSave P s i pre a post env ts disk stored)
    (hr : Retold s.config i a ts) :
    Storable stored { s.config with revision := stored.revision } ↔ Undone a ts := by
  have hbefore := h.resaved.before
  have hst := (candidate_storable_iff h).2 hr
  have hus := h.resaved.users hst.clean
  have htun := h.resaved.tunnels hst.clean
  have hcases : ∀ u ∈ s.config.users, u = a ∨ u ∈ othersOf s.config i := by
    intro u hu
    rw [h.place.users] at hu
    rw [h.others]
    simp only [List.mem_append, List.mem_cons] at hu ⊢
    tauto
  -- the tunnels that are new are the accepted ones under a new id
  have hnew : ∀ t, (t ∈ stored.tunnels ∧ t.id ∉ s.config.tunnels.map (·.id)) ↔
      t ∈ ts ∧ t.id ∉ a.tunnels.map (·.id) := by
    intro t
    rw [htun, mem_candidate_tunnels env.now h.place]
    have hforeign := h.noForeign
    rw [NoForeignId, h.others] at hforeign
    refine ⟨?_, ?_⟩
    · rintro ⟨ht | ht, hid⟩
      · refine ⟨ht, fun hm => hid ?_⟩
        obtain ⟨o, ho, e⟩ := List.mem_map.1 hm
        exact List.mem_map.2 ⟨o, mem_tunnels h.place.mem ho, e⟩
      · obtain ⟨u, hu, htu⟩ := List.mem_flatMap.1 ht
        exact absurd (List.mem_map_of_mem (mem_tunnels (h.place.mem_other hu) htu)) hid
    · intro hx
      obtain ⟨ht, hid⟩ := hx
      refine ⟨.inl ht, fun hm => ?_⟩
      obtain ⟨o, ho, e⟩ := List.mem_map.1 hm
      rcases List.mem_append.1 (h.place.tunnels_perm.mem_iff.1 ho) with ho | ho
      · exact hid (List.mem_map.2 ⟨o, ho, e⟩)
      · obtain ⟨u, hu, hou⟩ := List.mem_flatMap.1 ho
        exact hforeign t ht u hu o hou e
  have huser : withTunnels a ts env.now ∈ stored.users := by
    rw [hus]; exact (mem_candidate_users env.now h.place).2 (.inl rfl)
  refine ⟨?_, ?_⟩
  · intro hso t ht
    obtain ⟨v, hv, hvn⟩ := hso.covered _ huser t.proxyName
      (mem_withTunnels.2 (.inr (List.mem_map_of_mem ht)))
    rcases hcases v hv with rfl | hvo
    · obtain ⟨record, hl⟩ := Assoc.mem_iff_exists.1 hvn
      refine ⟨record, hl, fun hid => ?_⟩
      obtain ⟨hts, hgone⟩ := (hnew t).2 ⟨ht, hid⟩
      exact hso.gone t hts hgone v hv record hl
    · exact absurd hvn (hr.unshared t ht v hvo)
  · intro hun
    refine ⟨hbefore.clean, fun u hu v hv name hun hvn =>
      (hbefore.recorded u hu).owner_unique (hbefore.recorded v hv) hun hvn, fun u hu name hn => ?_,
      fun t ht hid u hu record hl => ?_, hbefore.flagged⟩
    · rw [hus] at hu
      rcases (mem_candidate_users env.now h.place).1 hu with rfl | hu
      · rcases mem_withTunnels.1 hn with hn | hn
        · exact ⟨a, h.place.mem, hn⟩
        · obtain ⟨t, ht, rfl⟩ := List.mem_map.1 hn
          obtain ⟨record, hl, -⟩ := hun t ht
          exact ⟨a, h.place.mem, Assoc.mem_iff_exists.2 ⟨record, hl⟩⟩
      · exact ⟨u, h.place.mem_other hu, hn⟩
    · obtain ⟨hts, hida⟩ := (hnew t).1 ⟨ht, hid⟩
      rcases hcases u hu with rfl | huo
      · obtain ⟨record', hl', hact⟩ := hun t hts
        rw [hl, Option.some.injEq] at hl'
        rw [hl']
        exact hact hida
      · exact absurd (Assoc.mem_iff_exists.2 ⟨record, hl⟩) (hr.unshared t hts u huo)

end

/-! ## The save of a flush -/

section
variable {P : Primitives} {disk disk' : Disk} {c stored : ServerConfig} {pending : Pending}
  {e e' : Entropy}

theorem accountedSave (h : Mirrored P disk c)
    (hsave : save P disk (accounted c pending) e = (disk', .ok (stored, e'))) :
    Resaved P disk c (accounted c pending) e.uuids disk' stored := by
  have hv := h.valid
  refine ⟨h, accounted_column (·.login) (fun _ _ _ => rfl) c pending, ?_, ?_⟩
  · rw [accounted_tunnels]; exact hv.names
  · exact save_rewritten h.holds.settings hv.settings (accounted_userOk hv pending)
      (accounted_sorted hv pending) hsave

/-- **What the save of a flush asks for.** -/
theorem accounted_storable_iff (h : Mirrored P disk c) :
    Storable c (accounted c pending) ↔ Apart (accounted c pending) := by
  refine ⟨fun hst => hst.apart, fun ha => ⟨?_, ha, fun u hu name hn => ?_, fun t ht hid => ?_,
    fun u hu t ht record hl => ?_⟩⟩
  · rw [NoDash, accounted_tunnels]; exact h.clean
  · refine ⟨accountUser pending u, List.mem_map_of_mem hu, Assoc.mem_iff_exists.2 ?_⟩
    rcases lookup_accountUser pending u name with hl | ⟨record, hl, -⟩
    · rw [hl]; exact Assoc.mem_iff_exists.1 hn
    · exact ⟨record, hl⟩
  · rw [accounted_tunnels] at hid
    exact absurd (List.mem_map_of_mem ht) hid
  · obtain ⟨v, hv, rfl⟩ := List.mem_map.1 hu
    rw [accountUser_fields] at ht
    rcases lookup_accountUser pending v t.proxyName with hl' | ⟨record', hl', hact⟩
    · exact h.flagged v hv t ht record (hl'.symm.trans hl)
    · rw [hl, Option.some.injEq] at hl'
      rw [hl']
      exact hact

end

/-! ## A directory left behind -/

section
variable {P : Primitives} {disk disk' : Disk} {c c' : ServerConfig}

/-- Nothing is saved under another revision. -/
theorem not_saved {e e' : Entropy} {row : SettingsRow} (hset : disk.db.settings = some row)
    (hne : row.revision ≠ c.revision) : save P disk c e ≠ (disk', .ok (c', e')) := by
  intro h
  obtain ⟨disk₁, e₁, hs⟩ := save_saved h
  obtain ⟨row', hrow, hrev⟩ := hs.current
  rw [(initializeStore_initialized hset hs.initialized).1.settings, hset] at hrow
  cases hrow
  exact hne hrev

/-- A save that is refused does not touch a mirrored directory. -/
theorem mirrored_unsaved (h : Mirrored P disk c) (hu : Unsaved P disk disk') : disk' = disk := by
  rcases hu with rfl | ⟨c, e, error, hs⟩
  · rfl
  · unfold save at hs
    rw [initializeStore_settled h.holds h.unrecoverable] at hs
    simp only at hs
    split at hs
    · cases hs; rfl
    split at hs
    · cases hs; rfl
    · cases hs

end

section
variable {τ : Type} [Double τ] {P : Primitives} {s : Server τ} {i : Nat} {a : ServerUser}
  {action : Action} {env : Env} {ts ts' : List Tunnel} {disk disk' : Disk}
  {stored stored' : ServerConfig}

omit [Double τ] in
theorem StoredBy.unique (h : StoredBy P s i a action env ts disk stored)
    (h' : StoredBy P s i a action env ts' disk' stored') : ts' = ts ∧ disk' = disk ∧ stored' = stored := by
  obtain ⟨⟨tunnels, d, rfl, hn⟩, e, hs⟩ := h
  obtain ⟨⟨tunnels', d', ha, hn'⟩, e', hs'⟩ := h'
  cases ha
  rw [hn] at hn'
  cases hn'
  rw [hs] at hs'
  cases hs'
  exact ⟨rfl, rfl, rfl⟩

theorem Behind.unstored (h : Behind s) (i : Nat) (a : ServerUser) (action : Action) (env : Env) :
    ending P s i a action env = .unstored ∧ ∃ disk, Unsaved P s.disk disk ∧
      (tunnelsRequest P s i a action env).1 = { s with disk := disk } := by
  obtain ⟨row, hset, hne⟩ := h
  have hnot : ∀ {ts disk stored}, ¬ StoredBy P s i a action env ts disk stored := by
    intro ts disk stored hx
    obtain ⟨-, e, hsave⟩ := hx
    exact not_saved (c := candidate s.config i a ts env.now) hset hne hsave
  rcases @ending_cases τ _ P s i a env action with h | ⟨ts, disk, stored, -, hst, -⟩ |
    ⟨ts, disk, stored, k, disk', original, e', -, hst, -⟩ | ⟨ts, disk, stored, k, disk', error, -, hst, -⟩
  · exact h
  · exact absurd hst hnot
  · exact absurd hst hnot
  · exact absurd hst hnot

/-! ## Every event -/

/-- A list that was stored by an event that retells has been retold. -/
theorem Retells.retold {i : Nat} {a : ServerUser} (h : Retells P s (.request i action env))
    (hget : s.config.users[i]? = some a) (hst : StoredBy P s i a action env ts disk stored)
    (hne : ending P s i a action env ≠ .unstored) : Retold s.config i a ts := by
  have hr := h a hget
  rcases @ending_cases τ _ P s i a env action with ⟨he, -⟩ | ⟨ts', disk', stored', he, hst', -⟩ |
    ⟨ts', disk', stored', k, disk₂, original, e', he, hst', -⟩ |
    ⟨ts', disk', stored', k, disk₂, error, he, hst', -⟩
  · exact absurd he hne
  all_goals
    obtain ⟨rfl, -, -⟩ := hst.unique hst'
    rw [he] at hr
  · exact hr
  · exact hr.1
  · exact hr

/-- **The saves of a request are read back exactly when it retells.** -/
theorem request_roundTrip_iff (hm : Mirrored P s.disk s.config) (i : Nat) (action : Action) (env : Env) :
    (∀ disk c, Stores P s (.request i action env) disk c → RoundTrips P disk c) ↔
      Retells P s (.request i action env) := by
  refine ⟨?_, ?_⟩
  · intro hall a hget
    obtain ⟨pre, post, hat⟩ := exists_at hget
    have hfirst : ∀ {ts disk stored}, ending P s i a action env ≠ .unstored →
        StoredBy P s i a action env ts disk stored → Retold s.config i a ts := fun hne hst =>
      have hcs := candidateSave hm hat hst
      (candidate_storable_iff hcs).1 (hcs.resaved.storable (hall _ _ (.candidate hget hne hst)))
    rcases @ending_cases τ _ P s i a env action with ⟨he, -⟩ | ⟨ts, disk, stored, he, hst, -⟩ |
      ⟨ts, disk, stored, k, disk', original, e', he, hst, -, hsave, hs'⟩ |
      ⟨ts, disk, stored, k, disk', error, he, hst, -⟩
    · rw [he]; trivial
    · rw [he]
      exact hfirst (by rw [he]; exact Ending.noConfusion) hst
    · rw [he]
      have hr := hfirst (by rw [he]; exact Ending.noConfusion) hst
      have hback := hall _ _ (.original hget he)
      rw [hs'] at hback
      have hcs := candidateSave hm hat hst
      exact ⟨hr, (original_storable_iff hcs hr).1 ((originalSave hcs hr hsave).storable hback)⟩
    · rw [he]
      exact hfirst (by rw [he]; exact Ending.noConfusion) hst
  · intro hr disk c hs
    cases hs with
    | candidate hget hne hst =>
      obtain ⟨pre, post, hat⟩ := exists_at hget
      have hcs := candidateSave hm hat hst
      exact hcs.resaved.roundTrips_iff.2 ((candidate_storable_iff hcs).2 (hr.retold hget hst hne))
    | @original i a action env ts hget he =>
      obtain ⟨pre, post, hat⟩ := exists_at hget
      have hboth := hr a hget
      rw [he] at hboth
      rcases @ending_cases τ _ P s i a env action with ⟨he', -⟩ | ⟨ts', disk, stored, he', -⟩ |
        ⟨ts', disk, stored, k, disk', original, e', he', hst, -, hsave, hs'⟩ |
        ⟨ts', disk, stored, k, disk', error, he', -⟩ <;> rw [he] at he' <;> cases he'
      rw [hs']
      have hcs := candidateSave hm hat hst
      exact (originalSave hcs hboth.1 hsave).roundTrips_iff.2
        ((original_storable_iff hcs hboth.1).2 hboth.2)

theorem flush_roundTrip_iff (hm : Mirrored P s.disk s.config) (pending : Pending) (e : Entropy) :
    (∀ disk c, Stores P s (.flush pending e) disk c → RoundTrips P disk c) ↔
      Retells P s (.flush pending e) := by
  refine ⟨?_, ?_⟩
  · intro hall hne hok
    cases hsave : save P s.disk (accounted s.config pending) e with
    | mk disk res =>
    cases res with
    | error error => rw [hsave] at hok; cases hok
    | ok r =>
      have hr := hall disk r.1 (.flushed hne hsave)
      exact (accounted_storable_iff hm).1 ((accountedSave hm hsave).storable hr)
  · intro hr disk c hs
    cases hs with
    | flushed hne hsave =>
      have ha := hr hne (by rw [hsave]; rfl)
      exact (accountedSave hm hsave).roundTrips_iff.2 ((accounted_storable_iff hm).2 ha)

/-- **The saves of an event are read back exactly when it retells.** -/
theorem stores_roundTrip_iff (h : InStep P s) (l : ServingEvent) :
    (∀ disk c, Stores P s l disk c → RoundTrips P disk c) ↔ Retells P s l := by
  rcases h with hm | hb
  · cases l with
    | request i action env => exact request_roundTrip_iff hm i action env
    | flush pending e => exact flush_roundTrip_iff hm pending e
  · -- nothing is stored
    cases l with
    | request i action env =>
      refine iff_of_true (fun disk c hs => ?_) fun a _ => ?_
      · cases hs with
        | candidate _ hne _ => exact absurd (hb.unstored i _ action env).1 hne
        | original _ he => rw [(hb.unstored i _ action env).1] at he; cases he
      · rw [(hb.unstored i a action env).1]; trivial
    | flush pending e =>
      obtain ⟨row, hset, hne⟩ := hb
      have hnot : ∀ {disk c e'}, save P s.disk (accounted s.config pending) e ≠ (disk, .ok (c, e')) :=
        not_saved (c := accounted s.config pending) hset hne
      refine iff_of_true (fun disk c hs => ?_) fun _ hok => ?_
      · cases hs with
        | flushed _ hsave => exact absurd hsave hnot
      · cases hsave : save P s.disk (accounted s.config pending) e with
        | mk disk res =>
        cases res with
        | error error => rw [hsave] at hok; cases hok
        | ok r => exact absurd hsave hnot

/-- **A sound event** leaves the server in step. -/
theorem Server.step_inStep {t : Server τ} {l : ServingEvent} (h : InStep P s) (hl : Sound P s l)
    (hst : Server.step P s l = some t) : InStep P t := by
  cases l with
  | request i action env =>
    obtain ⟨a, hget, ht⟩ := Option.bind_eq_some_iff.1 hst
    cases ht
    rcases h with hm | hb
    · obtain ⟨pre, post, hat⟩ := exists_at hget
      have hmirror : ∀ {ts disk stored}, ending P s i a action env ≠ .unstored →
          StoredBy P s i a action env ts disk stored → Mirrored P disk stored := fun hne hst =>
        have hcs := candidateSave hm hat hst
        have hso := (candidate_storable_iff hcs).2 (hl.retells.retold hget hst hne)
        hcs.resaved.mirrored hso.clean hso
      have hboth := hl.retells a hget
      rcases @ending_cases τ _ P s i a env action with ⟨he, disk, hun, hs'⟩ |
        ⟨ts, disk, stored, he, hst, hs'⟩ |
        ⟨ts, disk, stored, k, disk', original, e', he, hst, -, hsave, hs'⟩ |
        ⟨ts, disk, stored, k, disk', error, he, hst, -, hsave, hs'⟩ <;> rw [hs']
      · rw [mirrored_unsaved hm hun]; exact .inl hm
      · exact .inl (hmirror (by rw [he]; exact Ending.noConfusion) hst)
      · rw [he] at hboth
        have hcs := candidateSave hm hat hst
        have hso := (original_storable_iff hcs hboth.1).2 hboth.2
        exact .inl ((originalSave hcs hboth.1 hsave).mirrored hso.clean hso)
      · -- the candidate stays in the database under the next revision
        have hcs := candidateSave hm hat hst
        have hlt := hl.counted i action env a ts rfl hget he
        have hset := hcs.resaved.rewritten.holds.settings
        refine .inr ⟨_, (save_error hset hsave).1.settings.trans hset, ?_⟩
        show stored.revision ≠ s.config.revision
        have hrev : stored.revision = nextRevision s.config.revision := by
          rw [hcs.resaved.rewritten.eq]; rfl
        rw [hrev, nextRevision]
        omega
    · obtain ⟨-, disk, hun, hs'⟩ := hb.unstored (P := P) i a action env
      obtain ⟨row, hset, hne⟩ := hb
      rw [hs']
      exact .inr ⟨row, (hun.same hset).settings.trans hset, hne⟩
  | flush pending e =>
    cases hst
    rcases flushPending_cases (P := P) s.disk s.config pending e with
      ⟨-, hf⟩ | ⟨disk', error, hsave, hf⟩ | ⟨disk', stored, e', hne, hsave, hf⟩
    · rw [hf]; exact h
    · rw [hf]
      have hun : Unsaved P s.disk disk' := .inr ⟨_, _, error, hsave⟩
      rcases h with hm | ⟨row, hset, hne⟩
      · rw [mirrored_unsaved hm hun]; exact .inl hm
      · exact .inr ⟨row, (hun.same hset).settings.trans hset, hne⟩
    · rw [hf]
      rcases h with hm | ⟨row, hset, hbehind⟩
      · have ha := hl.retells hne (by rw [hsave]; rfl)
        have hso := (accounted_storable_iff hm).2 ha
        exact .inl ((accountedSave hm hsave).mirrored hso.clean hso)
      · exact absurd hsave (not_saved (c := accounted s.config pending) hset hbehind)

/-! ## Every run -/

theorem serving_inductive (hb : ∀ bytes, bytes ≠ [] → P.b64encode bytes ≠ []) :
    ((serving P : LTS (Server τ) ServingEvent).restrict (Sound P)).Inductive (InStep P) where
  init s h := by
    obtain ⟨disk, e, e', hk, hr⟩ := h.read
    exact .inl (read_mirrored hb hk hr h.clean h.flagged)
  step _ _ _ h hst := Server.step_inStep h hst.2 hst.1

/-- **Whatever is saved is read back**, in every run of sound events, exactly as long
as the events retell. -/
theorem saves_roundTrip_iff (hb : ∀ bytes, bytes ≠ [] → P.b64encode bytes ≠ [])
    (h : ((serving P).restrict (Sound P)).Reachable s) (l : ServingEvent) :
    (∀ disk c, Stores P s l disk c → RoundTrips P disk c) ↔ Retells P s l :=
  stores_roundTrip_iff ((serving_inductive hb).reachable s h) l

end

/-! ## A record and a tunnel of the same name -/

/-- A directory with nothing but the configuration. -/
theorem mirrored_ofConfig {c : ServerConfig} {disk : Disk} (hdb : disk.db = Db.ofConfig c)
    (hbackups : disk.backups = [])
    (hn : (normalizeLoadedConfig .plain c Draws.constant).toOption.map Prod.fst = some c)
    (hw : (writeSnapshot Db.empty c).isOk = true)
    (hdisj : ∀ u ∈ c.users, ∀ e ∈ u.trafficByProxy.entries, ∀ v ∈ c.users,
      e.1 ∈ v.trafficByProxy → v.account ≤ u.account) (hc : NoDash c)
    (hfree : ∀ u ∈ c.users, ∀ t ∈ u.tunnels, t.proxyName ∉ u.trafficByProxy) : Mirrored .plain disk c := by
  have hv := valid_of_fixed (d := Draws.constant) .plain hn
  refine ⟨hv, hc, ?_, ?_, fun u hu t ht record hl => ?_, fun u hu _ k hk => ?_⟩
  · rw [hdb]
    exact writeSnapshot_holds (Db.ofConfig_written hw) (newIn_empty.1 hv.distinct.ids)
      (newIn_empty.1 hv.distinct.tunnels.ids)
  · rw [hdb]
    exact recorded_ofConfig hv hw hdisj
  · exact absurd (Assoc.mem_iff_exists.2 ⟨record, hl⟩) (hfree u hu t ht)
  · rw [hbackups] at hk
    cases hk

theorem serverOf_started {c : ServerConfig}
    (hm : Mirrored .plain (serverOf c).disk (serverOf c).config)
    (he : reloaded (Db.ofConfig c) c = c) : Started .plain (serverOf c) := by
  have hread : Storage.read .plain (serverOf c).disk Entropy.constant =
      ((serverOf c).disk, .ok (c, ⟨Draws.constant,
        Entropy.constant.nonces.drop (serverOf c).disk.db.users.rows.length, Entropy.constant.salts⟩)) := by
    have hn : normalizeLoadedConfig .plain c Draws.constant = .ok (c, Draws.constant) :=
      normalize_self .plain hm.valid hm.clean Draws.constant
    rw [read_held hm.valid hm.holds hm.unrecoverable, show reloaded (serverOf c).disk.db
      (serverOf c).config = c from he, show Entropy.constant.uuids = Draws.constant from rfl, hn]
    rfl
  exact ⟨⟨_, _, _, kept_of_holds hm.valid hm.holds, hread⟩, hm.clean, hm.flagged⟩

/-- The owner of the record creates the tunnel again. -/
def ownerSaves : ServingEvent :=
  .request 1 saveX (freeEnv (storedX recordLast 1 (withRecord (sampleUser 'b' []))) recordLast)

theorem owner_readBack : ∃ disk c, Stores .plain (serverOf recordLast) ownerSaves disk c ∧
    RoundTrips .plain disk c := by
  have hm : Mirrored .plain (serverOf recordLast).disk (serverOf recordLast).config :=
    mirrored_ofConfig rfl rfl (by decide +kernel) (by decide +kernel) (by decide +kernel)
      (by decide +kernel) (by decide +kernel)
  have hend : ending .plain (serverOf recordLast) 1 (withRecord (sampleUser 'b' [])) saveX
      (freeEnv (storedX recordLast 1 (withRecord (sampleUser 'b' []))) recordLast) = .kept acceptedX := by
    decide +kernel
  obtain ⟨d, hacc⟩ := exists_of_fst (show (normalizeUserTunnels recordLast 1
    (withRecord (sampleUser 'b' [])) [sampleTunnel ['x'] 5 0] Draws.constant).toOption.map Prod.fst =
      some acceptedX by decide +kernel)
  obtain ⟨e, hsave⟩ := exists_of_fst (show (save .plain (Disk.ofConfig recordLast)
    (candidate recordLast 1 (withRecord (sampleUser 'b' [])) acceptedX 5)
      Entropy.constant).2.toOption.map Prod.fst =
        some (storedX recordLast 1 (withRecord (sampleUser 'b' []))) by decide +kernel)
  have hst : Stores .plain (serverOf recordLast) ownerSaves
      (diskX recordLast 1 (withRecord (sampleUser 'b' [])))
      (storedX recordLast 1 (withRecord (sampleUser 'b' []))) :=
    .candidate rfl (by rw [hend]; exact Ending.noConfusion)
      ⟨⟨_, d, rfl, hacc⟩, e, Prod.ext rfl hsave⟩
  refine ⟨_, _, hst, (saves_roundTrip_iff (fun bytes hne => by simpa [Primitives.plain] using hne)
    (LTS.reachable_init (serverOf_started hm (by decide +kernel))) ownerSaves).2 ?_ _ _ hst⟩
  rintro a hget
  cases hget
  rw [hend]
  exact ⟨by decide +kernel, by decide +kernel, fun t ht => by cases ht⟩

/-- Another user creates it, and the record changes hands. -/
def otherSaves : ServingEvent :=
  .request 1 saveX (freeEnv (storedX recordFirst 1 (sampleUser 'b' [])) recordFirst)

theorem other_not_readBack : Started .plain (serverOf recordFirst) ∧
    ¬ ∀ disk c, Stores .plain (serverOf recordFirst) otherSaves disk c → RoundTrips .plain disk c := by
  have hm : Mirrored .plain (serverOf recordFirst).disk (serverOf recordFirst).config :=
    mirrored_ofConfig rfl rfl (by decide +kernel) (by decide +kernel) (by decide +kernel)
      (by decide +kernel) (by decide +kernel)
  refine ⟨serverOf_started hm (by decide +kernel), fun h => ?_⟩
  have hr := (request_roundTrip_iff hm 1 saveX _).1 h (sampleUser 'b' []) rfl
  have hend : ending .plain (serverOf recordFirst) 1 (sampleUser 'b' []) saveX
      (freeEnv (storedX recordFirst 1 (sampleUser 'b' [])) recordFirst) = .kept acceptedX := by
    decide +kernel
  rw [hend] at hr
  exact hr.unshared (sampleTunnel ['x'] 5 20000) (by decide +kernel) (withRecord (sampleUser 'a' []))
    (by decide +kernel) (by decide +kernel)

end OrangeFrp.App
