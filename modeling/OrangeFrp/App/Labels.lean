import OrangeFrp.App.Ledger
import OrangeFrp.App.Isolation
import OrangeFrp.Storage.Traffic
import OrangeFrp.Storage.Processes

/-!
# The labels of traffic records

A traffic record carries the protocol and the public port of a tunnel and a flag
that says whether its user has that tunnel. Four places write them: the handler of a
save sets flags only, `add_event` and the flush take what the event says, and
`write_snapshot` clears the flags of the names whose tunnels are gone.

* `withTunnels_labelled_iff`: the records after a save are labelled exactly when no
  tunnel comes back under an old name with another protocol or port.
* `accountUser_labelled_iff`: those after a flush, exactly when the sums merged last
  under each name are those of a tunnel the user has. Which are the last is up to the
  `HashMap`; in every order they are, exactly when all sums are (`mergesCurrent_all_iff`).
* `writeSnapshot_labelled`: a labelled configuration is stored labelled.
* `labels_kept`: hence every run of such saves and flushes stays labelled, in memory
  and on the disk.
-/
namespace OrangeFrp.App

open OrangeFrp.Core OrangeFrp.Core.Table OrangeFrp.Storage OrangeFrp.Controller

/-! ## Labelled records -/

/-- The record has the protocol and the public port of the tunnel. -/
def Carries (record : ProxyTrafficRecord) (t : Tunnel) : Prop :=
  record.protocol = t.protocol ∧ record.remotePort = t.remotePort

/-- The record of a name is active exactly when a tunnel has the name, and is then
that tunnel's. -/
structure RecordLabelled (ts : List Tunnel) (name : Str) (record : ProxyTrafficRecord) : Prop where
  active : record.active = true ↔ ∃ t ∈ ts, t.proxyName = name
  carries : ∀ t ∈ ts, t.proxyName = name → Carries record t

def Labelled (u : ServerUser) : Prop :=
  ∀ name record, u.trafficByProxy.lookup name = some record → RecordLabelled u.tunnels name record

theorem RecordLabelled.congr {ts ts' : List Tunnel} (h : ∀ t, t ∈ ts ↔ t ∈ ts') {name : Str}
    {record : ProxyTrafficRecord} (hl : RecordLabelled ts name record) :
    RecordLabelled ts' name record := by
  refine ⟨hl.active.trans ?_, fun t ht => hl.carries t ((h t).2 ht)⟩
  exact exists_congr fun t => and_congr_left fun _ => h t

/-! ## A save -/

/-- No tunnel of the list stands under the name of a record with another protocol or
public port. -/
def KeepsPlaces (u : ServerUser) (ts : List Tunnel) : Prop :=
  ∀ t ∈ ts, ∀ record, u.trafficByProxy.lookup t.proxyName = some record → Carries record t

/-- **The records after a save.** -/
theorem withTunnels_labelled_iff {u : ServerUser} {ts : List Tunnel}
    (hn : (ts.map (·.proxyName)).Nodup) (now : Int) :
    Labelled (withTunnels u ts now) ↔ KeepsPlaces u ts := by
  have hlook := lookup_withTunnels hn u now
  have hfind : ∀ t ∈ ts, ts.find? (fun o => o.proxyName = t.proxyName) = some t := by
    intro t ht
    cases hf : ts.find? fun o => o.proxyName = t.proxyName with
    | none => exact absurd (List.find?_eq_none.1 hf t ht) (by simp)
    | some o =>
      have he : o.proxyName = t.proxyName := by simpa using List.find?_some hf
      rw [List.inj_on_of_nodup_map hn (List.mem_of_find?_eq_some hf) ht he]
  refine ⟨?_, ?_⟩
  · intro h t ht record hr
    have hl := h t.proxyName { record with active := true } (by
      rw [hlook, activated, hfind t ht, Assoc.lookup_mapVals, hr]
      rfl)
    exact hl.carries t ht rfl
  · intro h name record hr
    rw [hlook, activated] at hr
    split at hr
    · rename_i t hf
      have ht := List.mem_of_find?_eq_some hf
      have he : t.proxyName = name := by simpa using List.find?_some hf
      subst he
      rw [Assoc.lookup_mapVals, Option.some.injEq] at hr
      subst hr
      refine ⟨⟨fun _ => ⟨t, ht, rfl⟩, fun _ => rfl⟩, fun o ho he => ?_⟩
      obtain rfl := List.inj_on_of_nodup_map hn ho ht he
      cases hold : u.trafficByProxy.lookup o.proxyName with
      | none => exact ⟨rfl, rfl⟩
      | some old => exact h o ho old hold
    · rename_i hf
      have hnone : ∀ t ∈ ts, t.proxyName ≠ name := fun t ht he => by
        simpa [he] using List.find?_eq_none.1 hf t ht
      rw [Assoc.lookup_mapVals, Option.map_eq_some_iff] at hr
      obtain ⟨old, -, rfl⟩ := hr
      refine ⟨⟨fun ha => ?_, ?_⟩, fun t ht he => absurd he (hnone t ht)⟩
      · cases ha
      · intro hx
        obtain ⟨t, ht, he⟩ := hx
        exact absurd he (hnone t ht)

/-! ## A flush -/

/-- The sums that a flush merges last under a name, in the order in which it finds the
entries; one proxy may have sums under several protocols. -/
def lastMerged (entries : List ((_ : Str × Str) × PendingProxyTraffic)) (name : Str) :
    Option PendingProxyTraffic :=
  (entries.reverse.find? fun e => e.1.1 = name).map (·.2)

theorem lastMerged_snoc (entries : List ((_ : Str × Str) × PendingProxyTraffic))
    (e : (_ : Str × Str) × PendingProxyTraffic) (name : Str) :
    lastMerged (entries ++ [e]) name = if e.1.1 = name then some e.2 else lastMerged entries name := by
  unfold lastMerged
  rw [List.reverse_append, List.reverse_singleton, List.singleton_append, List.find?_cons]
  by_cases h : e.1.1 = name <;> simp [h]

/-- After a flush a record is the old one or carries the labels of the sums merged last. -/
theorem lookup_merged (entries : List ((_ : Str × Str) × PendingProxyTraffic))
    (traffic : Assoc Str ProxyTrafficRecord) (name : Str) :
    match lastMerged entries name with
    | none => (entries.foldl applyProxy traffic).lookup name = traffic.lookup name
    | some proxy => ∃ trafficIn trafficOut, (entries.foldl applyProxy traffic).lookup name =
        some ⟨proxy.protocol, proxy.publicPort, trafficIn, trafficOut, true⟩ := by
  induction entries using List.reverseRecOn with
  | nil => rfl
  | append_singleton entries e ih =>
    rw [lastMerged_snoc, List.foldl_append, List.foldl_cons, List.foldl_nil, applyProxy,
      Assoc.lookup_alter]
    by_cases h : e.1.1 = name
    · subst h
      rw [if_pos rfl, if_pos rfl]
      exact ⟨_, _, rfl⟩
    · rw [if_neg h, if_neg (Ne.symm h)]
      exact ih

/-- Under each name the sums merged last are those of a tunnel the user has. -/
def MergesCurrent (pending : Pending) (u : ServerUser) : Prop :=
  ∀ update, pending.lookup u.id = some update → ∀ name proxy,
    lastMerged update.perProxy.entries name = some proxy →
      ∃ t ∈ u.tunnels, t.proxyName = name ∧ proxy.protocol = t.protocol ∧
        proxy.publicPort = t.remotePort

/-- All sums are those of tunnels the user has. -/
def SumsCurrent (pending : Pending) (u : ServerUser) : Prop :=
  ∀ update ∈ pending.lookup u.id, ∀ e ∈ update.perProxy.entries, ∃ t ∈ u.tunnels,
    t.proxyName = e.1.1 ∧ e.2.protocol = t.protocol ∧ e.2.publicPort = t.remotePort

instance (pending : Pending) (u : ServerUser) : Decidable (SumsCurrent pending u) := by
  unfold SumsCurrent; infer_instance

theorem mergesCurrent_of_all {pending : Pending} {u : ServerUser} (h : SumsCurrent pending u) :
    MergesCurrent pending u := by
  intro update hup name proxy hlast
  obtain ⟨e, hf, rfl⟩ := Option.map_eq_some_iff.1 hlast
  have hname : e.1.1 = name := by simpa using List.find?_some hf
  obtain ⟨t, ht, he, hcar⟩ := h update hup e (by simpa using List.mem_of_find?_eq_some hf)
  exact ⟨t, ht, he.trans hname, hcar⟩

theorem SumsCurrent.reordered {order pending : Pending} {u : ServerUser} (h : SumsCurrent pending u)
    (ho : SameSums order pending) : SumsCurrent order u := by
  intro update hup e he
  have hl := ho.lookup u.id
  rw [show order.lookup u.id = some update from hup] at hl
  generalize hp : pending.lookup u.id = found at hl
  cases hl with
  | some hsame => exact h _ hp e (hsame.2.mem_iff.1 he)

/-- The entry goes to the end. -/
def mergedLast (e : (_ : Str × Str) × PendingProxyTraffic) (p : PendingTraffic) : PendingTraffic :=
  if h : e ∈ p.perProxy.entries then
    { p with perProxy :=
      ⟨p.perProxy.entries.erase e ++ [e],
        (List.perm_nodupKeys ((List.perm_append_singleton e _).trans (List.perm_cons_erase h).symm)).2
          p.perProxy.nodupKeys⟩ }
  else p

theorem mergedLast_same (e : (_ : Str × Str) × PendingProxyTraffic) (p : PendingTraffic) :
    SameUpdate (mergedLast e p) p := by
  unfold mergedLast
  split
  · rename_i h
    exact ⟨rfl, (List.perm_append_singleton e _).trans (List.perm_cons_erase h).symm⟩
  · exact .refl p

/-- **In every order** the sums merged last are current exactly when all sums are. -/
theorem mergesCurrent_all_iff {pending : Pending} {u : ServerUser} :
    (∀ order, SameSums order pending → MergesCurrent order u) ↔ SumsCurrent pending u := by
  refine ⟨fun h update hup e he => ?_, fun h order ho => mergesCurrent_of_all (h.reordered ho)⟩
  have hsame : SameSums (Assoc.mapVals (mergedLast e) pending) pending := by
    refine List.forall₂_map_left_iff.2 (List.forall₂_same.2 fun x _ => ⟨rfl, mergedLast_same e x.2⟩)
  obtain ⟨t, ht, hname, hcar⟩ := h _ hsame (mergedLast e update)
    (by rw [Assoc.lookup_mapVals, show pending.lookup u.id = some update from hup]; rfl) e.1.1 e.2 (by
      rw [mergedLast, dif_pos he, lastMerged_snoc, if_pos rfl])
  exact ⟨t, ht, hname, hcar⟩

/-- **The records after a flush.** -/
theorem accountUser_labelled_iff {u : ServerUser} (hn : (u.tunnels.map (·.proxyName)).Nodup)
    (hl : Labelled u) (pending : Pending) :
    Labelled (accountUser pending u) ↔ MergesCurrent pending u := by
  unfold MergesCurrent
  cases hp : pending.lookup u.id with
  | none =>
    have hself : accountUser pending u = u := by unfold accountUser; rw [hp]
    rw [hself]
    exact iff_of_true hl fun _ h => by cases h
  | some update =>
    have hmerged := lookup_merged update.perProxy.entries u.trafficByProxy
    have hacc : accountUser pending u = { u with
        trafficUsedBytes := satAdd u.trafficUsedBytes update.total
        trafficByProxy := update.perProxy.entries.foldl applyProxy u.trafficByProxy } := by
      unfold accountUser; rw [hp]
    rw [hacc]
    refine ⟨?_, ?_⟩
    · intro h _ hx name proxy hlast
      obtain ⟨⟩ := hx
      have hname := hmerged name
      rw [hlast] at hname
      obtain ⟨_, _, hlook⟩ := hname
      have hrec := h name _ hlook
      obtain ⟨t, ht, he⟩ := hrec.active.1 rfl
      exact ⟨t, ht, he, hrec.carries t ht he⟩
    · intro h name record hlook
      change (update.perProxy.entries.foldl applyProxy u.trafficByProxy).lookup name = _ at hlook
      have hname := hmerged name
      cases hlast : lastMerged update.perProxy.entries name with
      | none =>
        rw [hlast] at hname
        exact hl name record (hname.symm.trans hlook)
      | some proxy =>
        rw [hlast] at hname
        obtain ⟨_, _, hlook'⟩ := hname
        rw [hlook, Option.some.injEq] at hlook'
        subst hlook'
        obtain ⟨t, ht, he, hcar⟩ := h update rfl name proxy hlast
        refine ⟨⟨fun _ => ⟨t, ht, he⟩, fun _ => rfl⟩, fun o ho heo => ?_⟩
        rw [List.inj_on_of_nodup_map hn ho ht (heo.trans he.symm)]
        exact hcar

/-! ## A snapshot -/

/-- Every tunnel has a record under its name. -/
def Tracked (c : ServerConfig) : Prop :=
  ∀ u ∈ c.users, ∀ t ∈ u.tunnels, t.proxyName ∈ u.trafficByProxy

/-- The rows of the traffic table are labelled by the tunnels of their users. -/
structure DbLabelled (db : Db) : Prop where
  settings : db.settings.isSome = true
  names : ∀ r ∈ db.tunnels.rows, NameFor r.id r.proxyName
  rows : ∀ r ∈ db.traffic.rows,
    RecordLabelled (db.tunnelsOf r.userId) r.proxyName r.toProxyTrafficRecord

theorem DbLabelled.of_same {db db' : Db} (h : DbLabelled db) (hs : SameButPasswords db db') :
    DbLabelled db' := by
  refine ⟨by rw [hs.settings]; exact h.settings, by rw [hs.tunnels]; exact h.names, fun r hr => ?_⟩
  rw [hs.traffic] at hr
  unfold Db.tunnelsOf
  rw [hs.tunnels]
  exact h.rows r hr

section
variable {P : Primitives} {db db' : Db} {c : ServerConfig}

/-- A row that a user has written. -/
theorem written_labelled (hv : Valid P c) (h : writeSnapshot db c = .ok db') {u : ServerUser}
    (hu : u ∈ c.users) (hl : Labelled u) {name : Str} {record : ProxyTrafficRecord}
    (hr : u.trafficByProxy.lookup name = some record) :
    RecordLabelled u.tunnels name
      (cleared (staleNames db c) (TrafficRow.of u name record)).toProxyTrafficRecord := by
  have hrec := hl name record hr
  refine ⟨?_, hrec.carries⟩
  have hstale : (∃ t ∈ u.tunnels, t.proxyName = name) → name ∉ staleNames db c := by
    intro hx
    obtain ⟨t, ht, rfl⟩ := hx
    exact not_mem_staleNames h (newIn_empty.1 hv.distinct.tunnels.ids) (mem_tunnels hu ht)
  have hown : name ∈ u.tunnels.map (·.proxyName) ↔ ∃ t ∈ u.tunnels, t.proxyName = name :=
    List.mem_map
  simp only [cleared, TrafficRow.of, Bool.and_eq_true, decide_eq_true_eq, Bool.or_eq_true, hown,
    hrec.active, or_self]
  exact ⟨And.left, fun ht => ⟨ht, hstale ht⟩⟩

/-- A row that no user has written: its tunnel is gone, and the row is inactive. -/
theorem unwritten_labelled (hv : Valid P c) (hd : NoDash c) (ht : Tracked c)
    (h : writeSnapshot db c = .ok db') (hold : DbLabelled db) {name : Str} {r : TrafficRow}
    (hf : (deleteMissingUsers db c.users).traffic.find name = some r)
    (hno : ∀ u ∈ c.users, name ∉ u.trafficByProxy) :
    RecordLabelled (db'.tunnelsOf r.userId) name
      (cleared (staleNames db c) r).toProxyTrafficRecord := by
  have hholds := writeSnapshot_holds h (newIn_empty.1 hv.distinct.ids)
    (newIn_empty.1 hv.distinct.tunnels.ids)
  have hnone : ∀ t ∈ c.tunnels, t.proxyName ≠ name := by
    intro t htc heq
    obtain rfl := heq
    obtain ⟨u, hu, htu⟩ := List.mem_flatMap.1 htc
    exact hno u hu (ht u hu t htu)
  have hgone : ∀ t ∈ db'.tunnelsOf r.userId, t.proxyName ≠ name := by
    intro t htr
    obtain ⟨q, hq, -, rfl⟩ := mem_tunnelsOf.1 htr
    obtain ⟨u, hu, o, ho, rfl⟩ := (hholds.tunnels q).1 hq
    exact hnone o (mem_tunnels hu ho)
  refine ⟨⟨fun ha => ?_, fun ⟨t, htr, he⟩ => absurd he (hgone t htr)⟩,
    fun t htr he => absurd he (hgone t htr)⟩
  -- an active row had a tunnel, whose deletion has cleared the flag
  rw [Table.find_eq_some, deleteMissingUsers, Table.filter_rows, List.mem_filter] at hf
  obtain ⟨⟨hr, hkept⟩, rfl⟩ := hf
  simp only [cleared, Bool.and_eq_true, decide_eq_true_eq] at ha
  obtain ⟨t, htr, he⟩ := (hold.rows r hr).active.1 ha.1
  obtain ⟨q, hq, hown, rfl⟩ := mem_tunnelsOf.1 htr
  refine absurd ?_ ha.2
  show r.proxyName ∈ staleNames db c
  rw [← he]
  refine List.mem_map_of_mem (List.mem_filter.2 ⟨?_, decide_eq_true ?_⟩)
  · rw [deleteMissingUsers, Table.filter_rows, List.mem_filter, hown]
    exact ⟨hq, hkept⟩
  · intro hid
    obtain ⟨t, htc, hti⟩ := List.mem_map.1 hid
    refine hnone t htc ?_
    change t.proxyName = r.proxyName
    have hclean := hd t htc
    rw [(hv.names t htc).eq_of_clean hclean, ← he,
      (hold.names q hq).eq_of_clean (by rw [← hti]; exact hclean), hti]

/-- **A labelled configuration is stored labelled.** -/
theorem writeSnapshot_labelled (hv : Valid P c) (hd : NoDash c) (ht : Tracked c)
    (hl : ∀ u ∈ c.users, Labelled u) (h : writeSnapshot db c = .ok db') (hold : DbLabelled db) :
    DbLabelled db' := by
  have hids := newIn_empty.1 hv.distinct.ids
  have htids := newIn_empty.1 hv.distinct.tunnels.ids
  have hholds := writeSnapshot_holds h hids htids
  refine ⟨by rw [hholds.settings]; rfl, fun r hr => ?_, fun r hr => ?_⟩
  · obtain ⟨u, hu, t, htu, rfl⟩ := (hholds.tunnels r).1 hr
    exact hv.names t (mem_tunnels hu htu)
  · rcases find_origin h htids (mem_traffic_iff.1 hr) with ⟨u, hu, record, hrec, he⟩ | ⟨r₀, h₀, hno, he⟩
    · have hown : r.userId = u.id := by rw [he]; rfl
      have hlab := written_labelled hv h hu (hl u hu) hrec
      rw [← he] at hlab
      rw [hown]
      exact hlab.congr fun t => ((hholds.tunnelsOf_perm hids htids hu).mem_iff).symm
    · have hlab := unwritten_labelled hv hd ht h hold h₀ hno
      rw [← he] at hlab
      rwa [show r₀.userId = r.userId by rw [he]; rfl] at hlab

end

section
variable {P : Primitives} {disk disk' : Disk} {c c' : ServerConfig} {e e' : Entropy}

theorem save_labelled (hl : ∀ u ∈ c'.users, Labelled u) (ht : Tracked c') (hd : NoDash c')
    (h : save P disk c e = (disk', .ok (c', e'))) (hold : DbLabelled disk.db) :
    DbLabelled disk'.db := by
  obtain ⟨disk₁, e₁, hs⟩ := save_saved h
  obtain ⟨s, hset⟩ := Option.isSome_iff_exists.1 hold.settings
  exact writeSnapshot_labelled hs.valid hd ht hl hs.written
    (hold.of_same (initializeStore_initialized hset hs.initialized).1)

/-- Without ids that leave no cleaned form, what is stored has the users of the candidate. -/
theorem users_of_sameNames (h : List.Forall₂ SameButNames c.users c'.users)
    (hn : ∀ t ∈ c.tunnels, NameFor t.id t.proxyName) (hd : NoDash c) : c'.users = c.users :=
  eq_of_sameButNames h (fun _ hu t ht => hn t (mem_tunnels hu ht))
    fun _ hu t ht => hd t (mem_tunnels hu ht)

end

/-! ## The candidates -/

section
variable {P : Primitives} {c : ServerConfig} {i : Nat} {a : ServerUser} {pre post : List ServerUser}
  {ts : List Tunnel}

def NoDashList (ts : List Tunnel) : Prop := ∀ t ∈ ts, ¬ DashOnly t.id

theorem candidate_noDash (hd : NoDash c) (hat : At c i pre a post) (hts : NoDashList ts) (now : Int) :
    NoDash (candidate c i a ts now) := by
  intro t ht
  rcases (mem_candidate_tunnels now hat).1 ht with ht | ht
  · exact hts t ht
  · obtain ⟨u, hu, htu⟩ := List.mem_flatMap.1 ht
    exact hd t (mem_tunnels (hat.mem_other hu) htu)

theorem candidate_labelled_iff (hl : ∀ u ∈ c.users, Labelled u) (hat : At c i pre a post)
    (ha : AcceptedFor c i a ts) (now : Int) :
    (∀ u ∈ (candidate c i a ts now).users, Labelled u) ↔ KeepsPlaces a ts := by
  rw [← withTunnels_labelled_iff ha.names now]
  refine ⟨?_, ?_⟩
  · exact fun h => h _ ((mem_candidate_users now hat).2 (.inl rfl))
  · intro h u hu
    rcases (mem_candidate_users now hat).1 hu with rfl | hu
    · exact h
    · exact hl u (hat.mem_other hu)

theorem withTunnels_mem_iff (hn : (ts.map (·.proxyName)).Nodup) (now : Int) (name : Str) :
    name ∈ (withTunnels a ts now).trafficByProxy ↔
      name ∈ ts.map (·.proxyName) ∨ name ∈ a.trafficByProxy := by
  rw [Assoc.mem_iff_exists, lookup_withTunnels hn, activated]
  refine ⟨?_, ?_⟩
  · intro hx
    obtain ⟨record, h⟩ := hx
    split at h
    · rename_i t hf
      exact .inl (List.mem_map.2 ⟨t, List.mem_of_find?_eq_some hf, by simpa using List.find?_some hf⟩)
    · rw [Assoc.lookup_mapVals, Option.map_eq_some_iff] at h
      obtain ⟨old, h, -⟩ := h
      exact .inr (Assoc.mem_iff_exists.2 ⟨old, h⟩)
  · intro h
    split
    · exact ⟨_, rfl⟩
    · rename_i hf
      rcases h with h | h
      · obtain ⟨t, ht, he⟩ := List.mem_map.1 h
        simpa [he] using List.find?_eq_none.1 hf t ht
      · obtain ⟨old, h⟩ := Assoc.mem_iff_exists.1 h
        rw [Assoc.lookup_mapVals, h]
        exact ⟨_, rfl⟩

theorem candidate_tracked (h : Tracked c) (hat : At c i pre a post) (ha : AcceptedFor c i a ts)
    (now : Int) : Tracked (candidate c i a ts now) := by
  intro u hu t ht
  rcases (mem_candidate_users now hat).1 hu with rfl | hu
  · exact (withTunnels_mem_iff ha.names now _).2 (.inl (List.mem_map_of_mem ht))
  · exact h u (hat.mem_other hu) t ht

theorem accounted_labelled_iff (hv : Valid P c) (hl : ∀ u ∈ c.users, Labelled u) (pending : Pending) :
    (∀ u ∈ (accounted c pending).users, Labelled u) ↔ ∀ u ∈ c.users, MergesCurrent pending u := by
  have hiff : ∀ u ∈ c.users, Labelled (accountUser pending u) ↔ MergesCurrent pending u := fun u hu =>
    accountUser_labelled_iff
      (((tunnels_sublist hu).map (·.proxyName)).nodup (newIn_empty.1 hv.distinct.tunnels.names))
      (hl u hu) pending
  simp only [accounted, List.forall_mem_map]
  exact forall₂_congr hiff

theorem accounted_tracked (h : Tracked c) (pending : Pending) : Tracked (accounted c pending) := by
  intro u hu t ht
  obtain ⟨v, hv, rfl⟩ := List.mem_map.1 hu
  rw [accountUser_fields] at ht
  obtain ⟨old, hold⟩ := Assoc.mem_iff_exists.1 (h v hv t ht)
  rcases lookup_accountUser pending v t.proxyName with he | ⟨record, he, -⟩
  · exact Assoc.mem_iff_exists.2 ⟨old, he.trans hold⟩
  · exact Assoc.mem_iff_exists.2 ⟨record, he⟩

end

/-! ## Runs -/

section
variable {τ : Type} [Double τ] (P : Primitives)

/-- What keeps the labels right: a stored list has no id that leaves no cleaned form and
keeps the places of the records; what a stored flush merges last, in its order, is current;
other processes leave labelled rows. -/
def KeepsLabels (s : Ledger τ) : LedgerAct → Prop
  | .receive _ => True
  | .flush order e => order.entries ≠ [] →
    (save P s.server.disk (accounted s.server.config order) e).2.isOk = true →
      ∀ u ∈ s.server.config.users, MergesCurrent order u
  | .failedFlush => True
  | .request i action env => ∀ a ts disk stored, s.server.config.users[i]? = some a →
    StoredBy P s.server i a action env ts disk stored → NoDashList ts ∧ KeepsPlaces a ts
  | .write disk => DbLabelled disk.db

/-- Memory is labelled, and the disk too when `tracked` says that it was at first. -/
structure LabelsHold (tracked : Prop) (db : Db) (c : ServerConfig) : Prop where
  valid : Valid P c
  clean : NoDash c
  labelled : ∀ u ∈ c.users, Labelled u
  stored : tracked → Tracked c ∧ DbLabelled db

end

section
variable {P : Primitives} {tracked : Prop} {disk disk' : Disk} {c stored : ServerConfig}
  {e e' : Entropy}

/-- A labelled candidate that is stored. -/
theorem LabelsHold.saved (hsame : List.Forall₂ SameButNames c.users stored.users)
    (hn : ∀ t ∈ c.tunnels, NameFor t.id t.proxyName) (hd : NoDash c)
    (hl : ∀ u ∈ c.users, Labelled u) (ht : tracked → Tracked c ∧ DbLabelled disk.db)
    (h : save P disk c e = (disk', .ok (stored, e'))) : LabelsHold P tracked disk'.db stored := by
  have hus := users_of_sameNames hsame hn hd
  have hclean : NoDash stored := by
    rw [NoDash, ServerConfig.tunnels, hus]
    exact hd
  have hlab : ∀ u ∈ stored.users, Labelled u := by
    rw [hus]
    exact hl
  refine ⟨save_valid h, hclean, hlab, fun htr => ?_⟩
  have htracked : Tracked stored := by
    unfold Tracked
    rw [hus]
    exact (ht htr).1
  exact ⟨htracked, save_labelled hlab htracked hclean h (ht htr).2⟩

theorem LabelsHold.candidate {i : Nat} {a : ServerUser} {pre post : List ServerUser}
    {ts : List Tunnel} {now : Int} (hk : LabelsHold P tracked disk.db c) (hat : At c i pre a post)
    (ha : AcceptedFor c i a ts) (hts : NoDashList ts) (hkeep : KeepsPlaces a ts)
    (h : save P disk (candidate c i a ts now) e = (disk', .ok (stored, e'))) :
    LabelsHold P tracked disk'.db stored :=
  .saved (candidate_sameNames hk.valid hat ha h) (candidate_nameFor now hk.valid hat ha)
    (candidate_noDash hk.clean hat hts now) ((candidate_labelled_iff hk.labelled hat ha now).2 hkeep)
    (fun htr => ⟨candidate_tracked (hk.stored htr).1 hat ha now, (hk.stored htr).2⟩) h

theorem LabelsHold.accounted {pending : Pending} (hk : LabelsHold P tracked disk.db c)
    (hm : ∀ u ∈ c.users, MergesCurrent pending u)
    (h : save P disk (accounted c pending) e = (disk', .ok (stored, e'))) :
    LabelsHold P tracked disk'.db stored := by
  have htun := accounted_tunnels c pending
  refine .saved (accounted_sameNames hk.valid h) (by rw [htun]; exact hk.valid.names) ?_
    ((accounted_labelled_iff hk.valid hk.labelled pending).2 hm)
    (fun htr => ⟨accounted_tracked (hk.stored htr).1 pending, (hk.stored htr).2⟩) h
  rw [NoDash, htun]
  exact hk.clean

/-- The rollback stores the configuration in memory over the candidate. -/
theorem LabelsHold.original {db : Db} {mid : ServerConfig} {revision : Int}
    (hk : LabelsHold P tracked db c) (hmid : LabelsHold P tracked disk.db mid)
    (h : save P disk { c with revision := revision } e = (disk', .ok (stored, e'))) :
    LabelsHold P tracked disk'.db stored := by
  have hv := hk.valid.withRevision revision
  exact .saved (save_sameNames hv.settings hv.users hv.sorted h) hv.names hk.clean hk.labelled
    (fun htr => ⟨(hk.stored htr).1, (hmid.stored htr).2⟩) h

/-- A store that only recovers passwords. -/
theorem LabelsHold.same {db db' : Db} (hk : LabelsHold P tracked db c)
    (h : (tracked → db.settings.isSome = true) → tracked → SameButPasswords db db') :
    LabelsHold P tracked db' c :=
  ⟨hk.valid, hk.clean, hk.labelled, fun htr => ⟨(hk.stored htr).1,
    (hk.stored htr).2.of_same (h (fun htr => (hk.stored htr).2.settings) htr)⟩⟩

theorem LabelsHold.unsaved (hk : LabelsHold P tracked disk.db c) (h : Unsaved P disk disk') :
    LabelsHold P tracked disk'.db c := by
  refine hk.same fun hset htr => ?_
  obtain ⟨row, hrow⟩ := Option.isSome_iff_exists.1 (hset htr)
  exact h.same hrow

end

section
variable {τ : Type} [Double τ] {P : Primitives} {c : ServerConfig} {tracked : Prop} {s t : Ledger τ}

theorem request_labels (hk : LabelsHold P tracked s.server.disk.db s.server.config) {i : Nat}
    {a : ServerUser} {action : Action} {env : Env} (hi : s.server.config.users[i]? = some a)
    (hg : KeepsLabels P s (.request i action env)) :
    LabelsHold P tracked (tunnelsRequest P s.server i a action env).1.disk.db
      (tunnelsRequest P s.server i a action env).1.config := by
  obtain ⟨pre, post, hat⟩ := exists_at hi
  have hcand : ∀ {ts disk stored}, StoredBy P s.server i a action env ts disk stored →
      LabelsHold P tracked disk.db stored := by
    intro ts disk stored hst
    obtain ⟨hts, hkeep⟩ := hg a ts disk stored hi hst
    obtain ⟨⟨tunnels, d, -, hn⟩, e', hsave⟩ := hst
    exact hk.candidate hat (normalizeUserTunnels_ok hn) hts hkeep hsave
  rcases @ending_cases τ _ P s.server i a env action with ⟨-, disk, hun, h⟩ |
    ⟨ts, disk, stored, -, hst, h⟩ | ⟨ts, disk, stored, k, disk', original, e', -, hst, -, hsave, h⟩ |
    ⟨ts, disk, stored, k, disk', error, -, hst, -, hsave, h⟩ <;> rw [h]
  · exact hk.unsaved hun
  · exact hcand hst
  · exact hk.original (hcand hst) hsave
  · have hunsaved : Unsaved P disk disk' := .inr ⟨_, _, _, hsave⟩
    exact ⟨hk.valid, hk.clean, hk.labelled, fun htr =>
      ⟨(hk.stored htr).1, (((hcand hst).unsaved hunsaved).stored htr).2⟩⟩

/-- **Every step that meets the condition** keeps the labels. -/
theorem step_labels {l : LedgerAct} (hk : LabelsHold P tracked s.server.disk.db s.server.config)
    (hg : KeepsLabels P s l) (hst : s.step P l = some t) :
    LabelsHold P tracked t.server.disk.db t.server.config := by
  cases l with
  | receive event => cases hst; exact hk
  | failedFlush => cases hst; exact hk
  | write disk =>
    cases hst
    exact ⟨hk.valid, hk.clean, hk.labelled, fun htr => ⟨(hk.stored htr).1, hg⟩⟩
  | request i action env =>
    obtain ⟨a, hi, hst⟩ := Option.bind_eq_some_iff.1 hst
    cases hst
    exact request_labels hk hi hg
  | flush order e =>
    simp only [Ledger.step] at hst
    split at hst
    · cases hst
      unfold Ledger.flush
      rcases flushPending_cases (P := P) s.server.disk s.server.config order e with
        ⟨-, hf⟩ | ⟨disk', error, hsave, hf⟩ | ⟨disk', stored, e', hne, hsave, hf⟩ <;> rw [hf]
      · exact hk
      · exact hk.unsaved (.inr ⟨_, _, _, hsave⟩)
      · exact hk.accounted (hg hne (by rw [hsave]; rfl)) hsave
    · cases hst

/-- **Every run** of such steps keeps the labels. -/
theorem run_labels {acts : List LedgerAct}
    (h : ((ledger P c).restrict (KeepsLabels P)).Run s acts t)
    (hk : LabelsHold P tracked s.server.disk.db s.server.config) :
    LabelsHold P tracked t.server.disk.db t.server.config := by
  induction h with
  | nil => exact hk
  | cons hst _ ih => exact ih (step_labels hk hst.2 hst.1)

omit [Double τ] in
theorem stored_labelled_iff (hk : LabelsHold P tracked s.server.disk.db s.server.config) {i : Nat}
    {a : ServerUser} {action : Action} {env : Env} {ts : List Tunnel} {disk : Disk}
    {stored : ServerConfig} (hi : s.server.config.users[i]? = some a)
    (hst : StoredBy P s.server i a action env ts disk stored) (hts : NoDashList ts) :
    (∀ u ∈ stored.users, Labelled u) ↔ KeepsPlaces a ts := by
  obtain ⟨pre, post, hat⟩ := exists_at hi
  obtain ⟨⟨tunnels, d, -, hn⟩, e', hsave⟩ := hst
  have ha := normalizeUserTunnels_ok hn
  rw [users_of_sameNames (candidate_sameNames hk.valid hat ha hsave)
    (candidate_nameFor env.now hk.valid hat ha) (candidate_noDash hk.clean hat hts env.now)]
  exact candidate_labelled_iff hk.labelled hat ha env.now

omit [Double τ] in
theorem flushed_labelled_iff (hk : LabelsHold P tracked s.server.disk.db s.server.config)
    {order : Pending} {e e' : Entropy} {disk : Disk} {stored : ServerConfig}
    (hsave : save P s.server.disk (accounted s.server.config order) e = (disk, .ok (stored, e'))) :
    (∀ u ∈ stored.users, Labelled u) ↔ ∀ u ∈ s.server.config.users, MergesCurrent order u := by
  have htun := accounted_tunnels s.server.config order
  rw [users_of_sameNames (accounted_sameNames hk.valid hsave) (by rw [htun]; exact hk.valid.names)
    (by rw [NoDash, htun]; exact hk.clean)]
  exact accounted_labelled_iff hk.valid hk.labelled order

/-- **Records stay labelled** in memory, and where every tunnel has a record also on the
disk, in every run whose steps meet the condition; and then the next list or the next
flush that is stored, in whatever order of the sums, leaves them labelled exactly when it
meets the condition, too. -/
theorem labels_kept (hd : NoDash c) (hl : ∀ u ∈ c.users, Labelled u) {s₀ : Ledger τ}
    (h₀ : Ledger.Opened P c s₀) {acts : List LedgerAct}
    (h : ((ledger P c).restrict (KeepsLabels P)).Run s₀ acts s) :
    (∀ u ∈ s.server.config.users, Labelled u) ∧
    (Tracked c → DbLabelled s₀.server.disk.db → DbLabelled s.server.disk.db) ∧
    (∀ i a action env ts disk stored, s.server.config.users[i]? = some a →
      StoredBy P s.server i a action env ts disk stored → NoDashList ts →
        ((∀ u ∈ stored.users, Labelled u) ↔ KeepsPlaces a ts)) ∧
    ∀ order, SameSums order s.pending → ∀ e e' disk stored,
      save P s.server.disk (accounted s.server.config order) e = (disk, .ok (stored, e')) →
        ((∀ u ∈ stored.users, Labelled u) ↔
          ∀ u ∈ s.server.config.users, MergesCurrent order u) := by
  have hk : LabelsHold P (Tracked c ∧ DbLabelled s₀.server.disk.db) s.server.disk.db
      s.server.config := by
    refine run_labels h ?_
    rw [h₀.config]
    exact ⟨h₀.valid, hd, hl, id⟩
  exact ⟨hk.labelled, fun ht hdb => (hk.stored ⟨ht, hdb⟩).2,
    fun i a action env ts disk stored hi hst hts => stored_labelled_iff hk hi hst hts,
    fun order _ e e' disk stored hsave => flushed_labelled_iff hk hsave⟩

end

/-! ## A tunnel with traffic, and one removed too early -/

/-- The tunnel has had traffic before. -/
def tracedTunnel : ServerConfig :=
  sampleConfig [{ sampleUser 'a' [sampleTunnel ['x'] 5 20000] with
    trafficByProxy := [⟨fgPrefix ++ ['x'], ⟨tcp, 5, 3, 4, true⟩⟩].toAList }]

def tracedLedger : Ledger Rat := ⟨⟨Disk.ofConfig tracedTunnel, tracedTunnel, none⟩, ∅, []⟩

theorem tracedTunnel_opened : Ledger.Opened .plain tracedTunnel tracedLedger :=
  ⟨rfl, valid_of_fixed (d := Draws.constant) .plain (by decide +kernel), rfl, rfl⟩

/-- The labels of one record, by evaluation. -/
theorem labelled_of_entries {u : ServerUser} (h : ∀ e ∈ u.trafficByProxy.entries,
    (e.2.active = true ↔ ∃ t ∈ u.tunnels, t.proxyName = e.1) ∧
      ∀ t ∈ u.tunnels, t.proxyName = e.1 → e.2.protocol = t.protocol ∧ e.2.remotePort = t.remotePort) :
    Labelled u := by
  intro name record hl
  obtain ⟨hactive, hcarries⟩ := h _ (Assoc.mem_entries_iff.2 hl)
  exact ⟨hactive, hcarries⟩

theorem tracedTunnel_labelled : ∀ u ∈ tracedTunnel.users, Labelled u := by
  intro u hu
  obtain rfl := List.mem_singleton.1 hu
  exact labelled_of_entries (by decide +kernel)

theorem tracedTunnel_tracked : Tracked tracedTunnel := by unfold Tracked; decide +kernel

theorem tracedTunnel_stored : DbLabelled (Disk.ofConfig tracedTunnel).db := by
  have hv := tracedTunnel_opened.valid
  have hholds : Holds (Disk.ofConfig tracedTunnel).db tracedTunnel :=
    writeSnapshot_holds (Db.ofConfig_written (by decide +kernel)) (newIn_empty.1 hv.distinct.ids)
      (newIn_empty.1 hv.distinct.tunnels.ids)
  have hrows : ∀ r ∈ (Disk.ofConfig tracedTunnel).db.traffic.rows,
      (r.active = true ↔ ∃ t ∈ (Disk.ofConfig tracedTunnel).db.tunnelsOf r.userId, t.proxyName = r.proxyName) ∧
        ∀ t ∈ (Disk.ofConfig tracedTunnel).db.tunnelsOf r.userId, t.proxyName = r.proxyName →
          r.protocol = t.protocol ∧ r.remotePort = t.remotePort := by decide +kernel
  refine ⟨rfl, fun r hr => ?_, fun r hr => ⟨(hrows r hr).1, (hrows r hr).2⟩⟩
  obtain ⟨u, hu, t, ht, rfl⟩ := (hholds.tunnels r).1 hr
  exact hv.names t (mem_tunnels hu ht)

/-- More traffic of the tunnel leaves its record active, in memory and on the disk. -/
theorem labels_kept_traffic : ∃ s : Ledger Rat,
    s.server.config.users.map (fun u => (u.trafficByProxy.lookup (fgPrefix ++ ['x'])).map (·.trafficInBytes)) =
      [some 13] ∧ (∀ u ∈ s.server.config.users, Labelled u) ∧ DbLabelled s.server.disk.db := by
  have hexec : (LTS.exec (Ledger.step Primitives.plain) tracedLedger
      [.receive (event .inbound 10), .flush (addEvent ∅ (event .inbound 10)) Entropy.constant]).map
        (fun s => s.server.config.users.map fun u =>
          (u.trafficByProxy.lookup (fgPrefix ++ ['x'])).map (·.trafficInBytes)) = some [some 13] := by
    decide +kernel
  obtain ⟨s, hs, he⟩ := Option.map_eq_some_iff.1 hexec
  obtain ⟨t, ht, hs⟩ := Option.bind_eq_some_iff.1 hs
  cases ht
  obtain ⟨t, ht, hs⟩ := Option.bind_eq_some_iff.1 hs
  cases hs
  have hmerges : ∀ u ∈ tracedTunnel.users, MergesCurrent (addEvent ∅ (event .inbound 10)) u := by
    intro u hu
    obtain rfl := List.mem_singleton.1 hu
    exact mergesCurrent_of_all (by decide +kernel)
  have hrun : ((ledger Primitives.plain tracedTunnel).restrict (KeepsLabels Primitives.plain)).Run tracedLedger
      [.receive (event .inbound 10), .flush (addEvent ∅ (event .inbound 10)) Entropy.constant] s :=
    .cons ⟨rfl, trivial⟩ (.cons ⟨ht, fun _ _ => hmerges⟩ (.nil s))
  have hclean : NoDash tracedTunnel := by
    intro t ht
    obtain rfl := List.mem_singleton.1 ht
    decide +kernel
  obtain ⟨hmemory, hdisk, -⟩ := labels_kept hclean tracedTunnel_labelled tracedTunnel_opened hrun
  exact ⟨s, he, hmemory, hdisk tracedTunnel_tracked tracedTunnel_stored⟩

def oneTunnelLedger : Ledger Rat := ⟨⟨Disk.ofConfig oneTunnel, oneTunnel, none⟩, ∅, []⟩

theorem oneTunnel_opened : Ledger.Opened .plain oneTunnel oneTunnelLedger :=
  ⟨rfl, valid_of_fixed (d := Draws.constant) .plain (by decide +kernel), rfl, rfl⟩

theorem oneTunnel_labelled : ∀ u ∈ oneTunnel.users, Labelled u := by
  intro u hu name record h
  obtain rfl := List.mem_singleton.1 hu
  cases h

/-- The tunnel is removed while its last bytes are still to be stored. -/
def removedTooEarly : List LedgerAct := [.receive (event .inbound 10),
  .request 0 (.save (some [])) (freeEnv oneTunnel oneTunnel),
  .flush (addEvent ∅ (event .inbound 10)) Entropy.constant]

theorem removed_tunnel_active : Ledger.Opened .plain oneTunnel oneTunnelLedger ∧
    (∀ u ∈ oneTunnel.users, Labelled u) ∧
    ∃ s : Ledger Rat, (ledger .plain oneTunnel).Run oneTunnelLedger removedTooEarly s ∧
      ¬ ∀ u ∈ s.server.config.users, Labelled u := by
  have hexec : (LTS.exec (Ledger.step Primitives.plain) oneTunnelLedger removedTooEarly).map
      (fun s => s.server.config.users.map fun u =>
        (u.tunnels, (u.trafficByProxy.lookup (fgPrefix ++ ['x'])).map (·.active))) =
      some [([], some true)] := by decide +kernel
  obtain ⟨s, hs, he⟩ := Option.map_eq_some_iff.1 hexec
  refine ⟨oneTunnel_opened, oneTunnel_labelled, s, LTS.run_of_exec hs, fun h => ?_⟩
  obtain ⟨u, hus, hu⟩ := List.map_eq_singleton_iff.1 he
  obtain ⟨htun, hrec⟩ := Prod.ext_iff.1 hu
  obtain ⟨record, hlook, hact⟩ := Option.map_eq_some_iff.1 hrec
  obtain ⟨t, ht, -⟩ := (h u (by rw [hus]; exact List.mem_singleton_self u) _ record hlook).active.1 hact
  rw [show u.tunnels = [] from htun] at ht
  cases ht

end OrangeFrp.App
