import OrangeFrp.Storage.Store

/-!
# Traffic records in the database

`traffic_records` has the proxy name alone as its key, while the configuration
keeps a map of records for each user. A snapshot writes the users in the order
of their accounts, so a name that several maps have is left to the last of them.

* `lastWriter_iff`: with sorted accounts the last writer is the one with the
  greatest account.
* `find_written`, `find_unwritten`: the record of a name after a snapshot.
* `recorded_iff`: when a snapshot leaves a user its records.
* `readBack_iff`: when they are moreover read back with the flags they had.
-/
namespace OrangeFrp.Storage

open OrangeFrp.Core OrangeFrp.Core.Table

/-- The last user of the list with a record under the name. -/
def lastWriter (us : List ServerUser) (name : Str) : Option ServerUser :=
  us.reverse.find? fun u => name ∈ u.trafficByProxy

theorem lastWriter_cons (u : ServerUser) (us : List ServerUser) (name : Str) :
    lastWriter (u :: us) name =
      (lastWriter us name).or (if name ∈ u.trafficByProxy then some u else none) := by
  simp only [lastWriter, List.reverse_cons, List.find?_append, List.find?_cons, List.find?_nil]
  by_cases h : name ∈ u.trafficByProxy <;> simp [h]

theorem lastWriter_none_iff {us : List ServerUser} {name : Str} :
    lastWriter us name = none ↔ ∀ u ∈ us, name ∉ u.trafficByProxy := by
  simp [lastWriter]

theorem mem_of_lastWriter {us : List ServerUser} {name : Str} {u : ServerUser}
    (h : lastWriter us name = some u) : u ∈ us ∧ name ∈ u.trafficByProxy := by
  unfold lastWriter at h
  exact ⟨by simpa using List.mem_of_find?_eq_some h, of_decide_eq_true (by simpa using List.find?_some h)⟩

/-- **The last writer has the greatest account.** -/
theorem lastWriter_iff {us : List ServerUser} {name : Str} {u : ServerUser}
    (hs : us.Pairwise fun u v => u.account ≤ v.account) (hn : (us.map (·.account)).Nodup) :
    lastWriter us name = some u ↔
      u ∈ us ∧ name ∈ u.trafficByProxy ∧
        ∀ v ∈ us, name ∈ v.trafficByProxy → v.account ≤ u.account := by
  induction us with
  | nil => simp [lastWriter]
  | cons v us ih =>
    rw [List.pairwise_cons] at hs
    rw [List.map_cons, List.nodup_cons] at hn
    have ih := ih hs.2 hn.2
    rw [lastWriter_cons]
    cases hl : lastWriter us name with
    | none =>
      have hnone := lastWriter_none_iff.1 hl
      rw [Option.none_or]
      refine ⟨?_, ?_⟩
      · intro h
        split at h
        · rename_i hv
          cases h
          refine ⟨List.mem_cons_self, hv, fun w hw hwn => ?_⟩
          rcases List.mem_cons.1 hw with rfl | hw
          · exact le_rfl
          · exact absurd hwn (hnone w hw)
        · cases h
      · intro hand
        obtain ⟨hu, hun, -⟩ := hand
        rcases List.mem_cons.1 hu with rfl | hu
        · rw [if_pos hun]
        · exact absurd hun (hnone u hu)
    | some w =>
      rw [hl, Option.some.injEq] at ih
      rw [Option.some_or, Option.some.injEq]
      refine ⟨?_, ?_⟩
      · intro heq
        obtain rfl := heq
        obtain ⟨hw, hwn, hmax⟩ := ih.1 rfl
        refine ⟨List.mem_cons_of_mem _ hw, hwn, fun x hx hxn => ?_⟩
        rcases List.mem_cons.1 hx with rfl | hx
        · exact hs.1 w hw
        · exact hmax x hx hxn
      · intro hand
        obtain ⟨hu, hun, hmax⟩ := hand
        rcases List.mem_cons.1 hu with rfl | hu
        · -- a later writer would have the same account
          have hw := mem_of_lastWriter hl
          have he := le_antisymm (hmax w (List.mem_cons_of_mem _ hw.1) hw.2) (hs.1 w hw.1)
          exact absurd (List.mem_map.2 ⟨w, hw.1, he⟩) hn.1
        · exact ih.2 ⟨hu, hun, fun x hx => hmax x (List.mem_cons_of_mem _ hx)⟩

/-- The row a user writes under a name. -/
def rowOf (u : ServerUser) (name : Str) : Option TrafficRow :=
  (u.trafficByProxy.lookup name).map (TrafficRow.of u name)

theorem lastRow_append {R K : Type} [DecidableEq K] (S : Schema R K) (k : K) (l₁ l₂ : List R) :
    lastRow S k (l₁ ++ l₂) = (lastRow S k l₂).or (lastRow S k l₁) := by
  simp [lastRow, List.reverse_append, List.find?_append]

theorem lastRow_trafficRows (u : ServerUser) (name : Str) :
    lastRow trafficSchema name (trafficRows u) = rowOf u name := by
  apply Option.ext
  intro r
  have hkeys : ((trafficRows u).map trafficSchema.key).Nodup := by
    rw [trafficRows, List.map_map]
    exact u.trafficByProxy.nodupKeys
  have hmem : lastRow trafficSchema name (trafficRows u) = some r ↔
      r ∈ trafficRows u ∧ r.proxyName = name := by
    refine ⟨?_, ?_⟩
    · intro h
      have hk := List.find?_some h
      rw [decide_eq_true_eq] at hk
      exact ⟨by simpa using List.mem_of_find?_eq_some h, hk⟩
    · intro hx
      obtain ⟨hr, rfl⟩ := hx
      cases hf : lastRow trafficSchema r.proxyName (trafficRows u) with
      | none =>
        have := List.find?_eq_none.1 hf r (by simpa using hr)
        simp [trafficSchema] at this
      | some q =>
        have hq : q ∈ trafficRows u := by simpa using List.mem_of_find?_eq_some hf
        have hk := List.find?_some hf
        rw [decide_eq_true_eq] at hk
        rw [List.inj_on_of_nodup_map hkeys hq hr hk]
  rw [hmem, rowOf, Option.map_eq_some_iff, trafficRows, List.mem_map]
  refine ⟨?_, ?_⟩
  · intro hx
    obtain ⟨⟨e, he, rfl⟩, rfl⟩ := hx
    exact ⟨e.2, Assoc.mem_entries_iff.1 he, rfl⟩
  · intro hx
    obtain ⟨record, hl, rfl⟩ := hx
    exact ⟨⟨⟨name, record⟩, Assoc.mem_entries_iff.2 hl, rfl⟩, rfl⟩

theorem lastRow_users (us : List ServerUser) (name : Str) :
    lastRow trafficSchema name (us.flatMap trafficRows) =
      (lastWriter us name).bind fun u => rowOf u name := by
  induction us with
  | nil => rfl
  | cons u us ih =>
    rw [List.flatMap_cons, lastRow_append, ih, lastRow_trafficRows, lastWriter_cons]
    cases hl : lastWriter us name with
    | some w =>
      obtain ⟨record, hr⟩ := Assoc.mem_iff_exists.1 (mem_of_lastWriter hl).2
      simp [rowOf, hr]
    | none =>
      by_cases hu : name ∈ u.trafficByProxy
      · simp [hu]
      · have hnone : u.trafficByProxy.lookup name = none := by
          rw [AList.lookup_eq_none]; exact hu
        simp [hu, rowOf, hnone]

/-! ## The record of a name after a snapshot -/

/-- A row whose flag is cleared when a stale tunnel had its name. -/
def cleared (stale : List Str) (r : TrafficRow) : TrafficRow :=
  { r with active := r.active && r.proxyName ∉ stale }

section
variable {db db' : Db} {c : ServerConfig} (h : writeSnapshot db c = .ok db')
  (ht : (c.tunnels.map (·.id)).Nodup)
include h ht

/-- **A written name has the row of the user with the greatest account.** -/
theorem find_written (hs : c.users.Pairwise fun u v => u.account ≤ v.account)
    (hn : (c.users.map (·.account)).Nodup) {u : ServerUser} (hu : u ∈ c.users) {name : Str}
    {record : ProxyTrafficRecord} (hl : u.trafficByProxy.lookup name = some record)
    (hmax : ∀ v ∈ c.users, name ∈ v.trafficByProxy → v.account ≤ u.account) :
    db'.traffic.find name = some (cleared (staleNames db c) (TrafficRow.of u name record)) := by
  have hw := (lastWriter_iff hs hn).2 ⟨hu, Assoc.mem_iff_exists.2 ⟨record, hl⟩, hmax⟩
  rw [writeSnapshot_traffic h ht, lastRow_users, hw]
  simp [rowOf, hl, cleared]

/-- A name that no user writes keeps its row while the owner is there. -/
theorem find_unwritten {name : Str} (hno : ∀ u ∈ c.users, name ∉ u.trafficByProxy) :
    db'.traffic.find name = ((deleteMissingUsers db c.users).traffic.find name).map
      (cleared (staleNames db c)) := by
  rw [writeSnapshot_traffic h ht, lastRow_users, lastWriter_none_iff.2 hno]
  rfl

/-- A record after the snapshot was written by some user or stood there before. -/
theorem find_origin {name : Str} {r : TrafficRow} (hf : db'.traffic.find name = some r) :
    (∃ u ∈ c.users, ∃ record, u.trafficByProxy.lookup name = some record ∧
      r = cleared (staleNames db c) (TrafficRow.of u name record)) ∨
    ∃ r₀, (deleteMissingUsers db c.users).traffic.find name = some r₀ ∧
      (∀ u ∈ c.users, name ∉ u.trafficByProxy) ∧ r = cleared (staleNames db c) r₀ := by
  by_cases hno : ∀ u ∈ c.users, name ∉ u.trafficByProxy
  · rw [find_unwritten h ht hno, Option.map_eq_some_iff] at hf
    obtain ⟨r₀, h₀, rfl⟩ := hf
    exact .inr ⟨r₀, h₀, hno, rfl⟩
  · rw [writeSnapshot_traffic h ht, lastRow_users] at hf
    cases hl : lastWriter c.users name with
    | none => exact absurd (lastWriter_none_iff.1 hl) hno
    | some u =>
      have hu := mem_of_lastWriter hl
      obtain ⟨record, hr⟩ := Assoc.mem_iff_exists.1 hu.2
      refine .inl ⟨u, hu.1, record, hr, ?_⟩
      simpa [hl, rowOf, hr, cleared, eq_comm] using hf

end

/-- With an owner for every tunnel row, the stale names are those of the ids that are gone. -/
theorem mem_staleNames {db : Db} {c : ServerConfig}
    (ho : ∀ r ∈ db.tunnels.rows, r.userId ∈ c.users.map (·.id)) {name : Str} :
    name ∈ staleNames db c ↔
      ∃ r ∈ db.tunnels.rows, r.id ∉ c.tunnels.map (·.id) ∧ r.proxyName = name := by
  simp only [staleNames, deleteMissingUsers, Table.filter_rows, List.mem_map, List.mem_filter,
    decide_eq_true_eq]
  refine ⟨?_, ?_⟩
  · rintro ⟨r, ⟨⟨hr, -⟩, hid⟩, he⟩; exact ⟨r, hr, hid, he⟩
  · intro h
    obtain ⟨r, hr, hid, he⟩ := h
    have := List.mem_map.1 (ho r hr)
    exact ⟨r, ⟨⟨hr, by simp [this]⟩, hid⟩, he⟩

/-- No tunnel of the configuration has a stale name: its row was written while the
stale one was still there. -/
theorem not_mem_staleNames {db db' : Db} {c : ServerConfig} (h : writeSnapshot db c = .ok db')
    (ht : (c.tunnels.map (·.id)).Nodup) {t : Tunnel} (htc : t ∈ c.tunnels) :
    t.proxyName ∉ staleNames db c := by
  obtain ⟨-, m, -, -, htun, -, -⟩ := writeSnapshot_inv h
  have hkeys : ((c.users.flatMap tunnelRows).map tunnelSchema.key).Nodup := by
    rw [tunnelRows_keys]; exact ht
  intro hm
  obtain ⟨r, hr, he⟩ := List.mem_map.1 hm
  obtain ⟨hr, hid⟩ := List.mem_filter.1 hr
  rw [decide_eq_true_eq] at hid
  obtain ⟨u, hu, htu⟩ := List.mem_flatMap.1 htc
  have hold : r ∈ m.tunnels.rows := (Table.mem_upsertAll htun hkeys r).2
    (.inr ⟨hr, by rw [tunnelRows_keys]; exact hid⟩)
  have hnew : TunnelRow.of u.id t ∈ m.tunnels.rows := (Table.mem_upsertAll htun hkeys _).2
    (.inl (mem_tunnelRows.2 ⟨u, hu, t, htu, rfl⟩))
  have hne : r.id ≠ t.id := fun e => hid (e ▸ List.mem_map_of_mem htc)
  have hclash := m.tunnels.unique r hold _ hnew hne
  simp [tunnelSchema, TunnelRow.of, he] at hclash

/-! ## The records of one user -/

/-- The database holds exactly the records of the user. -/
def Recorded (db : Db) (u : ServerUser) : Prop :=
  ∀ r, r ∈ db.traffic.rows ∧ r.userId = u.id ↔
    ∃ name record, u.trafficByProxy.lookup name = some record ∧ r = TrafficRow.of u name record

/-- Every record stored for the user has a name that the user has. -/
def Covered (db : Db) (u : ServerUser) : Prop :=
  ∀ r ∈ db.traffic.rows, r.userId = u.id → r.proxyName ∈ u.trafficByProxy

theorem Recorded.covered {db : Db} {u : ServerUser} (h : Recorded db u) : Covered db u := by
  intro r hr hown
  obtain ⟨name, record, hl, rfl⟩ := (h r).1 ⟨hr, hown⟩
  exact Assoc.mem_iff_exists.2 ⟨record, hl⟩

theorem mem_traffic_iff {t : Table trafficSchema} {r : TrafficRow} :
    r ∈ t.rows ↔ t.find r.proxyName = some r := by
  rw [Table.find_eq_some]
  exact ⟨fun hr => ⟨hr, rfl⟩, fun hr => hr.1⟩

/-- Users whose records are held under one name are the same. -/
theorem Recorded.owner_unique {db : Db} {u v : ServerUser} (hu : Recorded db u)
    (hv : Recorded db v) {name : Str} (hun : name ∈ u.trafficByProxy)
    (hvn : name ∈ v.trafficByProxy) : u.id = v.id := by
  obtain ⟨x, hx⟩ := Assoc.mem_iff_exists.1 hun
  obtain ⟨y, hy⟩ := Assoc.mem_iff_exists.1 hvn
  have h₁ := ((hu _).2 ⟨name, x, hx, rfl⟩).1
  have h₂ := ((hv _).2 ⟨name, y, hy, rfl⟩).1
  exact congrArg TrafficRow.userId (db.traffic.eq_of_key h₁ h₂ rfl)

theorem lookup_trafficOf {db : Db} {userId name : Str} {record : ProxyTrafficRecord} :
    (db.trafficOf userId).lookup name = some record ↔
      ∃ r ∈ db.traffic.rows, r.userId = userId ∧ r.proxyName = name ∧
        r.toProxyTrafficRecord = record := by
  rw [← Assoc.mem_entries_iff]
  simp only [Db.trafficOf, List.mem_map, List.mem_filter, decide_eq_true_eq, Sigma.mk.injEq,
    heq_eq_eq]
  refine ⟨?_, ?_⟩
  · rintro ⟨r, ⟨hr, ho⟩, hn, hrec⟩; exact ⟨r, hr, ho, hn, hrec⟩
  · rintro ⟨r, hr, ho, hn, hrec⟩; exact ⟨r, ⟨hr, ho⟩, hn, hrec⟩

theorem trafficOf_congr {db db' : Db} {userId : Str}
    (h : ∀ r : TrafficRow, r.userId = userId → (r ∈ db'.traffic.rows ↔ r ∈ db.traffic.rows))
    (name : Str) : (db'.trafficOf userId).lookup name = (db.trafficOf userId).lookup name := by
  apply Option.ext
  intro record
  rw [lookup_trafficOf, lookup_trafficOf]
  refine exists_congr fun r => ?_
  by_cases ho : r.userId = userId
  · rw [h r ho]
  · simp [ho]

section
variable {db db' : Db} {c : ServerConfig} (h : writeSnapshot db c = .ok db')
  (ht : (c.tunnels.map (·.id)).Nodup) (hi : (c.users.map (·.id)).Nodup) {u : ServerUser}
  (hu : u ∈ c.users)
include h ht hi hu

/-- A record of a user after the snapshot was written by it or stood there before. -/
theorem find_own {name : Str} {r : TrafficRow} (hf : db'.traffic.find name = some r)
    (hown : r.userId = u.id) :
    (∃ record, u.trafficByProxy.lookup name = some record ∧
      r = cleared (staleNames db c) (TrafficRow.of u name record)) ∨
    ∃ r₀ ∈ db.traffic.rows, r₀.userId = u.id ∧ r₀.proxyName = name := by
  rcases find_origin h ht hf with ⟨v, hv, record, hl, rfl⟩ | ⟨r₀, h₀, -, rfl⟩
  · obtain rfl : v = u := List.inj_on_of_nodup_map hi hv hu hown
    exact .inl ⟨record, hl, rfl⟩
  · obtain ⟨hm, hk⟩ := Table.find_eq_some.1 h₀
    exact .inr ⟨r₀, List.mem_of_mem_filter hm, hown, hk⟩

/-- A snapshot stores nothing for a user under a name it does not have. -/
theorem Covered.written (hc : Covered db u) : Covered db' u := by
  intro r hr hown
  rcases find_own h ht hi hu (mem_traffic_iff.1 hr) hown with ⟨record, hl, -⟩ | ⟨r₀, h₀, ho, hk⟩
  · exact Assoc.mem_iff_exists.2 ⟨record, hl⟩
  · rw [← hk]
    exact hc r₀ h₀ ho

/-- **When a snapshot leaves a user its records**: no user with a later account has
one of the names, and no stale tunnel had the name of an active one. -/
theorem recorded_iff (hs : c.users.Pairwise fun u v => u.account ≤ v.account)
    (hn : (c.users.map (·.account)).Nodup) (hc : Covered db u) :
    Recorded db' u ↔ ∀ name record, u.trafficByProxy.lookup name = some record →
      (∀ v ∈ c.users, name ∈ v.trafficByProxy → v.account ≤ u.account) ∧
        (name ∈ staleNames db c → (TrafficRow.of u name record).active = false) := by
  have hclear : ∀ name record, cleared (staleNames db c) (TrafficRow.of u name record) =
      TrafficRow.of u name record ↔
        (name ∈ staleNames db c → (TrafficRow.of u name record).active = false) := by
    intro name record
    generalize hr : TrafficRow.of u name record = r
    obtain rfl : r.proxyName = name := by rw [← hr]; rfl
    by_cases hm : r.proxyName ∈ staleNames db c
    · obtain ⟨⟨_, _, _, _, active⟩, _, _⟩ := r
      cases active <;> simp_all [cleared]
    · simp [cleared, hm]
  refine ⟨?_, ?_⟩
  · intro hr name record hl
    have hf : db'.traffic.find name = some (TrafficRow.of u name record) :=
      mem_traffic_iff.1 ((hr _).2 ⟨name, record, hl, rfl⟩).1
    have hmax : ∀ v ∈ c.users, name ∈ v.trafficByProxy → v.account ≤ u.account := by
      -- the row has been written by the last writer, which is thus `u`
      have hw := writeSnapshot_traffic h ht name
      rw [lastRow_users] at hw
      cases hl' : lastWriter c.users name with
      | none => exact absurd (Assoc.mem_iff_exists.2 ⟨record, hl⟩) (lastWriter_none_iff.1 hl' u hu)
      | some w =>
        obtain ⟨hwm, hwn, hwmax⟩ := (lastWriter_iff hs hn).1 hl'
        obtain ⟨x, hx⟩ := Assoc.mem_iff_exists.1 hwn
        rw [hl'] at hw
        simp only [Option.bind_some, rowOf, hx, Option.map_some, Option.some_or] at hw
        have hid : u.id = w.id :=
          congrArg TrafficRow.userId (Option.some.inj (hf.symm.trans hw))
        obtain rfl := List.inj_on_of_nodup_map hi hu hwm hid
        exact hwmax
    refine ⟨hmax, (hclear name record).1 ?_⟩
    rw [find_written h ht hs hn hu hl hmax] at hf
    exact Option.some.inj hf
  · intro hall r
    refine ⟨?_, ?_⟩
    · intro hand
      obtain ⟨hr, hown⟩ := hand
      have hname := hc.written h ht hi hu r hr hown
      obtain ⟨record, hl⟩ := Assoc.mem_iff_exists.1 hname
      obtain ⟨hmax, hcl⟩ := hall _ record hl
      refine ⟨_, record, hl, ?_⟩
      have hf := mem_traffic_iff.1 hr
      rw [find_written h ht hs hn hu hl hmax, (hclear _ record).2 hcl] at hf
      exact (Option.some.inj hf).symm
    · intro hand
      obtain ⟨name, record, hl, rfl⟩ := hand
      obtain ⟨hmax, hcl⟩ := hall name record hl
      refine ⟨mem_traffic_iff.2 ?_, rfl⟩
      exact (find_written h ht hs hn hu hl hmax).trans (congrArg some ((hclear name record).2 hcl))

end

/-! ## The records as they are read back -/

/-- What is read back as the user's records is its map. -/
def ReadBack (db : Db) (u : ServerUser) : Prop :=
  ∀ name, (db.trafficOf u.id).lookup name = u.trafficByProxy.lookup name

/-- What lets a snapshot of `c` on `db` store the records of a user as they are: no later
user has one of the names, the flags are those that the snapshot sets, and no record
that stands under another name is the user's. -/
structure RecordsFit (db : Db) (c : ServerConfig) (u : ServerUser) : Prop where
  last : ∀ name ∈ u.trafficByProxy, ∀ v ∈ c.users, name ∈ v.trafficByProxy → v.account ≤ u.account
  flags : ∀ name record, u.trafficByProxy.lookup name = some record →
    (name ∈ u.tunnels.map (·.proxyName) → record.active = true) ∧
      (record.active = true → name ∉ staleNames db c)
  gone : ∀ r ∈ db.traffic.rows, r.userId = u.id → ∃ v ∈ c.users, r.proxyName ∈ v.trafficByProxy

theorem lookup_trafficOf_find {db : Db} {userId name : Str} {record : ProxyTrafficRecord} :
    (db.trafficOf userId).lookup name = some record ↔
      ∃ r, db.traffic.find name = some r ∧ r.userId = userId ∧ r.toProxyTrafficRecord = record := by
  rw [lookup_trafficOf]
  refine ⟨?_, ?_⟩
  · intro h
    obtain ⟨r, hr, ho, rfl, hrec⟩ := h
    exact ⟨r, mem_traffic_iff.1 hr, ho, hrec⟩
  · intro h
    obtain ⟨r, hf, ho, hrec⟩ := h
    obtain ⟨hr, hk⟩ := Table.find_eq_some.1 hf
    exact ⟨r, hr, ho, hk, hrec⟩

section
variable {db db' : Db} {c : ServerConfig} (h : writeSnapshot db c = .ok db')
  (ht : (c.tunnels.map (·.id)).Nodup) (hi : (c.users.map (·.id)).Nodup) {u : ServerUser}
  (hu : u ∈ c.users) (hs : c.users.Pairwise fun u v => u.account ≤ v.account)
  (hn : (c.users.map (·.account)).Nodup)
include h ht hi hu hs hn

/-- A name of the user that is read back for it has been written by no later user. -/
theorem last_of_readBack (hr : ReadBack db' u) {name : Str} (hname : name ∈ u.trafficByProxy) :
    ∀ v ∈ c.users, name ∈ v.trafficByProxy → v.account ≤ u.account := by
  obtain ⟨record, hl⟩ := Assoc.mem_iff_exists.1 hname
  obtain ⟨r, hf, hown, -⟩ := lookup_trafficOf_find.1 ((hr name).trans hl)
  cases hw : lastWriter c.users name with
  | none => exact absurd hname (lastWriter_none_iff.1 hw u hu)
  | some w =>
    obtain ⟨hwm, hwn, hwmax⟩ := (lastWriter_iff hs hn).1 hw
    obtain ⟨x, hx⟩ := Assoc.mem_iff_exists.1 hwn
    rw [find_written h ht hs hn hwm hx hwmax, Option.some.injEq] at hf
    have hid : w.id = u.id := by rw [← hown, ← hf]; rfl
    obtain rfl := List.inj_on_of_nodup_map hi hwm hu hid
    exact hwmax

/-- **When the records of a user are read back as they were.** -/
theorem readBack_iff : ReadBack db' u ↔ RecordsFit db c u := by
  have hwritten : ∀ {name record}, u.trafficByProxy.lookup name = some record →
      (∀ v ∈ c.users, name ∈ v.trafficByProxy → v.account ≤ u.account) →
      (db'.trafficOf u.id).lookup name = some { record with
        active := (name ∈ u.tunnels.map (·.proxyName) || record.active) && name ∉ staleNames db c } :=
    fun hl hmax => lookup_trafficOf_find.2 ⟨_, find_written h ht hs hn hu hl hmax, rfl, rfl⟩
  refine ⟨?_, ?_⟩
  · intro hr
    refine ⟨fun name hname => last_of_readBack h ht hi hu hs hn hr hname, fun name record hl => ?_,
      fun r hm hown => ?_⟩
    · have hback := hwritten hl (last_of_readBack h ht hi hu hs hn hr
        (Assoc.mem_iff_exists.2 ⟨record, hl⟩))
      rw [hr name, hl, Option.some.injEq] at hback
      have hact : record.active = _ := congrArg (·.active) hback
      refine ⟨?_, ?_⟩
      · intro hin
        refine hact.trans ?_
        obtain ⟨t, htu, he⟩ := List.mem_map.1 hin
        have hstale := not_mem_staleNames h ht (List.mem_flatMap.2 ⟨u, hu, htu⟩)
        rw [he] at hstale
        simp only [hin, decide_true, Bool.true_or, Bool.true_and, decide_eq_true_eq]
        exact hstale
      · intro ha
        rw [ha] at hact
        simpa using hact.symm
    · by_contra hno
      push Not at hno
      have hf : (deleteMissingUsers db c.users).traffic.find r.proxyName = some r := by
        refine Table.find_eq_some.2 ⟨List.mem_filter.2 ⟨hm, ?_⟩, rfl⟩
        simp [hown, List.mem_map_of_mem (f := (·.id)) hu]
      have hback := lookup_trafficOf_find.2 ⟨_, (find_unwritten h ht hno).trans
        (congrArg (Option.map _) hf), hown, rfl⟩
      rw [hr] at hback
      exact hno u hu (Assoc.mem_iff_exists.2 ⟨_, hback⟩)
  · intro hfit name
    cases hl : u.trafficByProxy.lookup name with
    | some record =>
      rw [hwritten hl (hfit.last name (Assoc.mem_iff_exists.2 ⟨record, hl⟩))]
      obtain ⟨hown, hstale⟩ := hfit.flags name record hl
      have hflag : ((name ∈ u.tunnels.map (·.proxyName) || record.active) &&
          name ∉ staleNames db c : Bool) = record.active := by
        cases ha : record.active with
        | true => simp [hstale ha]
        | false =>
          have hnot : name ∉ u.tunnels.map (·.proxyName) := fun hin => by
            rw [hown hin] at ha
            cases ha
          simp only [hnot, decide_false, Bool.or_false, Bool.false_and]
      rw [hflag]
    | none =>
      rw [Option.eq_none_iff_forall_ne_some]
      intro record hback
      obtain ⟨r, hf, hown, -⟩ := lookup_trafficOf_find.1 hback
      rcases find_origin h ht hf with ⟨v, hv, x, hx, rfl⟩ | ⟨r₀, h₀, hno, rfl⟩
      · obtain rfl : v = u := List.inj_on_of_nodup_map hi hv hu hown
        rw [hl] at hx
        cases hx
      · obtain ⟨hm, hk⟩ := Table.find_eq_some.1 h₀
        obtain ⟨v, hv, hvn⟩ := hfit.gone r₀ (List.mem_of_mem_filter hm) hown
        exact hno v hv (hk ▸ hvn)

end

/-- A first snapshot records the users when no name is written again by a later one. -/
theorem recorded_ofConfig {P : Primitives} {c : ServerConfig} (hv : Valid P c)
    (h : (writeSnapshot Db.empty c).isOk = true)
    (hdisj : ∀ u ∈ c.users, ∀ e ∈ u.trafficByProxy.entries, ∀ v ∈ c.users,
      e.1 ∈ v.trafficByProxy → v.account ≤ u.account) : ∀ u ∈ c.users, Recorded (Db.ofConfig c) u := by
  intro u hu
  refine (recorded_iff (Db.ofConfig_written h) (newIn_empty.1 hv.distinct.tunnels.ids)
    (newIn_empty.1 hv.distinct.ids) hu hv.sorted (newIn_empty.1 hv.distinct.accounts)
    fun r hr => by cases hr).2 fun name record hl => ⟨?_, fun hm => ?_⟩
  · exact hdisj u hu ⟨name, record⟩ (Assoc.mem_entries_iff.2 hl)
  · obtain ⟨r, hr, -⟩ := (mem_staleNames fun r hr => by cases hr).1 hm
    cases hr

end OrangeFrp.Storage
