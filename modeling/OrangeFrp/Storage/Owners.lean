import OrangeFrp.Storage.Traffic

/-!
# Whose record a name is left with (`frp-game-server/src/storage.rs`)

A snapshot writes the records of all users under one key, so what it does to some of
them is told by the owner that each name is left with. `LeavesRecords` says this of one
snapshot or of several in a row.

* `writeSnapshot_leaves`, `LeavesRecords.followed`: one snapshot, and one after others.
* `LeavesRecords.same_iff`: when they leave the rows of some users as they were.
-/
namespace OrangeFrp.Storage

open OrangeFrp.Core OrangeFrp.Core.Table

/-- The user whose record a snapshot writes last under the name. -/
def lastOwner (us : List ServerUser) (name : Str) : Option Str := (lastWriter us name).map (·.id)

theorem lastOwner_congr {us vs : List ServerUser}
    (h : us.map (fun u => (u.id, u.trafficByProxy)) = vs.map fun u => (u.id, u.trafficByProxy))
    (name : Str) : lastOwner us name = lastOwner vs name := by
  have hcol : ∀ ws : List ServerUser, lastOwner ws name =
      ((ws.map fun u => (u.id, u.trafficByProxy)).reverse.find? fun e => name ∈ e.2).map (·.1) := by
    intro ws
    rw [← List.map_reverse, List.find?_map, Option.map_map]
    rfl
  rw [hcol, hcol, h]

theorem lastOwner_none {us : List ServerUser} {name : Str} :
    lastOwner us name = none ↔ ∀ u ∈ us, name ∉ u.trafficByProxy := by
  rw [lastOwner, Option.map_eq_none_iff, lastWriter_none_iff]

/-- The owner of a name as a user, when the ids differ. -/
theorem lastOwner_some {us : List ServerUser} (hi : (us.map (·.id)).Nodup) {u : ServerUser} (hu : u ∈ us)
    {name : Str} : lastOwner us name = some u.id ↔ lastWriter us name = some u := by
  refine ⟨?_, fun h => by rw [lastOwner, h]; rfl⟩
  intro h
  obtain ⟨v, hv, he⟩ := Option.map_eq_some_iff.1 h
  rw [hv, List.inj_on_of_nodup_map hi (mem_of_lastWriter hv).1 hu he]

theorem cleared_congr {gone gone' : List Str} {r : TrafficRow}
    (h : r.proxyName ∈ gone ↔ r.proxyName ∈ gone') : cleared gone r = cleared gone' r := by
  unfold cleared
  rw [decide_eq_decide.2 (not_congr h)]

theorem cleared_cleared (gone gone' : List Str) (r : TrafficRow) :
    cleared gone' (cleared gone r) = cleared (gone ++ gone') r := by
  simp [cleared, Bool.and_assoc]

theorem cleared_eq_self {gone : List Str} {r : TrafficRow} :
    cleared gone r = r ↔ (r.proxyName ∈ gone → r.active = false) := by
  obtain ⟨⟨_, _, _, _, active⟩, _, _⟩ := r
  cases active <;> simp [cleared]

/-! ## What is left of the records of some users -/

/-- What has become of the records of `others`: the names with an owner have its record,
with the flag cleared for `gone`, and the others the row they had, cleared for `kept`. -/
structure LeavesRecords (before after : Table trafficSchema) (others : List ServerUser)
    (owner : Str → Option Str) (gone kept : List Str) : Prop where
  owned : ∀ name id, owner name = some id → ∃ r, after.find name = some r ∧ r.userId = id
  written : ∀ u ∈ others, ∀ name, owner name = some u.id → ∃ record,
    u.trafficByProxy.lookup name = some record ∧
      after.find name = some (cleared gone (TrafficRow.of u name record))
  unwritten : ∀ name, owner name = none → ∀ u ∈ others, ∀ r : TrafficRow, r.userId = u.id →
    (after.find name = some r ↔ ∃ r₀, before.find name = some r₀ ∧ r = cleared kept r₀)

/-- What spares the records of `others`: a stored one has no other owner, and its flag is
not cleared; and what a user is the owner of is stored like that. -/
structure RecordsSpared (before : Table trafficSchema) (others : List ServerUser)
    (owner : Str → Option Str) (gone kept : List Str) : Prop where
  stored : ∀ u ∈ others, ∀ r ∈ before.rows, r.userId = u.id → owner r.proxyName = some u.id ∨
    (owner r.proxyName = none ∧ (r.proxyName ∈ kept → r.active = false))
  written : ∀ u ∈ others, ∀ e ∈ u.trafficByProxy.entries, owner e.1 = some u.id →
    cleared gone (TrafficRow.of u e.1 e.2) ∈ before.rows

instance (before : Table trafficSchema) (others : List ServerUser) (owner : Str → Option Str)
    (gone kept : List Str) : Decidable (RecordsSpared before others owner gone kept) :=
  decidable_of_iff (_ ∧ _) ⟨fun h => ⟨h.1, h.2⟩, fun h => ⟨h.stored, h.written⟩⟩

section
variable {before after : Table trafficSchema} {others : List ServerUser} {owner : Str → Option Str}
  {gone kept : List Str}

/-- **When the rows of the users are the same afterwards.** -/
theorem LeavesRecords.same_iff (h : LeavesRecords before after others owner gone kept) :
    (∀ u ∈ others, ∀ r : TrafficRow, r.userId = u.id → (r ∈ after.rows ↔ r ∈ before.rows)) ↔
      RecordsSpared before others owner gone kept := by
  refine ⟨fun hsame => ⟨fun u hu r hr hown => ?_, fun u hu e he howner => ?_⟩,
    fun hs u hu r hown => ⟨fun hr => ?_, fun hr => ?_⟩⟩
  · have hf := mem_traffic_iff.1 ((hsame u hu r hown).2 hr)
    cases ho : owner r.proxyName with
    | some id =>
      obtain ⟨q, hq, hid⟩ := h.owned _ id ho
      rw [hf, Option.some.injEq] at hq
      exact .inl (by rw [← hown, hq, hid])
    | none =>
      obtain ⟨r₀, h₀, he⟩ := (h.unwritten _ ho u hu r hown).1 hf
      rw [mem_traffic_iff.1 hr, Option.some.injEq] at h₀
      exact .inr ⟨rfl, cleared_eq_self.1 (by rw [← h₀] at he; exact he.symm)⟩
  · obtain ⟨record, hl, hf⟩ := h.written u hu e.1 howner
    rw [Assoc.mem_entries_iff.1 he, Option.some.injEq] at hl
    subst hl
    exact (hsame u hu _ rfl).1 (mem_traffic_iff.2 hf)
  · have hf := mem_traffic_iff.1 hr
    cases ho : owner r.proxyName with
    | some id =>
      obtain ⟨q, hq, hid⟩ := h.owned _ id ho
      rw [hf, Option.some.injEq] at hq
      have ho' : owner r.proxyName = some u.id := by rw [ho, ← hid, ← hq, hown]
      obtain ⟨record, hl, hf'⟩ := h.written u hu _ ho'
      rw [hf, Option.some.injEq] at hf'
      rw [hf']
      exact hs.written u hu ⟨_, record⟩ (Assoc.mem_entries_iff.2 hl) ho'
    | none =>
      obtain ⟨r₀, h₀, rfl⟩ := (h.unwritten _ ho u hu r hown).1 hf
      obtain ⟨hm, hk⟩ := Table.find_eq_some.1 h₀
      rcases hs.stored u hu r₀ hm hown with howned | ⟨-, hflag⟩
      · rw [show r₀.proxyName = (cleared kept r₀).proxyName from rfl, ho] at howned
        cases howned
      · rwa [cleared_eq_self.2 hflag]
  · rcases hs.stored u hu r hr hown with ho | ⟨ho, hflag⟩
    · obtain ⟨record, hl, hf⟩ := h.written u hu _ ho
      have hm := hs.written u hu ⟨_, record⟩ (Assoc.mem_entries_iff.2 hl) ho
      rw [mem_traffic_iff, hf, Option.some.injEq]
      exact before.eq_of_key hm hr rfl
    · exact mem_traffic_iff.2 ((h.unwritten _ ho u hu r hown).2
        ⟨r, mem_traffic_iff.1 hr, (cleared_eq_self.2 hflag).symm⟩)

/-- A row of a user that is still there is not deleted with the missing ones. -/
theorem find_deleteMissing {db : Db} {us : List ServerUser} {name : Str} {r : TrafficRow}
    (hr : r.userId ∈ us.map (·.id)) :
    (deleteMissingUsers db us).traffic.find name = some r ↔ db.traffic.find name = some r := by
  rw [Table.find_eq_some, Table.find_eq_some, deleteMissingUsers, Table.filter_rows, List.mem_filter]
  simp [hr]

variable {db db' : Db} {c : ServerConfig}

/-- One snapshot. -/
theorem writeSnapshot_leaves (h : writeSnapshot db c = .ok db') (ht : (c.tunnels.map (·.id)).Nodup)
    (hi : (c.users.map (·.id)).Nodup) (hu : ∀ u ∈ others, u ∈ c.users)
    (hgone : ∀ name, name ∈ staleNames db c ↔ name ∈ gone) :
    LeavesRecords db.traffic db'.traffic others (lastOwner c.users) gone gone := by
  have hclear : ∀ r, cleared (staleNames db c) r = cleared gone r := fun r =>
    cleared_congr (hgone r.proxyName)
  have hlast : ∀ {name : Str} {v : ServerUser}, lastWriter c.users name = some v → ∃ record,
      v.trafficByProxy.lookup name = some record ∧
        db'.traffic.find name = some (cleared gone (TrafficRow.of v name record)) := by
    intro name v hv
    obtain ⟨record, hr⟩ := Assoc.mem_iff_exists.1 (mem_of_lastWriter hv).2
    refine ⟨record, hr, ?_⟩
    rw [writeSnapshot_traffic h ht, lastRow_users, hv, ← hclear]
    simp [rowOf, hr, cleared]
  refine ⟨fun name id ho => ?_, fun u hm name ho => hlast ((lastOwner_some hi (hu u hm)).1 ho),
    fun name ho u hm r hown => ?_⟩
  · obtain ⟨v, hv, rfl⟩ := Option.map_eq_some_iff.1 ho
    obtain ⟨record, -, hf⟩ := hlast hv
    exact ⟨_, hf, rfl⟩
  · rw [find_unwritten h ht (lastOwner_none.1 ho), Option.map_eq_some_iff]
    have hin : r.userId ∈ c.users.map (·.id) := hown ▸ List.mem_map_of_mem (hu u hm)
    refine exists_congr fun r₀ => ⟨?_, ?_⟩
    · rintro ⟨h₀, rfl⟩
      exact ⟨(find_deleteMissing (r := r₀) hin).1 h₀, hclear r₀⟩
    · rintro ⟨h₀, rfl⟩
      exact ⟨(find_deleteMissing (r := r₀) hin).2 h₀, hclear r₀⟩

/-- **One more snapshot.** An owner that it does not write is not one of the users, but is
still there. -/
theorem LeavesRecords.followed (hl : LeavesRecords before db.traffic others owner gone kept) {gone' : List Str}
    (h : writeSnapshot db c = .ok db') (ht : (c.tunnels.map (·.id)).Nodup)
    (hi : (c.users.map (·.id)).Nodup) (hu : ∀ u ∈ others, u ∈ c.users)
    (howner : ∀ name id, lastOwner c.users name = none → owner name = some id →
      id ∈ c.users.map (·.id) ∧ ∀ u ∈ others, u.id ≠ id)
    (hgone : ∀ u ∈ others, ∀ name ∈ u.trafficByProxy, (name ∈ staleNames db c ↔ name ∈ gone'))
    (hkept : ∀ u ∈ others, ∀ r ∈ before.rows, r.userId = u.id →
      (r.proxyName ∈ staleNames db c ↔ r.proxyName ∈ gone')) :
    LeavesRecords before db'.traffic others (fun name => (lastOwner c.users name).or (owner name)) gone'
      (kept ++ gone') := by
  have hl' : LeavesRecords db.traffic db'.traffic others (lastOwner c.users) (staleNames db c)
      (staleNames db c) := writeSnapshot_leaves h ht hi hu fun _ => Iff.rfl
  -- a name that nobody writes now keeps the row it had
  have hcarried : ∀ {name : Str} {r : TrafficRow}, lastOwner c.users name = none →
      r.userId ∈ c.users.map (·.id) → db.traffic.find name = some r →
      db'.traffic.find name = some (cleared (staleNames db c) r) := by
    intro name r hn hin hf
    rw [find_unwritten h ht (lastOwner_none.1 hn), (find_deleteMissing hin).2 hf]
    rfl
  refine ⟨fun name id ho => ?_, fun u hm name ho => ?_, fun name ho u hm r hown => ?_⟩
  · rcases Option.or_eq_some_iff.1 ho with hc | ⟨hn, hold⟩
    · exact hl'.owned name id hc
    · obtain ⟨r, hr, rfl⟩ := hl.owned name id hold
      exact ⟨_, hcarried hn (howner name _ hn hold).1 hr, rfl⟩
  · rcases Option.or_eq_some_iff.1 ho with hc | ⟨hn, hold⟩
    · obtain ⟨record, hr, hf⟩ := hl'.written u hm name hc
      exact ⟨record, hr, hf.trans (congrArg some
        (cleared_congr (hgone u hm name (Assoc.mem_iff_exists.2 ⟨record, hr⟩))))⟩
    · exact absurd rfl ((howner name _ hn hold).2 u hm)
  · obtain ⟨hn, hold⟩ := Option.or_eq_none_iff.1 ho
    rw [hl'.unwritten name hn u hm r hown]
    refine ⟨?_, ?_⟩
    · rintro ⟨r₁, h₁, rfl⟩
      obtain ⟨r₀, h₀, rfl⟩ := (hl.unwritten name hold u hm r₁ hown).1 h₁
      have hm₀ := (Table.find_eq_some.1 h₀).1
      exact ⟨r₀, h₀, (cleared_congr (r := cleared kept r₀) (hkept u hm r₀ hm₀ hown)).trans
        (cleared_cleared kept gone' r₀)⟩
    · rintro ⟨r₀, h₀, rfl⟩
      have hm₀ := (Table.find_eq_some.1 h₀).1
      refine ⟨cleared kept r₀, (hl.unwritten name hold u hm (cleared kept r₀) hown).2 ⟨r₀, h₀, rfl⟩, ?_⟩
      rw [← cleared_cleared]
      exact (cleared_congr (r := cleared kept r₀) (hkept u hm r₀ hm₀ hown)).symm

end

end OrangeFrp.Storage
