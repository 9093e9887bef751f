import Mathlib.Data.Finset.Card
import Mathlib.Data.List.Nodup
import Mathlib.Data.List.TakeWhile

/-!
# A bounded memory of recent keys

A window holds the keys accepted last, oldest first, each with the time of its
acceptance. `accept` first forgets what is older than the time to live, refuses
a key that is still there, and otherwise files it, forgetting the oldest entry
when the window is full.

Next to the window stands the history of all acceptances, which the window
forgets. `Remembers` says what the window has kept of it.

* `Remembers.accept`: every call keeps the relation.
* `Remembers.apart`: a key is accepted again only when it has expired or a full
  window of others has been accepted since.
* `Remembers.refused_iff`, `Apart.others_lt_iff`: a key is refused exactly when it was
  accepted recently enough, with fewer than a full window of others since.
* `fill`: distinct keys of one moment leave the last ones in the window.
-/
namespace OrangeFrp.Core.Window

variable {K : Type} [DecidableEq K]

def expire (ttl now : Nat) (w : List (Nat × K)) : List (Nat × K) :=
  w.dropWhile fun e => ttl < now - e.1

def accept (ttl cap now : Nat) (k : K) (w : List (Nat × K)) : Bool × List (Nat × K) :=
  let w := expire ttl now w
  if k ∈ w.map Prod.snd then (false, w)
  else (true, (if cap ≤ w.length then w.tail else w) ++ [(now, k)])

/-- The history once a key has been refused or accepted. -/
def record (h : List (Nat × K)) (now : Nat) (k : K) (accepted : Bool) : List (Nat × K) :=
  if accepted then h ++ [(now, k)] else h

/-- The window is the end of the history; what it has lost is expired, or has a
full window after it. -/
structure Remembers (ttl cap clock : Nat) (h w : List (Nat × K)) : Prop where
  suffix : ∃ gone, h = gone ++ w ∧ ∀ i e, gone[i]? = some e →
    cap ≤ h.length - 1 - i ∨ ttl < clock - e.1

omit [DecidableEq K] in
theorem Remembers.empty (ttl cap clock : Nat) : Remembers ttl cap clock ([] : List (Nat × K)) [] :=
  ⟨[], rfl, by simp⟩

omit [DecidableEq K] in
theorem Remembers.later {ttl cap clock now : Nat} {h w : List (Nat × K)}
    (hr : Remembers ttl cap clock h w) (hnow : clock ≤ now) : Remembers ttl cap now h w := by
  obtain ⟨gone, hh, hgone⟩ := hr.suffix
  exact ⟨gone, hh, fun i e he => (hgone i e he).imp_right fun ht => by omega⟩

omit [DecidableEq K] in
theorem Remembers.expire {ttl cap clock now : Nat} {h w : List (Nat × K)}
    (hr : Remembers ttl cap clock h w) (hnow : clock ≤ now) :
    Remembers ttl cap now h (expire ttl now w) := by
  obtain ⟨gone, rfl, hgone⟩ := (hr.later hnow).suffix
  refine ⟨gone ++ w.takeWhile (fun e => ttl < now - e.1), ?_, fun i e he => ?_⟩
  · rw [Window.expire, List.append_assoc, List.takeWhile_append_dropWhile]
  · rcases lt_or_ge i gone.length with hi | hi
    · exact hgone i e (by rwa [List.getElem?_append_left hi] at he)
    · rw [List.getElem?_append_right hi] at he
      have := List.mem_takeWhile_imp (List.mem_of_getElem? he)
      exact .inr (by simpa using this)

/-- **Every call keeps the relation** between history and window. -/
theorem Remembers.accept {ttl cap clock now : Nat} {h w : List (Nat × K)} {k : K}
    (hr : Remembers ttl cap clock h w) (hnow : clock ≤ now) :
    Remembers ttl cap now (record h now k (accept ttl cap now k w).1) (accept ttl cap now k w).2 := by
  have hexp := hr.expire hnow
  unfold Window.accept
  dsimp only
  split
  · exact hexp
  obtain ⟨gone, hh, hgone⟩ := hexp.suffix
  generalize Window.expire ttl now w = w₁ at hh
  subst hh
  have hlater : ∀ i e, gone[i]? = some e →
      cap ≤ (gone ++ w₁ ++ [(now, k)]).length - 1 - i ∨ ttl < now - e.1 := by
    intro i e he
    refine (hgone i e he).imp_left fun hc => ?_
    simp only [List.length_append, List.length_singleton] at hc ⊢
    omega
  refine ⟨?_⟩
  simp only [record, if_true]
  split
  · rename_i hfull
    cases w₁ with
    | nil => exact ⟨gone, by simp, hlater⟩
    | cons x w₁ =>
      -- the oldest entry leaves, and a full window stands after it
      refine ⟨gone ++ [x], by simp, fun i e he => ?_⟩
      rcases lt_or_ge i gone.length with hi | hi
      · exact hlater i e (by rwa [List.getElem?_append_left hi] at he)
      · obtain rfl : i = gone.length := by
          have := (List.getElem?_eq_some_iff.1 he).1
          simp only [List.length_append, List.length_singleton] at this
          omega
        refine .inl ?_
        simp only [List.length_append, List.length_cons, List.length_nil] at hfull ⊢
        omega
  · exact ⟨gone, by simp, hlater⟩

/-- **A key is accepted again only when** it has expired, or a full window of
others has been accepted since. -/
theorem Remembers.apart {ttl cap clock now : Nat} {h w : List (Nat × K)} {k : K}
    (hr : Remembers ttl cap clock h w) (hnow : clock ≤ now)
    (ha : (Window.accept ttl cap now k w).1 = true) {i t : Nat} (hi : h[i]? = some (t, k)) :
    cap ≤ h.length - 1 - i ∨ ttl < now - t := by
  obtain ⟨gone, rfl, hgone⟩ := (hr.expire hnow).suffix
  rcases lt_or_ge i gone.length with hlt | hge
  · exact hgone i _ (by rwa [List.getElem?_append_left hlt] at hi)
  · rw [List.getElem?_append_right hge] at hi
    unfold Window.accept at ha
    dsimp only at ha
    rw [if_pos (List.mem_map.2 ⟨_, List.mem_of_getElem? hi, rfl⟩)] at ha
    cases ha

/-- Two acceptances of one key are far apart, in time or in number. -/
def Apart (ttl cap : Nat) (h : List (Nat × K)) : Prop :=
  ∀ i j t t' k, i < j → h[i]? = some (t, k) → h[j]? = some (t', k) →
    cap ≤ j - 1 - i ∨ ttl < t' - t

theorem Apart.record {ttl cap clock now : Nat} {h w : List (Nat × K)} {k : K}
    (hp : Apart ttl cap h) (hr : Remembers ttl cap clock h w) (hnow : clock ≤ now) :
    Apart ttl cap (record h now k (accept ttl cap now k w).1) := by
  cases ha : (Window.accept ttl cap now k w).1 with
  | false => simpa [Window.record] using hp
  | true =>
    intro i j t t' q hij hi hj
    simp only [Window.record, if_true] at hi hj
    have hjl := (List.getElem?_eq_some_iff.1 hj).1
    rw [List.length_append, List.length_singleton] at hjl
    rw [List.getElem?_append_left (by omega)] at hi
    rcases lt_or_ge j h.length with hlt | hge
    · rw [List.getElem?_append_left hlt] at hj
      exact hp i j t t' q hij hi hj
    · obtain rfl : j = h.length := by omega
      rw [List.getElem?_concat_length] at hj
      cases hj
      exact hr.apart hnow ha hi

/-! ## What a window refuses -/

/-- Times do not decrease along the entries, and none is later than the clock. -/
structure Timely (clock : Nat) (h : List (Nat × K)) : Prop where
  sorted : h.Pairwise fun e e' => e.1 ≤ e'.1
  past : ∀ e ∈ h, e.1 ≤ clock

omit [DecidableEq K] in
theorem Timely.sublist {clock : Nat} {h w : List (Nat × K)} (ht : Timely clock h) (hw : w.Sublist h) :
    Timely clock w :=
  ⟨ht.sorted.sublist hw, fun e he => ht.past e (hw.mem he)⟩

omit [DecidableEq K] in
theorem Timely.later {clock now : Nat} {h : List (Nat × K)} (ht : Timely clock h) (hnow : clock ≤ now) :
    Timely now h :=
  ⟨ht.sorted, fun e he => (ht.past e he).trans hnow⟩

omit [DecidableEq K] in
theorem Timely.record {clock now : Nat} {h : List (Nat × K)} (ht : Timely clock h) (hnow : clock ≤ now)
    (k : K) (accepted : Bool) : Timely now (record h now k accepted) := by
  unfold Window.record
  split
  · refine ⟨List.pairwise_append.2 ⟨ht.sorted, List.pairwise_singleton _ _, fun e he e' he' => ?_⟩,
      fun e he => ?_⟩
    · rw [List.mem_singleton.1 he']
      exact (ht.past e he).trans hnow
    · rcases List.mem_append.1 he with he | he
      · exact (ht.past e he).trans hnow
      · rw [List.mem_singleton.1 he]
  · exact ht.later hnow

omit [DecidableEq K] in
/-- What stays is not expired: the oldest entry comes first. -/
theorem mem_expire {ttl now : Nat} {w : List (Nat × K)} (hw : w.Pairwise fun e e' => e.1 ≤ e'.1)
    {e : Nat × K} : e ∈ expire ttl now w ↔ e ∈ w ∧ now - e.1 ≤ ttl := by
  induction w with
  | nil => simp [expire]
  | cons x w ih =>
    obtain ⟨hx, hw⟩ := List.pairwise_cons.1 hw
    unfold expire at ih ⊢
    by_cases hold : ttl < now - x.1
    · rw [List.dropWhile_cons_of_pos (by simpa using hold), ih hw, List.mem_cons]
      refine ⟨?_, ?_⟩
      · exact fun he => ⟨.inr he.1, he.2⟩
      · rintro ⟨rfl | he, hle⟩
        · omega
        · exact ⟨he, hle⟩
    · rw [List.dropWhile_cons_of_neg (by simpa using hold)]
      refine ⟨fun he => ⟨he, ?_⟩, fun he => he.1⟩
      rcases List.mem_cons.1 he with rfl | he
      · omega
      · have hlater := hx e he
        omega

omit [DecidableEq K] in
theorem expire_suffix (ttl now : Nat) (w : List (Nat × K)) : expire ttl now w <:+ w :=
  List.dropWhile_suffix _

theorem accept_length {ttl cap now : Nat} (hcap : 0 < cap) {k : K} {w : List (Nat × K)}
    (hw : w.length ≤ cap) : (accept ttl cap now k w).2.length ≤ cap := by
  have hle := (expire_suffix ttl now w).length_le
  unfold accept
  dsimp only
  split
  · exact hle.trans hw
  · rw [List.length_append, List.length_singleton]
    split
    · rw [List.length_tail]; omega
    · omega

theorem mem_accept {ttl cap now : Nat} {k : K} {w : List (Nat × K)} {e : Nat × K}
    (he : e ∈ (accept ttl cap now k w).2) : e ∈ w ∨ e = (now, k) := by
  have hexp := (expire_suffix ttl now w).sublist
  unfold accept at he
  dsimp only at he
  split at he
  · exact .inl (hexp.mem he)
  rcases List.mem_append.1 he with he | he
  · split at he
    · exact .inl (hexp.mem (List.mem_of_mem_tail he))
    · exact .inl (hexp.mem he)
  · exact .inr (List.mem_singleton.1 he)

/-- A refusal files nothing. -/
theorem accept_refused {ttl cap now : Nat} {k : K} {w : List (Nat × K)}
    (h : (accept ttl cap now k w).1 = false) : (accept ttl cap now k w).2 = expire ttl now w := by
  unfold accept at h ⊢
  dsimp only at h ⊢
  split
  · rfl
  · rename_i hnot
    rw [if_neg hnot] at h
    cases h

/-- **A key is refused exactly when** an acceptance of it is not expired and has less than a
full window after it. -/
theorem Remembers.refused_iff {ttl cap clock now : Nat} {h w : List (Nat × K)} {k : K}
    (hr : Remembers ttl cap clock h w) (ht : Timely clock h) (hw : w.length ≤ cap) (hnow : clock ≤ now) :
    (Window.accept ttl cap now k w).1 = false ↔
      ∃ i t, h[i]? = some (t, k) ∧ now - t ≤ ttl ∧ h.length - 1 - i < cap := by
  refine ⟨?_, ?_⟩
  · intro hf
    obtain ⟨gone, rfl, -⟩ := hr.suffix
    unfold Window.accept at hf
    dsimp only at hf
    split at hf
    · rename_i hk
      obtain ⟨⟨t, k'⟩, he, rfl⟩ := List.mem_map.1 hk
      have hsorted := (ht.sublist (List.sublist_append_right gone w)).sorted
      obtain ⟨hmem, hle⟩ := (mem_expire hsorted).1 he
      obtain ⟨j, hj, hjw⟩ := List.getElem_of_mem hmem
      refine ⟨gone.length + j, t, ?_, hle, ?_⟩
      · rw [List.getElem?_append_right (by omega), Nat.add_sub_cancel_left, List.getElem?_eq_getElem hj,
          hjw]
      · rw [List.length_append]
        omega
    · cases hf
  · intro hx
    obtain ⟨i, t, hi, hle, hlt⟩ := hx
    by_contra ha
    rw [Bool.not_eq_false] at ha
    rcases hr.apart hnow ha hi with hcap | httl
    · omega
    · omega

/-- The acceptances after an unexpired one are of different keys, as long as no full window
of them is reached. -/
theorem Apart.others_lt_iff {ttl cap clock now : Nat} {h : List (Nat × K)} (hp : Apart ttl cap h)
    (ht : Timely clock h) (hnow : clock ≤ now) {i t : Nat} {k : K} (hi : h[i]? = some (t, k))
    (hle : now - t ≤ ttl) :
    h.length - 1 - i < cap ↔ (((h.drop (i + 1)).map Prod.snd).toFinset.erase k).card < cap := by
  have hlen : (h.drop (i + 1)).length = h.length - 1 - i := by rw [List.length_drop]; omega
  refine ⟨?_, ?_⟩
  · intro hlt
    have hcard := List.toFinset_card_le ((h.drop (i + 1)).map Prod.snd)
    have herase := Finset.card_erase_le (s := ((h.drop (i + 1)).map Prod.snd).toFinset) (a := k)
    rw [List.length_map, hlen] at hcard
    omega
  · intro hlt
    by_contra hge
    -- the next `cap` acceptances are of different keys, none of them `k`
    have hnear : ∀ (j : Nat) (t' : Nat) (k' : K), h[j]? = some (t', k') → i < j → t' - t ≤ ttl := by
      intro j t' k' hj _
      have := ht.past _ (List.mem_of_getElem? hj)
      omega
    have htime : ∀ (j : Nat) (t' : Nat) (k' : K), h[j]? = some (t', k') → i < j → t ≤ t' := by
      intro j t' k' hj hij
      obtain ⟨hil, hiv⟩ := List.getElem?_eq_some_iff.1 hi
      obtain ⟨hjl, hjv⟩ := List.getElem?_eq_some_iff.1 hj
      have := List.pairwise_iff_getElem.1 ht.sorted i j hil hjl hij
      rw [hiv, hjv] at this
      exact this
    let next := ((h.drop (i + 1)).take cap).map Prod.snd
    have hget : ∀ (a : Nat) (k' : K), next[a]? = some k' → a < cap ∧ ∃ t', h[i + 1 + a]? = some (t', k') := by
      intro a k' ha
      rw [List.getElem?_map, Option.map_eq_some_iff] at ha
      obtain ⟨⟨t', k''⟩, ha, rfl⟩ := ha
      have hacap : a < cap := by
        by_contra hge
        rw [List.getElem?_take, if_neg hge] at ha
        cases ha
      rw [List.getElem?_take_of_lt hacap, List.getElem?_drop] at ha
      exact ⟨hacap, t', ha⟩
    have hnodup : next.Nodup := by
      rw [List.nodup_iff_getElem?_ne_getElem?]
      intro a b hab hb he
      obtain ⟨k', hk'⟩ : ∃ k', next[b]? = some k' := ⟨_, List.getElem?_eq_getElem hb⟩
      rw [hk'] at he
      obtain ⟨hacap, t₁, h₁⟩ := hget a k' he
      obtain ⟨hbcap, t₂, h₂⟩ := hget b k' hk'
      have hapart := hp (i + 1 + a) (i + 1 + b) t₁ t₂ k' (by omega) h₁ h₂
      have := hnear _ _ _ h₂ (by omega)
      have := htime _ _ _ h₁ (by omega)
      omega
    have hk : k ∉ next := by
      intro hm
      obtain ⟨a, ha⟩ := List.mem_iff_getElem?.1 hm
      obtain ⟨hacap, t₁, h₁⟩ := hget a k ha
      have hapart := hp i (i + 1 + a) t t₁ k (by omega) hi h₁
      have := hnear _ _ _ h₁ (by omega)
      omega
    have hsub : next.toFinset ⊆ ((h.drop (i + 1)).map Prod.snd).toFinset.erase k := by
      intro x hx
      rw [List.mem_toFinset] at hx
      rw [Finset.mem_erase, List.mem_toFinset]
      exact ⟨fun he => hk (he ▸ hx), ((List.take_sublist _ _).map _).mem hx⟩
    have hcard := Finset.card_le_card hsub
    have hnext : next.length = cap := by
      rw [List.length_map, List.length_take, hlen]
      omega
    rw [List.toFinset_card_of_nodup hnodup, hnext] at hcard
    omega

/-! ## Keys under another name -/

/-- A window of names is the window of what they name, when no two names are mixed up. -/
theorem accept_map {L : Type} [DecidableEq L] (f : K → L) {ttl cap now : Nat} {k : K}
    {w : List (Nat × K)} (hf : ∀ e ∈ w, f e.2 = f k → e.2 = k) :
    accept ttl cap now (f k) (w.map fun e => (e.1, f e.2)) =
      ((accept ttl cap now k w).1, (accept ttl cap now k w).2.map fun e => (e.1, f e.2)) := by
  have hexp : expire ttl now (w.map fun e => (e.1, f e.2)) =
      (expire ttl now w).map fun e => (e.1, f e.2) := by
    unfold expire
    rw [List.dropWhile_map]
    rfl
  have hmem : f k ∈ ((expire ttl now w).map fun e => (e.1, f e.2)).map Prod.snd ↔
      k ∈ (expire ttl now w).map Prod.snd := by
    simp only [List.map_map, List.mem_map, Function.comp_apply]
    refine ⟨?_, ?_⟩
    · intro hx
      obtain ⟨e, he, hfe⟩ := hx
      exact ⟨e, he, hf e ((expire_suffix ttl now w).mem he) hfe⟩
    · intro hx
      obtain ⟨e, he, rfl⟩ := hx
      exact ⟨e, he, rfl⟩
  unfold accept
  dsimp only
  rw [hexp]
  by_cases hk : k ∈ (expire ttl now w).map Prod.snd
  · rw [if_pos (hmem.2 hk), if_pos hk]
  · rw [if_neg (fun h => hk (hmem.1 h)), if_neg hk, List.length_map]
    split <;> simp [List.map_tail]

/-! ## Filling a window -/

def acceptAll (ttl cap now : Nat) : List K → List (Nat × K) → List (Nat × K)
  | [], w => w
  | k :: ks, w => acceptAll ttl cap now ks (accept ttl cap now k w).2

omit [DecidableEq K] in
theorem expire_now (ttl now : Nat) (ks : List K) :
    expire ttl now (ks.map fun k => (now, k)) = ks.map fun k => (now, k) := by
  cases ks with
  | nil => rfl
  | cons k ks => simp [expire]

/-- A new key of the same moment is filed, in the place of the oldest when full. -/
theorem accept_now {ttl cap now : Nat} {k : K} {ks : List K} (hk : k ∉ ks) :
    accept ttl cap now k (ks.map fun k => (now, k)) =
      (true, ((if cap ≤ ks.length then ks.tail else ks) ++ [k]).map fun k => (now, k)) := by
  unfold accept
  dsimp only
  rw [expire_now, if_neg (by simpa [Function.comp_def] using hk), List.length_map]
  split <;> simp

/-- **Distinct keys of one moment leave the last ones.** -/
theorem fill {ttl cap now : Nat} (hcap : 0 < cap) {ks : List K} (hn : ks.Nodup) :
    acceptAll ttl cap now ks [] = (ks.drop (ks.length - cap)).map fun k => (now, k) := by
  have hstep : ∀ rest done : List K, (done ++ rest).Nodup →
      acceptAll ttl cap now rest ((done.drop (done.length - cap)).map fun k => (now, k)) =
        ((done ++ rest).drop ((done ++ rest).length - cap)).map fun k => (now, k) := by
    intro rest
    induction rest with
    | nil => intro done _; rw [acceptAll, List.append_nil]
    | cons k rest ih =>
      intro done hnd
      have hk : k ∉ done.drop (done.length - cap) := fun hm =>
        (List.nodup_append.1 hnd).2.2 k (List.mem_of_mem_drop hm) k List.mem_cons_self rfl
      have hlen : (done.drop (done.length - cap)).length = min done.length cap := by
        rw [List.length_drop]; omega
      have hnext : (if cap ≤ (done.drop (done.length - cap)).length
            then (done.drop (done.length - cap)).tail else done.drop (done.length - cap)) ++ [k] =
          (done ++ [k]).drop ((done ++ [k]).length - cap) := by
        rw [hlen, List.length_append, List.length_singleton]
        split
        · rename_i hfull
          rw [List.tail_drop, List.drop_append_of_le_length (by omega)]
          congr 2
          omega
        · rw [List.drop_append_of_le_length (by omega)]
          congr 2
          omega
      rw [acceptAll, accept_now hk, hnext]
      have := ih (done ++ [k]) (by rwa [List.append_assoc, List.singleton_append])
      rwa [List.append_assoc, List.singleton_append] at this
  simpa using hstep ks [] (by simpa using hn)

end OrangeFrp.Core.Window
