import Mathlib.Algebra.Order.Field.Rat
import OrangeFrp.Core.Assoc
import OrangeFrp.Core.Bucket

/-!
# The limiter of API calls (`frp-game-server/src/app.rs`, `ApiRateLimiter`)

Every address has a token bucket. Once a minute the buckets that have been idle for five
minutes are dropped; an address that comes back gets a new one, which is full. Five minutes
fill any bucket, so an idle bucket would be full as well.

Next to the table stand ideal buckets that are never dropped. Amounts of tokens and times
are rational numbers.

* `Forgets.allow`: one call keeps the table and the ideal buckets in step.
* `limiter_ideal`: the answers of every sequence of calls, and what they admit.
-/
namespace OrangeFrp.App

open OrangeFrp.Core

inductive IpAddr where
  | v4 (octets : BitVec 32)
  | v6 (octets : BitVec 128)
  deriving DecidableEq

/-- mirrors crates/frp-game-server/src/app.rs:232-235 -/
abbrev RateBucket := Bucket Rat

/-- mirrors crates/frp-game-server/src/app.rs:226-230 -/
structure ApiRateLimiter where
  clients : Assoc IpAddr RateBucket
  lastCleanup : Option Rat

/-- mirrors crates/frp-game-server/src/app.rs:59 -/
def MAX_RATE_LIMIT_CLIENTS : Nat := 8192

/-- mirrors crates/frp-game-server/src/app.rs:61 -/
def RATE_LIMIT_IDLE_TTL : Rat := 300

/-- mirrors crates/frp-game-server/src/app.rs:62 -/
def RATE_LIMIT_CLEANUP_INTERVAL : Rat := 60

/-- mirrors crates/frp-game-server/src/app.rs:239 -/
def CAPACITY : Rat := 60

/-- mirrors crates/frp-game-server/src/app.rs:240 -/
def REFILL_PER_SECOND : Rat := 2

/-- `Instant::duration_since`, in seconds. -/
def durationSince (now earlier : Rat) : Rat := max (now - earlier) 0

/-- mirrors crates/frp-game-server/src/app.rs:242-250 -/
def ApiRateLimiter.cleanup (l : ApiRateLimiter) (now : Rat) : ApiRateLimiter :=
  if (l.lastCleanup.map fun last =>
      decide (RATE_LIMIT_CLEANUP_INTERVAL ≤ durationSince now last)).getD true then
    { clients := Assoc.retain (fun _ bucket =>
        decide (durationSince now bucket.updated < RATE_LIMIT_IDLE_TTL)) l.clients
      lastCleanup := some now }
  else l

/-- mirrors crates/frp-game-server/src/app.rs:258-265 -/
def RateBucket.allow (bucket : RateBucket) (cost now : Rat) : Bool × RateBucket :=
  let elapsed := durationSince now bucket.updated
  let tokens := min (bucket.tokens + elapsed * REFILL_PER_SECOND) CAPACITY
  if tokens < cost then (false, ⟨tokens, now⟩) else (true, ⟨tokens - cost, now⟩)

/-- The table has no room for the address. -/
def ApiRateLimiter.FullFor (l : ApiRateLimiter) (ip : IpAddr) : Prop :=
  ip ∉ l.clients ∧ MAX_RATE_LIMIT_CLIENTS ≤ l.clients.entries.length

instance (l : ApiRateLimiter) (ip : IpAddr) : Decidable (l.FullFor ip) := by
  unfold ApiRateLimiter.FullFor; infer_instance

/-- mirrors crates/frp-game-server/src/app.rs:238-266 -/
def ApiRateLimiter.allow (l : ApiRateLimiter) (ip : IpAddr) (cost now : Rat) : Bool × ApiRateLimiter :=
  let l := l.cleanup now
  if l.FullFor ip then (false, l)
  else
    let bucket := (l.clients.lookup ip).getD ⟨CAPACITY, now⟩
    let r := bucket.allow cost now
    (r.1, { l with clients := l.clients.insert ip r.2 })

/-! ## Ideal buckets -/

/-- One bucket for each address seen, never dropped. -/
abbrev IdealBuckets := IpAddr → Option RateBucket

def IdealBuckets.allow (i : IdealBuckets) (ip : IpAddr) (cost now : Rat) : Bool × IdealBuckets :=
  let r := ((i ip).getD ⟨CAPACITY, now⟩).allow cost now
  (r.1, Function.update i ip (some r.2))

structure RateCall where
  ip : IpAddr
  cost : Rat
  now : Rat
  nonneg : 0 ≤ cost

/-- The answers of the limiter. -/
def ApiRateLimiter.answers : ApiRateLimiter → List RateCall → List Bool
  | _, [] => []
  | l, c :: cs => (l.allow c.ip c.cost c.now).1 :: answers (l.allow c.ip c.cost c.now).2 cs

/-- The limiter after the calls. -/
def ApiRateLimiter.after (l : ApiRateLimiter) (cs : List RateCall) : ApiRateLimiter :=
  cs.foldl (fun l c => (l.allow c.ip c.cost c.now).2) l

/-- The answers of ideal buckets, but for the calls that find the table full. -/
def IdealBuckets.answers : IdealBuckets → ApiRateLimiter → List RateCall → List Bool
  | _, _, [] => []
  | i, l, c :: cs =>
    if (l.cleanup c.now).FullFor c.ip then
      false :: answers i (l.allow c.ip c.cost c.now).2 cs
    else
      (i.allow c.ip c.cost c.now).1 ::
        answers (i.allow c.ip c.cost c.now).2 (l.allow c.ip c.cost c.now).2 cs

/-- The times and costs of the calls of an address that were admitted. -/
def ApiRateLimiter.admitted (ip : IpAddr) : ApiRateLimiter → List RateCall → List (Rat × Rat)
  | _, [] => []
  | l, c :: cs =>
    let rest := admitted ip (l.allow c.ip c.cost c.now).2 cs
    if c.ip = ip ∧ (l.allow c.ip c.cost c.now).1 = true then (c.now, c.cost) :: rest else rest

/-! ## One bucket -/

theorem durationSince_eq {now earlier : Rat} (h : earlier ≤ now) :
    durationSince now earlier = now - earlier := max_eq_left (sub_nonneg.2 h)

theorem allow_level {b : RateBucket} {now : Rat} (h : b.updated ≤ now) (cost : Rat) :
    b.allow cost now =
      if b.level CAPACITY REFILL_PER_SECOND now < cost then
        (false, b.refill CAPACITY REFILL_PER_SECOND now)
      else (true, ⟨b.level CAPACITY REFILL_PER_SECOND now - cost, now⟩) := by
  unfold RateBucket.allow
  rw [durationSince_eq h]
  rfl

/-- A bucket that is not in debt, nor ahead of the clock. -/
structure Ready (b : RateBucket) (clock : Rat) : Prop where
  nonneg : 0 ≤ b.tokens
  updated : b.updated ≤ clock

theorem Ready.later {b : RateBucket} {clock now : Rat} (h : Ready b clock) (hnow : clock ≤ now) :
    Ready b now := ⟨h.nonneg, h.updated.trans hnow⟩

theorem capacity_nonneg : (0 : Rat) ≤ CAPACITY := by decide

theorem refill_nonneg : (0 : Rat) ≤ REFILL_PER_SECOND := by decide

theorem Ready.allow {b : RateBucket} {now cost : Rat} (h : Ready b now) :
    Ready (b.allow cost now).2 now := by
  have hlevel := Bucket.level_nonneg refill_nonneg capacity_nonneg h.nonneg h.updated
  rw [allow_level h.updated]
  split
  · exact ⟨hlevel, le_refl _⟩
  · rename_i hcost
    exact ⟨sub_nonneg.2 (not_lt.1 hcost), le_refl _⟩

/-- **An idle bucket is full**: five minutes fill any bucket. -/
theorem idle_full {b : RateBucket} {now : Rat} (h0 : 0 ≤ b.tokens)
    (h : RATE_LIMIT_IDLE_TTL ≤ now - b.updated) : b.level CAPACITY REFILL_PER_SECOND now = CAPACITY := by
  refine Bucket.level_full h0 ?_
  have hfill : CAPACITY ≤ RATE_LIMIT_IDLE_TTL * REFILL_PER_SECOND := by decide +kernel
  exact hfill.trans (mul_le_mul_of_nonneg_right h refill_nonneg)

/-! ## The table and the ideal buckets -/

/-- The table has forgotten full buckets only. -/
structure Forgets (l : ApiRateLimiter) (i : IdealBuckets) (clock : Rat) : Prop where
  ready : ∀ ip b, i ip = some b → Ready b clock
  live : ∀ ip b, l.clients.lookup ip = some b → i ip = some b
  forgotten : ∀ ip b, i ip = some b → l.clients.lookup ip = none →
    RATE_LIMIT_IDLE_TTL ≤ clock - b.updated

theorem Forgets.cleanup {l : ApiRateLimiter} {i : IdealBuckets} {clock now : Rat} (h : Forgets l i clock)
    (hnow : clock ≤ now) : Forgets (l.cleanup now) i now := by
  have hold : ∀ ip b, i ip = some b → l.clients.lookup ip = none →
      RATE_LIMIT_IDLE_TTL ≤ now - b.updated := fun ip b hb hl =>
    (h.forgotten ip b hb hl).trans (sub_le_sub_right hnow _)
  unfold ApiRateLimiter.cleanup
  split
  · refine ⟨fun ip b hb => (h.ready ip b hb).later hnow, fun ip b hl => ?_, fun ip b hb hl => ?_⟩
    · rw [Assoc.lookup_retain, Option.filter_eq_some_iff] at hl
      exact h.live ip b hl.1
    · rw [Assoc.lookup_retain, Option.filter_eq_none_iff] at hl
      cases hlook : l.clients.lookup ip with
      | none => exact hold ip b hb hlook
      | some b' =>
        have hsame := h.live ip b' hlook
        rw [hb, Option.some.injEq] at hsame
        subst hsame
        have hidle := hl b hlook
        rw [decide_eq_true_eq, not_lt, durationSince_eq ((h.ready ip b hb).later hnow).updated] at hidle
        exact hidle
  · exact ⟨fun ip b hb => (h.ready ip b hb).later hnow, h.live, hold⟩

/-- The bucket of the table answers as the ideal one, and becomes it. -/
theorem Forgets.bucket {l : ApiRateLimiter} {i : IdealBuckets} {now : Rat} (h : Forgets l i now)
    (ip : IpAddr) (cost : Rat) :
    ((l.clients.lookup ip).getD ⟨CAPACITY, now⟩).allow cost now =
      ((i ip).getD ⟨CAPACITY, now⟩).allow cost now := by
  cases hl : l.clients.lookup ip with
  | some b => rw [h.live ip b hl]
  | none =>
    cases hi : i ip with
    | none => rfl
    | some b =>
      have hnew : (⟨CAPACITY, now⟩ : RateBucket).level CAPACITY REFILL_PER_SECOND now = CAPACITY := by
        rw [Bucket.level, sub_self, zero_mul, add_zero, min_self]
      have hfull := idle_full (h.ready ip b hi).nonneg (h.forgotten ip b hi hl)
      rw [Option.getD_none, Option.getD_some, allow_level (le_refl now), allow_level (h.ready ip b hi).updated]
      unfold Bucket.refill
      rw [hnew, hfull]

/-- **One call** of an address that is not turned away for want of room. -/
theorem Forgets.allow {l : ApiRateLimiter} {i : IdealBuckets} {clock : Rat} (h : Forgets l i clock)
    {ip : IpAddr} {now : Rat} (cost : Rat) (hnow : clock ≤ now) (hroom : ¬ (l.cleanup now).FullFor ip) :
    (l.allow ip cost now).1 = (i.allow ip cost now).1 ∧
      Forgets (l.allow ip cost now).2 (i.allow ip cost now).2 now := by
  have hclean := h.cleanup hnow
  unfold ApiRateLimiter.allow IdealBuckets.allow
  dsimp only
  rw [if_neg hroom, hclean.bucket ip cost]
  have hready : Ready ((i ip).getD ⟨CAPACITY, now⟩) now := by
    cases hi : i ip with
    | none => exact ⟨capacity_nonneg, le_refl _⟩
    | some b => exact hclean.ready ip b hi
  refine ⟨rfl, fun q b hb => ?_, fun q b hl => ?_, fun q b hb hl => ?_⟩
  · by_cases hq : q = ip
    · subst hq
      rw [Function.update_self, Option.some.injEq] at hb
      exact hb ▸ hready.allow
    · rw [Function.update_of_ne hq] at hb
      exact hclean.ready q b hb
  · by_cases hq : q = ip
    · subst hq
      rw [AList.lookup_insert] at hl
      rw [Function.update_self]
      exact hl
    · rw [AList.lookup_insert_ne hq] at hl
      rw [Function.update_of_ne hq]
      exact hclean.live q b hl
  · by_cases hq : q = ip
    · subst hq
      rw [AList.lookup_insert] at hl
      cases hl
    · rw [AList.lookup_insert_ne hq] at hl
      rw [Function.update_of_ne hq] at hb
      exact hclean.forgotten q b hb hl

theorem Forgets.refused {l : ApiRateLimiter} {i : IdealBuckets} {clock : Rat} (h : Forgets l i clock)
    {ip : IpAddr} {now : Rat} (cost : Rat) (hnow : clock ≤ now) (hfull : (l.cleanup now).FullFor ip) :
    (l.allow ip cost now).1 = false ∧ Forgets (l.allow ip cost now).2 i now := by
  unfold ApiRateLimiter.allow
  dsimp only
  rw [if_pos hfull]
  exact ⟨rfl, h.cleanup hnow⟩

/-- **The answers are those of the ideal buckets.** -/
theorem answers_ideal {cs : List RateCall} : ∀ {l : ApiRateLimiter} {i : IdealBuckets} {clock : Rat},
    Forgets l i clock → (cs.map RateCall.now).Pairwise (· ≤ ·) → (∀ c ∈ cs, clock ≤ c.now) →
    l.answers cs = i.answers l cs := by
  induction cs with
  | nil => exact fun _ _ _ => rfl
  | cons c cs ih =>
    intro l i clock h hsorted hlater
    obtain ⟨hc, hsorted⟩ := List.pairwise_cons.1 hsorted
    have hnow := hlater c List.mem_cons_self
    have hrest : ∀ d ∈ cs, c.now ≤ d.now := fun d hd => hc _ (List.mem_map_of_mem hd)
    rw [ApiRateLimiter.answers, IdealBuckets.answers]
    split
    · rename_i hfull
      obtain ⟨hanswer, hnext⟩ := h.refused c.cost hnow hfull
      rw [hanswer, ih hnext hsorted hrest]
    · rename_i hroom
      obtain ⟨hanswer, hnext⟩ := h.allow c.cost hnow hroom
      rw [hanswer, ih hnext hsorted hrest]

/-! ## What is admitted -/

/-- What the ideal bucket of an address holds. -/
def IdealBuckets.held (i : IdealBuckets) (ip : IpAddr) (now : Rat) : Rat :=
  ((i ip).map fun b => b.level CAPACITY REFILL_PER_SECOND now).getD CAPACITY

theorem held_later (i : IdealBuckets) (ip : IpAddr) {clock now : Rat} (h : clock ≤ now) :
    i.held ip now ≤ i.held ip clock + (now - clock) * REFILL_PER_SECOND := by
  unfold IdealBuckets.held
  cases i ip with
  | none => exact le_add_of_nonneg_right (Bucket.mul_rate_nonneg refill_nonneg h)
  | some b => exact Bucket.level_later refill_nonneg h

theorem held_le (i : IdealBuckets) (ip : IpAddr) (now : Rat) : i.held ip now ≤ CAPACITY := by
  unfold IdealBuckets.held
  cases i ip with
  | none => exact le_refl _
  | some b => exact Bucket.level_le_cap

/-- What a call takes, it takes from what the bucket holds. -/
theorem held_allow {i : IdealBuckets} {now : Rat} (hready : ∀ ip b, i ip = some b → Ready b now)
    (ip : IpAddr) {cost : Rat} (hcost : 0 ≤ cost) :
    if (i.allow ip cost now).1 = true then
      cost ≤ i.held ip now ∧ (i.allow ip cost now).2.held ip now = i.held ip now - cost
    else (i.allow ip cost now).2.held ip now = i.held ip now := by
  have hb : ∃ b, (i ip).getD ⟨CAPACITY, now⟩ = b ∧ Ready b now ∧
      i.held ip now = b.level CAPACITY REFILL_PER_SECOND now := by
    unfold IdealBuckets.held
    cases hi : i ip with
    | none =>
      refine ⟨_, rfl, ⟨capacity_nonneg, le_refl _⟩, ?_⟩
      rw [Option.map_none, Option.getD_none, Option.getD_none, Bucket.level, sub_self, zero_mul, add_zero,
        min_self]
    | some b => exact ⟨_, rfl, hready ip b hi, rfl⟩
  obtain ⟨b, hget, hb, hheld⟩ := hb
  have hnext : (i.allow ip cost now).2.held ip now =
      (b.allow cost now).2.level CAPACITY REFILL_PER_SECOND now := by
    unfold IdealBuckets.held IdealBuckets.allow
    dsimp only
    rw [Function.update_self, hget, Option.map_some, Option.getD_some]
  have hanswer : (i.allow ip cost now).1 = (b.allow cost now).1 := by
    unfold IdealBuckets.allow
    rw [hget]
  rw [hanswer, hnext, hheld, allow_level hb.updated]
  by_cases hlt : b.level CAPACITY REFILL_PER_SECOND now < cost
  · rw [if_pos hlt, if_neg Bool.false_ne_true]
    exact Bucket.level_refill refill_nonneg (le_refl now)
  · have hcap : b.level CAPACITY REFILL_PER_SECOND now ≤ CAPACITY := Bucket.level_le_cap
    rw [if_neg hlt, if_pos rfl]
    refine ⟨not_lt.1 hlt, ?_⟩
    generalize b.level CAPACITY REFILL_PER_SECOND now = level at hcap
    rw [Bucket.level, sub_self, zero_mul, add_zero]
    exact min_eq_left (by linarith)

/-- The admitted calls of an address spend what its ideal bucket holds. -/
theorem admitted_spends (ip : IpAddr) {cs : List RateCall} : ∀ {l : ApiRateLimiter} {i : IdealBuckets}
    {clock : Rat}, Forgets l i clock → (cs.map RateCall.now).Pairwise (· ≤ ·) →
    (∀ c ∈ cs, clock ≤ c.now) →
    Bucket.Spends CAPACITY REFILL_PER_SECOND (i.held ip clock) clock (l.admitted ip cs) := by
  induction cs with
  | nil => exact fun _ _ _ => .nil _ _
  | cons c cs ih =>
    intro l i clock h hsorted hlater
    obtain ⟨hc, hsorted⟩ := List.pairwise_cons.1 hsorted
    have hnow := hlater c List.mem_cons_self
    have hrest : ∀ d ∈ cs, c.now ≤ d.now := fun d hd => hc _ (List.mem_map_of_mem hd)
    have hgain := held_later i ip hnow
    rw [ApiRateLimiter.admitted]
    by_cases hfull : (l.cleanup c.now).FullFor c.ip
    · obtain ⟨hanswer, hnext⟩ := h.refused c.cost hnow hfull
      rw [hanswer, if_neg (fun hin => Bool.false_ne_true hin.2)]
      exact (ih hnext hsorted hrest).before hnow hgain
    obtain ⟨hanswer, hnext⟩ := h.allow c.cost hnow hfull
    have hspent := ih hnext hsorted hrest
    rw [hanswer]
    by_cases hip : c.ip = ip
    · subst hip
      have htaken := held_allow (fun q b hb => (h.ready q b hb).later hnow) c.ip c.nonneg
      by_cases hyes : (i.allow c.ip c.cost c.now).1 = true
      · rw [if_pos hyes] at htaken
        rw [if_pos ⟨rfl, hyes⟩]
        rw [htaken.2] at hspent
        exact .cons hnow hgain (held_le i c.ip c.now) htaken.1 hspent
      · rw [if_neg hyes] at htaken
        rw [if_neg (fun hin => hyes hin.2)]
        rw [htaken] at hspent
        exact hspent.before hnow hgain
    · have hsame : (i.allow c.ip c.cost c.now).2.held ip c.now = i.held ip c.now := by
        unfold IdealBuckets.held IdealBuckets.allow
        dsimp only
        rw [Function.update_of_ne (Ne.symm hip)]
      rw [if_neg (fun hin => hip hin.1)]
      rw [hsame] at hspent
      exact hspent.before hnow hgain

/-! ## The size of the table -/

theorem cleanup_length (l : ApiRateLimiter) (now : Rat) :
    (l.cleanup now).clients.entries.length ≤ l.clients.entries.length := by
  unfold ApiRateLimiter.cleanup
  split
  · exact List.length_filter_le _ _
  · exact le_refl _

theorem allow_length {l : ApiRateLimiter} (h : l.clients.entries.length ≤ MAX_RATE_LIMIT_CLIENTS)
    (ip : IpAddr) (cost now : Rat) :
    (l.allow ip cost now).2.clients.entries.length ≤ MAX_RATE_LIMIT_CLIENTS := by
  have hclean := (cleanup_length l now).trans h
  unfold ApiRateLimiter.allow
  dsimp only
  split
  · exact hclean
  · rename_i hroom
    generalize l.cleanup now = l at hclean hroom
    rw [ApiRateLimiter.FullFor, not_and, not_le] at hroom
    rw [AList.entries_insert, List.length_cons]
    by_cases hin : ip ∈ l.clients
    · obtain ⟨b, before, behind, -, hentries, herase⟩ := List.exists_of_kerase (AList.mem_keys.1 hin)
      rw [herase]
      rw [hentries] at hclean
      simp only [List.length_append, List.length_cons] at hclean ⊢
      omega
    · have hlt := hroom hin
      rw [List.kerase_of_notMem_keys hin]
      omega

theorem after_length {cs : List RateCall} : ∀ {l : ApiRateLimiter},
    l.clients.entries.length ≤ MAX_RATE_LIMIT_CLIENTS →
    (l.after cs).clients.entries.length ≤ MAX_RATE_LIMIT_CLIENTS := by
  induction cs with
  | nil => exact fun h => h
  | cons c cs ih => exact fun h => ih (allow_length h c.ip c.cost c.now)

/-! ## Every sequence of calls -/

/-- mirrors crates/frp-game-server/src/app.rs:226 -/
def ApiRateLimiter.default : ApiRateLimiter := ⟨∅, none⟩

/-- **Dropping buckets is never noticed.** The answers to calls in the order of time are those
of buckets that are never dropped, but for addresses without a bucket while the table is full;
no address is admitted more than 60 and 2 for each second of a window; and the table never
holds more than 8192 buckets. -/
theorem limiter_ideal (cs : List RateCall) (hsorted : (cs.map RateCall.now).Pairwise (· ≤ ·)) :
    ApiRateLimiter.default.answers cs = IdealBuckets.answers (fun _ => none) .default cs ∧
      (∀ ip start d, 0 ≤ d → Bucket.spentWithin start (start + d)
        (ApiRateLimiter.default.admitted ip cs) ≤ 60 + 2 * d) ∧
      (ApiRateLimiter.default.after cs).clients.entries.length ≤ MAX_RATE_LIMIT_CLIENTS := by
  have hstart : ∀ clock, Forgets .default (fun _ => none) clock := fun clock =>
    ⟨fun _ _ h => by (cases h), fun _ _ h => by (cases h), fun _ _ h => by cases h⟩
  -- the clock before the first call
  obtain ⟨clock, hclock⟩ : ∃ clock, ∀ c ∈ cs, clock ≤ c.now := by
    cases cs with
    | nil => exact ⟨0, by simp⟩
    | cons c cs =>
      refine ⟨c.now, fun d hd => ?_⟩
      rcases List.mem_cons.1 hd with rfl | hd
      · exact le_refl _
      · exact (List.pairwise_cons.1 hsorted).1 _ (List.mem_map_of_mem hd)
  refine ⟨answers_ideal (hstart clock) hsorted hclock, fun ip start d hd => ?_,
    after_length (Nat.zero_le _)⟩
  have hspends := admitted_spends ip (hstart clock) hsorted hclock
  have hle : start ≤ start + d := le_add_of_nonneg_right hd
  have hwindow := hspends.window refill_nonneg capacity_nonneg hle
  rw [add_sub_cancel_left, mul_comm] at hwindow
  exact hwindow

/-- The bucket of an address is emptied, dropped and made anew. -/
def comingBack : List RateCall := [
  ⟨.v4 1, 60, 0, by decide⟩, ⟨.v4 1, 1, 0, by decide⟩, ⟨.v4 2, 1, 300, by decide⟩,
  ⟨.v4 1, 60, 301, by decide⟩, ⟨.v4 1, 1, 301, by decide⟩]

theorem comingBack_ideal : ApiRateLimiter.default.answers comingBack = [true, false, true, true, false] ∧
    IdealBuckets.answers (fun _ => none) .default comingBack = [true, false, true, true, false] := by
  have hanswers : ApiRateLimiter.default.answers comingBack = [true, false, true, true, false] := by
    decide +kernel
  exact ⟨hanswers, (limiter_ideal comingBack (by decide +kernel)).1 ▸ hanswers⟩

end OrangeFrp.App
