import Mathlib.Algebra.Order.Ring.Defs
import Mathlib.Tactic.Linarith
import Mathlib.Tactic.Ring

/-!
# Token buckets

A bucket gains tokens at a constant rate, up to a capacity, and loses those that are
taken. It notes how many it had at the last time anybody looked; what it holds now is its
`level`.

* `level_refill`: looking changes nothing.
* `level_full`: a bucket that is left alone long enough is full.
* `Spends.window`: from any sequence of takings, no more than the capacity and the gain of
  the window is taken within a window of time.
-/
namespace OrangeFrp.Core

structure Bucket (K : Type) where
  tokens : K
  updated : K
  deriving DecidableEq

namespace Bucket

variable {K : Type} [CommRing K] [LinearOrder K]

/-- What the bucket holds at a time. -/
def level (cap rate : K) (b : Bucket K) (now : K) : K := min (b.tokens + (now - b.updated) * rate) cap

/-- The bucket once somebody has looked. -/
def refill (cap rate : K) (b : Bucket K) (now : K) : Bucket K := ⟨b.level cap rate now, now⟩

variable {cap rate now later : K} {b : Bucket K}

theorem level_le_cap : b.level cap rate now ≤ cap := min_le_right _ _

variable [IsStrictOrderedRing K]

theorem mul_rate_nonneg (hr : 0 ≤ rate) (h : now ≤ later) : 0 ≤ (later - now) * rate :=
  mul_nonneg (sub_nonneg.2 h) hr

/-- The level grows with the rate at most. -/
theorem level_later (hr : 0 ≤ rate) (h : now ≤ later) :
    b.level cap rate later ≤ b.level cap rate now + (later - now) * rate := by
  have hgain := mul_rate_nonneg hr h
  unfold level
  rw [← min_add_add_right]
  refine le_min ((min_le_left _ _).trans (le_of_eq ?_)) ((min_le_right _ _).trans ?_)
  · ring
  · linarith

/-- **Looking changes nothing.** -/
theorem level_refill (hr : 0 ≤ rate) (h : now ≤ later) :
    (b.refill cap rate now).level cap rate later = b.level cap rate later := by
  have hgain := mul_rate_nonneg hr h
  unfold refill level
  dsimp only
  rw [← min_add_add_right, min_assoc, min_eq_right (show cap ≤ cap + (later - now) * rate by linarith)]
  congr 1
  ring

/-- **A bucket left alone is full** once the rate has filled its capacity. -/
theorem level_full (h0 : 0 ≤ b.tokens) (h : cap ≤ (now - b.updated) * rate) :
    b.level cap rate now = cap :=
  min_eq_right (by linarith)

theorem level_nonneg (hr : 0 ≤ rate) (hc : 0 ≤ cap) (h0 : 0 ≤ b.tokens) (h : b.updated ≤ now) :
    0 ≤ b.level cap rate now := by
  have hgain := mul_rate_nonneg hr h
  exact le_min (by linarith) hc

/-! ## What is taken in a window -/

/-- Takings, each a time and an amount, from a bucket that holds `v` at the time `clock` at
most: each finds its amount there. -/
inductive Spends (cap rate : K) : K → K → List (K × K) → Prop
  | nil (v clock : K) : Spends cap rate v clock []
  | cons {v clock now held amount : K} {rest : List (K × K)} :
      clock ≤ now → held ≤ v + (now - clock) * rate → held ≤ cap → amount ≤ held →
      Spends cap rate (held - amount) now rest → Spends cap rate v clock ((now, amount) :: rest)

/-- The amounts taken in the window, its ends included. -/
def spentWithin (start stop : K) (l : List (K × K)) : K :=
  ((l.filter fun e => start ≤ e.1 ∧ e.1 ≤ stop).map Prod.snd).sum

omit [IsStrictOrderedRing K] in
theorem spentWithin_cons (start stop : K) (e : K × K) (l : List (K × K)) :
    spentWithin start stop (e :: l) =
      (if start ≤ e.1 ∧ e.1 ≤ stop then e.2 else 0) + spentWithin start stop l := by
  unfold spentWithin
  by_cases h : start ≤ e.1 ∧ e.1 ≤ stop
  · rw [List.filter_cons_of_pos (by simpa using h), List.map_cons, List.sum_cons, if_pos h]
  · rw [List.filter_cons_of_neg (by simpa using h), if_neg h, zero_add]

variable {v w clock start stop : K} {l : List (K × K)}

/-- Takings that come later are takings from what there was before. -/
theorem Spends.before (h : Spends cap rate w later l) (hc : clock ≤ later)
    (hw : w ≤ v + (later - clock) * rate) : Spends cap rate v clock l := by
  cases h with
  | nil => exact .nil _ _
  | @cons _ _ now held _ _ hnow hheld hcap hamount hrest =>
    refine .cons (hc.trans hnow) ?_ hcap hamount hrest
    have hsum : (later - clock) * rate + (now - later) * rate = (now - clock) * rate := by ring
    linarith

omit [IsStrictOrderedRing K] in
/-- Nothing is taken in a window that is over. -/
theorem Spends.over (h : Spends cap rate v clock l) (hstop : stop < clock) :
    spentWithin start stop l = 0 := by
  induction h with
  | nil => rfl
  | cons hnow _ _ _ _ ih =>
    rw [spentWithin_cons, if_neg (fun hin => absurd (hstop.trans_le hnow) (not_lt.2 hin.2)),
      ih (hstop.trans_le hnow), zero_add]

/-- Until the end of a window that has begun, no more than the level and its gain is taken. -/
theorem Spends.until_stop (h : Spends cap rate v clock l) (hr : 0 ≤ rate) (hv : 0 ≤ v)
    (hstart : start ≤ clock) (hstop : clock ≤ stop) :
    spentWithin start stop l ≤ v + (stop - clock) * rate := by
  induction h with
  | nil =>
    have hgain := mul_rate_nonneg hr hstop
    rw [spentWithin, List.filter_nil, List.map_nil, List.sum_nil]
    linarith
  | @cons v clock now held amount rest hnow hheld hcap hamount hrest ih =>
    rw [spentWithin_cons]
    by_cases hin : now ≤ stop
    · have hrest' := ih (sub_nonneg.2 hamount) (hstart.trans hnow) hin
      rw [if_pos ⟨hstart.trans hnow, hin⟩]
      have hsum : (now - clock) * rate + (stop - now) * rate = (stop - clock) * rate := by ring
      linarith
    · have hgain := mul_rate_nonneg hr hstop
      rw [if_neg (fun h => hin h.2), hrest.over (not_le.1 hin)]
      linarith

/-- **A window of time** sees no more than the capacity and its gain. -/
theorem Spends.window (h : Spends cap rate v clock l) (hr : 0 ≤ rate) (hc : 0 ≤ cap)
    (hwindow : start ≤ stop) : spentWithin start stop l ≤ cap + (stop - start) * rate := by
  induction h with
  | nil =>
    have hgain := mul_rate_nonneg hr hwindow
    rw [spentWithin, List.filter_nil, List.map_nil, List.sum_nil]
    linarith
  | @cons v clock now held amount rest hnow hheld hcap hamount hrest ih =>
    rw [spentWithin_cons]
    by_cases hin : start ≤ now ∧ now ≤ stop
    · have hrest' := hrest.until_stop hr (sub_nonneg.2 hamount) hin.1 hin.2
      have hgain := mul_rate_nonneg hr hin.1
      rw [if_pos hin]
      have hsum : (now - start) * rate + (stop - now) * rate = (stop - start) * rate := by ring
      linarith
    · rw [if_neg hin, zero_add]
      exact ih

end Bucket

end OrangeFrp.Core
