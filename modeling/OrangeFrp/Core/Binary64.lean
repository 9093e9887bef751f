import Mathlib

/-!
# Doubles and powers of two

Facts about Lean's `Float`, read through its logical model. A finite double is a mantissa and
an exponent in canonical form; its magnitude is a natural number of units, a unit being the
least positive double.

* `unpack_canonical`, `unpack_pack`: what is unpacked is canonical, and what is canonical
  comes back from packing unless its exponent is out of range.
* `Canonical.eq_of_units`, `Canonical.units_lt`: magnitudes tell doubles apart and order them.
* `mul_power`: multiplying by a power of two scales the magnitude exactly, or overflows.
-/
namespace OrangeFrp.Core.Binary64

open Float.Model Float.Model.UnpackedFloat

/-! ## Magnitudes -/

@[irreducible] def units (m : Nat) (e : Int) : Nat := m * 2 ^ (e + 1074).toNat

/-- A mantissa of 53 bits, shorter only at the least exponent. -/
structure Canonical (m : Nat) (e : Int) : Prop where
  bits : m < 2 ^ 53
  low : -1074 ≤ e
  full : 2 ^ 52 ≤ m ∨ e = -1074

variable {m m' : Nat} {e e' : Int}

theorem units_add (m : Nat) (h : -1074 ≤ e) (k : Nat) : units m (e + k) = units m e * 2 ^ k := by
  have hexp : (e + k + 1074).toNat = (e + 1074).toNat + k := by omega
  rw [units, units, hexp, Nat.pow_add, Nat.mul_assoc]

/-- A greater exponent makes a greater magnitude. -/
theorem Canonical.units_lt (h : Canonical m e) (h' : Canonical m' e') (hlt : e < e') :
    units m e < units m' e' := by
  have hfull : 2 ^ 52 ≤ m' := by
    have hlow := h.low
    rcases h'.full with hfull | hleast
    · exact hfull
    · omega
  obtain ⟨k, hk⟩ : ∃ k : Nat, e' = e + 1 + k := ⟨(e' - e - 1).toNat, by omega⟩
  have hbits := h.bits
  have hless : units m e < 2 ^ 53 * 2 ^ (e + 1074).toNat := by
    rw [units]
    exact Nat.mul_lt_mul_of_pos_right hbits (Nat.two_pow_pos _)
  calc units m e < 2 ^ 53 * 2 ^ (e + 1074).toNat := hless
    _ = units (2 ^ 52) (e + 1) := by
      rw [show e + 1 = e + (1 : Nat) from rfl, units_add _ h.low, units]
      ring
    _ ≤ units (2 ^ 52) (e + 1 + k) := by
      rw [units_add _ (by have := h.low; omega)]
      exact Nat.le_mul_of_pos_right _ (Nat.two_pow_pos k)
    _ ≤ units m' e' := by
      rw [hk, units, units]
      exact Nat.mul_le_mul_right _ hfull

/-- **A magnitude has one canonical form.** -/
theorem Canonical.eq_of_units (h : Canonical m e) (h' : Canonical m' e') (heq : units m e = units m' e') :
    m = m' ∧ e = e' := by
  rcases lt_trichotomy e e' with hlt | rfl | hgt
  · exact absurd heq (h.units_lt h' hlt).ne
  · rw [units, units] at heq
    exact ⟨Nat.eq_of_mul_eq_mul_right (Nat.two_pow_pos _) heq, rfl⟩
  · exact absurd heq (h'.units_lt h hgt).ne'

/-! ## Rounding what needs none -/

theorem shiftRight_exact (m j k : Nat) :
    (⟨m * 2 ^ (j + k), false, false⟩ : ExtendedMantissa) >>> k = ⟨m * 2 ^ j, false, false⟩ := by
  induction k generalizing j with
  | zero => rfl
  | succ k ih =>
    have hsucc : (⟨m * 2 ^ (j + (k + 1)), false, false⟩ : ExtendedMantissa) >>> (k + 1) =
        ((⟨m * 2 ^ (j + (k + 1)), false, false⟩ : ExtendedMantissa) >>> k).shiftRightOne := rfl
    have hj : j + (k + 1) = (j + 1) + k := by omega
    rw [hsucc, hj, ih (j + 1)]
    have hdouble : m * 2 ^ (j + 1) = 2 * (m * 2 ^ j) := by ring
    simp only [ExtendedMantissa.shiftRightOne, hdouble, Nat.mul_div_cancel_left _ (Nat.succ_pos 1),
      Nat.mul_mod_right, Bool.or_self, bne_self_eq_false]

/-- The target exponent of `binary64`. -/
theorem targetExponent_eq (m : Nat) (e : Int) :
    Format.binary64.targetExponent (totalExponent m e) = max (m.log2 + e - 52) (-1074) := by
  simp only [Format.targetExponent, totalExponent, Format.mantissaBits, Format.minExponent]
  norm_num
  omega

theorem shiftToTargetExponent_exact {j k : Nat}
    (hk : (Format.binary64.targetExponent (totalExponent (m * 2 ^ (j + k)) e) - e).toNat = k) :
    shiftToTargetExponent Format.binary64 (m * 2 ^ (j + k)) e .exact = (⟨m * 2 ^ j, false, false⟩, e + k) := by
  unfold shiftToTargetExponent shiftToExponent
  simp only [hk]
  exact Prod.ext (shiftRight_exact m j k) rfl

theorem Canonical.log2_le (h : Canonical m e) : m.log2 ≤ 52 := by
  rcases Nat.eq_zero_or_pos m with rfl | hpos
  · exact Nat.zero_le 52
  · exact Nat.lt_succ_iff.1 ((Nat.log2_lt hpos.ne').2 h.bits)

theorem log2_mul_pow (hpos : 0 < m) (k : Nat) : (m * 2 ^ k).log2 = m.log2 + k := by
  have hself := Nat.log2_self_le hpos.ne'
  have hlt : m < 2 ^ (m.log2 + 1) := Nat.lt_log2_self
  rw [Nat.log2_eq_iff (Nat.mul_pos hpos (Nat.two_pow_pos k)).ne']
  refine ⟨?_, ?_⟩
  · rw [Nat.pow_add]
    exact Nat.mul_le_mul_right _ hself
  · rw [show m.log2 + k + 1 = (m.log2 + 1) + k by omega, Nat.pow_add]
    exact Nat.mul_lt_mul_of_pos_right hlt (Nat.two_pow_pos k)

/-- **A power of two times a canonical double** is rounded to what has its magnitude. -/
theorem round_scaled (h : Canonical m e) (hpos : 0 < m) (k : Nat) (s : Sign) : ∃ m' e' hpos',
    roundWithAccuracy Format.binary64 s (m * 2 ^ 52) (e + (k - 52)) .exact = .finite s m' e' hpos' ∧
      Canonical m' e' ∧ units m' e' = units m e * 2 ^ k := by
  have hlow := h.low
  have hlog := h.log2_le
  have hlog' : (m * 2 ^ 52).log2 = m.log2 + 52 := log2_mul_pow hpos 52
  have htarget := targetExponent_eq (m * 2 ^ 52) (e + (k - 52))
  rw [hlog'] at htarget
  -- the mantissa is shifted by `j` of the 52 places
  obtain ⟨j, hj⟩ : ∃ j : Nat, (Format.binary64.targetExponent (totalExponent (m * 2 ^ 52) (e + (k - 52))) -
      (e + (k - 52))).toNat = j := ⟨_, rfl⟩
  have hjle : j ≤ 52 := by omega
  have hlogj : m.log2 ≤ j := by omega
  have hsplit : 52 = (52 - j) + j := by omega
  have hshift := @shiftToTargetExponent_exact m (e + (k - 52)) (52 - j) j (by rw [← hsplit]; exact hj)
  rw [← hsplit] at hshift
  have hpos' : 0 < m * 2 ^ (52 - j) := Nat.mul_pos hpos (Nat.two_pow_pos _)
  have hlog'' : (m * 2 ^ (52 - j)).log2 = m.log2 + (52 - j) := log2_mul_pow hpos _
  have hcanonical : Canonical (m * 2 ^ (52 - j)) (e + (k - 52) + j) := by
    refine ⟨(Nat.log2_lt hpos'.ne').1 (by omega), by omega, ?_⟩
    by_cases hfull : m.log2 = j
    · left
      calc 2 ^ 52 ≤ 2 ^ (m * 2 ^ (52 - j)).log2 := Nat.pow_le_pow_right (by omega) (by omega)
        _ ≤ m * 2 ^ (52 - j) := Nat.log2_self_le hpos'.ne'
    · right
      omega
  have htarget' := targetExponent_eq (m * 2 ^ (52 - j)) (e + (k - 52) + j)
  rw [hlog''] at htarget'
  have hagain := @shiftToTargetExponent_exact m (e + (k - 52) + j) (52 - j) 0 (by
    rw [Nat.add_zero]
    have := hcanonical.low
    omega)
  rw [Nat.add_zero] at hagain
  refine ⟨m * 2 ^ (52 - j), e + (k - 52) + j, hpos', ?_, hcanonical, ?_⟩
  · have hrounded : (⟨m * 2 ^ (52 - j), false, false⟩ : ExtendedMantissa).roundedMantissa =
        m * 2 ^ (52 - j) := rfl
    unfold roundWithAccuracy
    simp only [hshift, hrounded, hagain, hpos'.ne', dite_false, Nat.cast_zero, Int.add_zero]
  · have hexp : 52 - j + (e + (k - 52) + j + 1074).toNat = (e + 1074).toNat + k := by omega
    rw [units, units, Nat.mul_assoc, ← Nat.pow_add, hexp, Nat.pow_add, Nat.mul_assoc]

/-! ## Packing -/

/-- **What is unpacked is canonical.** -/
theorem unpack_canonical {v : Float.Model} {s : Sign} {hpos : 0 < m} (h : v.unpack = .finite s m e hpos) :
    Canonical m e := by
  have hbits : (@unpackMantissa Format.binary64 v.toBits.toBitVec).toNat < 2 ^ 52 := BitVec.isLt _
  unfold Float.Model.unpack UnpackedFloat.unpack at h
  dsimp only at h
  split at h
  · split at h <;> cases h
  split at h
  · rename_i hzero
    split at h
    · cases h
    · cases h
      rw [hzero]
      exact ⟨by omega, by decide, .inr (by decide)⟩
  · rename_i hnonzero
    cases h
    have hexp : (@unpackExponent Format.binary64 v.toBits.toBitVec).toNat ≠ 0 := fun hzero =>
      hnonzero (BitVec.eq_of_toNat_eq hzero)
    have hmantissa : (1#1 ++ @unpackMantissa Format.binary64 v.toBits.toBitVec).toNat =
        2 ^ 52 + (@unpackMantissa Format.binary64 v.toBits.toBitVec).toNat := by
      rw [BitVec.toNat_append, ← Nat.shiftLeft_add_eq_or_of_lt hbits]
      rfl
    refine ⟨?_, ?_, .inl ?_⟩
    · rw [hmantissa]
      omega
    · show (-1074 : Int) ≤ _ - (1023 + 52 : Nat)
      omega
    · rw [hmantissa]
      omega

theorem finite_congr {s : Sign} {hpos : 0 < m} {hpos' : 0 < m'} (hm : m = m') (he : e = e') :
    UnpackedFloat.finite s m e hpos = .finite s m' e' hpos' := by
  subst hm he
  rfl

/-- **What is canonical comes back** from packing. -/
theorem unpack_pack (h : Canonical m e) (s : Sign) (hpos : 0 < m) (he : e ≤ 971) :
    (Float.Model.pack (.finite s m e hpos)).unpack = .finite s m e hpos := by
  have hbits := h.bits
  have hlow := h.low
  have hbiased : (e + Format.binary64.exponentBias + Format.binary64.mantissaBitsWithoutImplicit).toNat =
      (e + 1075).toNat := by
    show (e + 1023 + 52).toNat = _
    congr 1
    omega
  have hexp : (BitVec.ofNat 11 (e + 1075).toNat).toNat = (e + 1075).toNat :=
    Nat.mod_eq_of_lt (by omega)
  unfold Float.Model.unpack Float.Model.pack
  simp only [UnpackedFloat.pack, hbiased]
  rw [if_neg (by show ¬ 2 ^ 11 ≤ _; omega)]
  split
  · rename_i hfull
    have hlog : m.log2 = 52 := Nat.succ.inj hfull
    have hmin : 2 ^ 52 ≤ m := hlog ▸ Nat.log2_self_le hpos.ne'
    have hmantissa : (1#1 ++ BitVec.ofNat 52 m).toNat = m := by
      have hlow52 : (BitVec.ofNat 52 m).toNat = m - 2 ^ 52 := by
        show m % 2 ^ 52 = _
        omega
      have hone : (1#1).toNat <<< 52 = 2 ^ 52 := by decide
      rw [BitVec.toNat_append, ← Nat.shiftLeft_add_eq_or_of_lt (BitVec.isLt _), hlow52, hone]
      omega
    simp only [UnpackedFloat.unpack, unpackExponent_packComponents, unpackMantissa_packComponents,
      unpackSign_packComponents, Sign.ofBitVec_toBitVec]
    rw [if_neg, if_neg]
    · refine finite_congr hmantissa ?_
      rw [hexp]
      show ((e + 1075).toNat : Int) - (1023 + 52) = e
      omega
    · intro hzero
      have hzero' := congrArg BitVec.toNat hzero
      rw [hexp] at hzero'
      have hnat : (e + 1075).toNat = 0 := hzero'
      omega
    · intro hones
      have hones' := congrArg BitVec.toNat hones
      rw [hexp] at hones'
      have hnat : (e + 1075).toNat = 2047 := hones'
      omega
  · rename_i hshort
    have hlog : m.log2 ≠ 52 := fun hlog => hshort (congrArg Nat.succ hlog)
    have hmin : m < 2 ^ 52 := by
      have hle := h.log2_le
      exact (Nat.log2_lt hpos.ne').1 (by omega)
    have hleast : e = -1074 := by
      rcases h.full with hfull | hleast
      · omega
      · exact hleast
    have hmantissa : (BitVec.ofNat 52 m).toNat = m := Nat.mod_eq_of_lt hmin
    simp only [UnpackedFloat.unpack, unpackExponent_packComponents, unpackMantissa_packComponents,
      unpackSign_packComponents, Sign.ofBitVec_toBitVec]
    rw [if_neg (by decide), if_pos trivial, dif_neg]
    · refine finite_congr hmantissa ?_
      rw [hleast]
      rfl
    · intro hzero
      have hzero' := congrArg BitVec.toNat hzero
      rw [hmantissa] at hzero'
      have hnat : m = 0 := hzero'
      omega

theorem unpack_pack_overflow (s : Sign) (hpos : 0 < m) (he : 971 < e) :
    (Float.Model.pack (.finite s m e hpos)).unpack = .infinity s := by
  have hover : 2 ^ Format.binary64.exponentBits ≤
      (e + Format.binary64.exponentBias + Format.binary64.mantissaBitsWithoutImplicit).toNat + 1 := by
    show 2 ^ 11 ≤ (e + 1023 + 52).toNat + 1
    omega
  unfold Float.Model.unpack Float.Model.pack
  simp only [UnpackedFloat.pack]
  rw [if_pos hover]
  cases s <;> rfl

/-! ## Multiplying by a power of two -/

/-- A positive double of `n` units. -/
def Positive (x : Float) (n : Nat) : Prop :=
  ∃ m e hpos, x.toModel.unpack = .finite .positive m e hpos ∧ units m e = n

/-- The double is `2 ^ k`. -/
def IsPower (x : Float) (k : Nat) : Prop :=
  x.toModel.unpack = .finite .positive (2 ^ 52) (k - 52) (Nat.two_pow_pos 52)

variable {x y : Float} {n k : Nat}

theorem unpack_mul (x y : Float) : (x * y).toModel.unpack =
    (Float.Model.pack (UnpackedFloat.mul Format.binary64 x.toModel.unpack y.toModel.unpack)).unpack := rfl

/-- **Multiplying by a power of two** scales the magnitude exactly, or overflows. -/
theorem mul_power (hx : Positive x n) (hy : IsPower y k) :
    Positive (x * y) (n * 2 ^ k) ∨ (x * y).toModel.unpack = .infinity .positive := by
  obtain ⟨m, e, hpos, hunpack, rfl⟩ := hx
  have hcanonical := unpack_canonical hunpack
  obtain ⟨m', e', hpos', hround, hcanonical', hunits⟩ := round_scaled hcanonical hpos k .positive
  have hmul : (x * y).toModel.unpack = (Float.Model.pack (.finite .positive m' e' hpos')).unpack := by
    rw [unpack_mul, hunpack, hy, ← hround]
    rfl
  rcases le_or_gt e' 971 with hle | hgt
  · exact .inl ⟨m', e', hpos', hmul.trans (unpack_pack hcanonical' .positive hpos' hle), hunits⟩
  · exact .inr (hmul.trans (unpack_pack_overflow .positive hpos' hgt))

theorem infinity_mul_power (hx : x.toModel.unpack = .infinity .positive) (hy : IsPower y k) :
    (x * y).toModel.unpack = .infinity .positive := by
  rw [unpack_mul, hx, hy]
  simp only [UnpackedFloat.mul]
  rfl

theorem zero_mul_power {s : Sign} (hx : x.toModel.unpack = .zero s) (hy : IsPower y k) :
    (x * y).toModel.unpack = .zero s := by
  rw [unpack_mul, hx, hy]
  simp only [UnpackedFloat.mul]
  cases s <;> rfl

end OrangeFrp.Core.Binary64
