/-
What a decimal is read as: the number nearest to its exact value.

- `Binary64.nearest`: the number of the format for a rational magnitude; of a quotient it is the quotient rounded,
  whichever terms the quotient is written in (`nearest_div`).
- `Binary64.round_of_large`, `Binary64.round_of_small`: quotients from 2^1024 on are rounded to infinity, and those
  below half of the smallest number to zero.
- `Decimal.read_eq_round`, `Decimal.read_eq_nearest`: so nothing is lost where reading does not form the power of ten.
-/
import Blockwork.Proofs.ShortestDigits

namespace Blockwork

namespace Decimal

theorem twoTo_add (i j : Nat) : twoTo (i + j) = twoTo i * twoTo j := Nat.pow_add 2 i j

theorem tenTo_add (i j : Nat) : tenTo (i + j) = tenTo i * tenTo j := Nat.pow_add 10 i j

end Decimal

namespace Binary64

/-! ## Quotients -/

theorem roundHalfEven_mul_mul (num den : Nat) {factor : Nat} (hfactor : 0 < factor) :
    roundHalfEven (num * factor) (den * factor) = roundHalfEven num den := by
  have htwice : 2 * (num * factor % (den * factor)) = 2 * (num % den) * factor := by
    rw [Nat.mul_mod_mul_right, Nat.mul_assoc]
  have hless : den * factor < 2 * (num % den) * factor ↔ den < 2 * (num % den) := Nat.mul_lt_mul_right hfactor
  have hsame : 2 * (num % den) * factor = den * factor ↔ 2 * (num % den) = den := Nat.mul_left_inj hfactor.ne'
  simp only [roundHalfEven, htwice, Nat.mul_div_mul_right num den hfactor, gt_iff_lt, hless, Bool.or_eq_true,
    Bool.and_eq_true, decide_eq_true_eq, beq_iff_eq, hsame]

theorem roundUnits_mul_mul (negative : Bool) (num den : Nat) {factor : Nat} (hfactor : 0 < factor) :
    roundUnits negative (num * factor) (den * factor) = roundUnits negative num den := by
  have hscaled : ∀ p, den * factor * twoTo p = den * twoTo p * factor := fun p => Nat.mul_right_comm _ _ _
  simp only [roundUnits, Nat.mul_div_mul_right _ _ hfactor, hscaled, roundHalfEven_mul_mul _ _ hfactor]

theorem round_mul_mul (negative : Bool) (num den : Nat) {factor : Nat} (hfactor : 0 < factor) :
    round negative (num * factor) (den * factor) = round negative num den := by
  rw [round_eq, round_eq, Nat.mul_right_comm, roundUnits_mul_mul negative _ den hfactor]

theorem round_congr (negative : Bool) {num den num' den' : Nat} (hden : 0 < den) (hden' : 0 < den')
    (h : num * den' = num' * den) : round negative num den = round negative num' den' :=
  calc round negative num den = round negative (num * den') (den * den') := (round_mul_mul negative num den hden').symm
    _ = round negative (num' * den) (den' * den) := by rw [h, Nat.mul_comm den]
    _ = round negative num' den' := round_mul_mul negative num' den' hden

theorem lt_bitLength_of_le {n k : Nat} (h : twoTo k ≤ n) : k < bitLength n :=
  (Nat.pow_lt_pow_iff_right (by decide)).1 (lt_of_le_of_lt h (lt_bitLength n))

theorem roundUnits_of_large (negative : Bool) {units den k : Nat} (hk : 2098 ≤ k) (hden : 0 < den)
    (h : twoTo k * den ≤ units) : roundUnits negative units den = .infinite negative := by
  have hbits := lt_bitLength_of_le ((Nat.le_div_iff_mul_le hden).2 h)
  by_cases hcarry : roundHalfEven units (den * twoTo (bitLength (units / den) - 53)) = twoTo 53
  · simp only [roundUnits, hcarry, if_true]
    exact if_pos (by omega)
  · simp only [roundUnits, hcarry, if_false]
    exact if_pos (by omega)

/-- from 2^1024 on, quotients are beyond the numbers of the format -/
theorem round_of_large (negative : Bool) {num den : Nat} (hden : 0 < den) (h : twoTo 1024 * den ≤ num) :
    round negative num den = .infinite negative := by
  have hunits : twoTo 1024 * twoTo 1074 * den ≤ num * twoTo 1074 := by
    rw [Nat.mul_right_comm]
    exact Nat.mul_le_mul_right _ h
  rw [← Decimal.twoTo_add] at hunits
  rw [round_eq]
  exact roundUnits_of_large negative (by omega) hden hunits

/-- below half of the smallest number, quotients are rounded to zero -/
theorem round_of_small (negative : Bool) {num den : Nat} (h : 2 * (num * twoTo 1074) < den) :
    round negative num den = .zero negative := by
  rw [round_eq]
  generalize num * twoTo 1074 = units at h ⊢
  have hquotient : units / den = 0 := Nat.div_eq_of_lt (by omega)
  have hscale : bitLength (units / den) - 53 = 0 := by rw [hquotient]; rfl
  have hone : den * twoTo 0 = den := Nat.mul_one den
  have hrounded : roundHalfEven units den = 0 := by
    have hrest : units % den = units := Nat.mod_eq_of_lt (by omega)
    have hdown : ¬ 2 * units > den := by omega
    simp [roundHalfEven, hquotient, hrest, hdown]
  have hplain : (0 : Nat) ≠ twoTo 53 := (Decimal.twoTo_pos 53).ne
  rw [roundUnits, hscale, hone, hrounded]
  simp only [if_neg hplain]
  rfl

theorem roundUnits_ne_nan (negative : Bool) (units den : Nat) : roundUnits negative units den ≠ .nan := by
  intro h
  simp only [roundUnits] at h
  split_ifs at h

theorem round_ne_nan (negative : Bool) (num den : Nat) : round negative num den ≠ .nan := by
  rw [round_eq]
  exact roundUnits_ne_nan negative (num * twoTo 1074) den

/-- the number nearest to a magnitude, with a sign -/
def nearest (negative : Bool) (magnitude : ℚ) : Binary64 :=
  round negative magnitude.num.natAbs magnitude.den

/-- **A quotient's nearest number is the quotient rounded**, in whichever terms it is written. -/
theorem nearest_div (negative : Bool) (num : Nat) {den : Nat} (hden : 0 < den) :
    nearest negative (num / den : ℚ) = round negative num den := by
  have hpos : 0 < ((num : ℚ) / den).den := Rat.den_pos _
  refine round_congr negative hpos hden ?_
  have hratio := Rat.num_div_den ((num : ℚ) / den)
  have hnonneg : 0 ≤ ((num : ℚ) / den).num := Rat.num_nonneg.2 (by positivity)
  rw [div_eq_div_iff (Nat.cast_ne_zero.2 hpos.ne') (Nat.cast_ne_zero.2 hden.ne')] at hratio
  have hcross : ((num : ℚ) / den).num * den = num * ((num : ℚ) / den).den := by exact_mod_cast hratio
  rw [← Int.natAbs_of_nonneg hnonneg] at hcross
  exact_mod_cast hcross

end Binary64

namespace Decimal

/-! ## Decimals -/

theorem pow_pred_digitCount_le {n : Nat} (h : n ≠ 0) : 10 ^ (digitCount n - 1) ≤ n := by
  rcases Nat.eq_zero_or_pos (digitCount n - 1) with hzero | hpos
  · rw [hzero]
    exact Nat.pos_of_ne_zero h
  · exact pow_le_of_lt_digitCount hpos (Nat.sub_lt (digitCount_pos n) Nat.one_pos)

/-- **A decimal is read as its exact value rounded.** Where the power of ten is not formed, the value is beyond the
numbers of the format, or nearer to zero than to all others. -/
theorem read_eq_round (negative : Bool) (digits : Nat) (exponent : Int) :
    read negative digits exponent =
      .round negative (digits * tenTo exponent.toNat) (tenTo (-exponent).toNat) := by
  unfold read
  simp only
  split_ifs with hzero hlarge hsmall hneg
  · rw [hzero, Nat.zero_mul, Binary64.round_of_small]
    rw [Nat.zero_mul, Nat.mul_zero]
    exact tenTo_pos _
  · -- the leading digit alone is beyond the numbers of the format
    refine (Binary64.round_of_large negative (tenTo_pos _) ?_).symm
    have hlimit : twoTo 1024 ≤ tenTo 310 := by decide +kernel
    calc twoTo 1024 * tenTo (-exponent).toNat ≤ tenTo 310 * tenTo (-exponent).toNat := Nat.mul_le_mul_right _ hlimit
      _ = tenTo (310 + (-exponent).toNat) := (tenTo_add _ _).symm
      _ ≤ tenTo (digitCount digits - 1 + exponent.toNat) := Nat.pow_le_pow_right (by decide) (by omega)
      _ = 10 ^ (digitCount digits - 1) * tenTo exponent.toNat := tenTo_add _ _
      _ ≤ digits * tenTo exponent.toNat := Nat.mul_le_mul_right _ (pow_pred_digitCount_le hzero)
  · -- one more than all digits is still below half of the smallest number
    refine (Binary64.round_of_small negative ?_).symm
    have hlimit : 2 * twoTo 1074 ≤ tenTo 331 := by decide +kernel
    have hwhole : exponent.toNat = 0 := by omega
    calc 2 * (digits * tenTo exponent.toNat * twoTo 1074) = digits * (2 * twoTo 1074) := by
          rw [hwhole, tenTo_eq, Nat.pow_zero, Nat.mul_one, Nat.mul_left_comm]
      _ < 10 ^ digitCount digits * tenTo 331 :=
          Nat.mul_lt_mul_of_lt_of_le (lt_pow_digitCount digits) hlimit (tenTo_pos 331)
      _ = tenTo (digitCount digits + 331) := (tenTo_add _ _).symm
      _ ≤ tenTo (-exponent).toNat := Nat.pow_le_pow_right (by decide) (by omega)
  · have hwhole : exponent.toNat = 0 := by omega
    rw [hwhole, tenTo_eq 0, Nat.pow_zero, Nat.mul_one]
  · have hwhole : (-exponent).toNat = 0 := by omega
    rw [hwhole, tenTo_eq 0, Nat.pow_zero]

theorem read_eq_nearest (negative : Bool) (digits : Nat) (exponent : Int) :
    read negative digits exponent = .nearest negative (digits * 10 ^ exponent) := by
  have hvalue : (digits * 10 ^ exponent : ℚ) = (digits * tenTo exponent.toNat : ℕ) / (tenTo (-exponent).toNat : ℕ) := by
    rw [tenTo_eq, tenTo_eq, Nat.cast_mul, Nat.cast_pow, Nat.cast_pow, Nat.cast_ofNat, mul_div_assoc, ← zpow_natCast,
      ← zpow_natCast, ← zpow_sub₀ (by norm_num)]
    congr 2
    omega
  rw [hvalue, Binary64.nearest_div negative _ (tenTo_pos _), read_eq_round]

end Decimal

end Blockwork
