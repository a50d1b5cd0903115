/-
Rounding to binary64.

- `round_nearest`: no number of the format is nearer to a quotient than the one it is rounded to.
- `round_mono`: so rounding keeps the order, and what lies between two quotients that are rounded to one
  number is rounded to it too (`round_between`).
- `round_exact`: a natural number that the format has is rounded to itself.
- `exists_multiple_round`: where the numbers of the format are further apart than a step, some multiple of
  the step is rounded to each of them.
-/
import Blockwork.Proofs.JsonText

namespace Blockwork.Binary64

/-! ## Whole parts -/

theorem pow_le_of_lt_bitLength {n k : Nat} (h : k < bitLength n) : 2 ^ k ≤ n := by
  by_contra hlt
  have hle := bitLength_le (not_le.1 hlt)
  omega

theorem le_roundHalfEven (num den : Nat) : num / den ≤ roundHalfEven num den := by
  simp only [roundHalfEven]
  split_ifs <;> omega

/-- a quotient is rounded to a whole number no more than a half away -/
theorem two_mul_dist_roundHalfEven (num : Nat) {den : Nat} (hden : 0 < den) :
    2 * |(roundHalfEven num den : ℤ) * den - num| ≤ den := by
  have hsplit : (num : ℤ) = den * (num / den : ℕ) + (num % den : ℕ) := by
    exact_mod_cast (Nat.div_add_mod num den).symm
  have hmod := Nat.mod_lt num hden
  have habove : ((num / den : ℕ) + 1 : ℤ) * den - num = den - (num % den : ℕ) := by
    rw [hsplit]
    ring
  have hbelow : ((num / den : ℕ) : ℤ) * den - num = -((num % den : ℕ) : ℤ) := by
    rw [hsplit]
    ring
  simp only [roundHalfEven, Bool.or_eq_true, Bool.and_eq_true, decide_eq_true_eq, beq_iff_eq]
  split_ifs with hup
  · push_cast at habove ⊢
    rw [habove, abs_of_nonneg (by omega)]
    omega
  · rw [hbelow, abs_neg, Nat.abs_cast]
    omega

theorem roundHalfEven_nearest (num : Nat) {den : Nat} (hden : 0 < den) (c : ℤ) :
    |(roundHalfEven num den : ℤ) * den - num| ≤ |c * den - num| := by
  have hhalf := two_mul_dist_roundHalfEven num hden
  generalize roundHalfEven num den = m at hhalf ⊢
  by_cases hc : c = m
  · rw [hc]
  · -- another multiple is a whole divisor away, and so more than a half
    have hone : 1 ≤ |c - m| := Int.one_le_abs (sub_ne_zero.2 hc)
    have hapart : (den : ℤ) ≤ |c * den - m * den| := by
      rw [← sub_mul, abs_mul, Nat.abs_cast]
      exact le_mul_of_one_le_left (Int.natCast_nonneg den) hone
    have htriangle := abs_sub_le (c * (den : ℤ)) num (m * den)
    rw [abs_sub_comm (num : ℤ)] at htriangle
    omega

/-! ## Numbers of the format -/

/-- a significand and a scale as the format has them: no more than 53 binary digits, and all of them in use
above the smallest scale -/
structure IsNormal (m p : Nat) : Prop where
  lt : m < 2 ^ 53
  filled : p ≠ 0 → 2 ^ 52 ≤ m

theorem IsNormal.units_lt {m p : Nat} (h : IsNormal m p) : units m p < 2 ^ (53 + p) := by
  rw [Nat.pow_add]
  exact Nat.mul_lt_mul_of_pos_right h.lt (Decimal.twoTo_pos p)

/-- from some size on every number of the format is a multiple of a power of two -/
theorem IsNormal.dvd_units {m p k : Nat} (h : IsNormal m p) (hk : 2 ^ (52 + k) ≤ units m p) :
    2 ^ k ∣ units m p := by
  have hlt := (Nat.pow_lt_pow_iff_right (by decide)).1 (lt_of_le_of_lt hk h.units_lt)
  have hle : k ≤ p := by omega
  exact Dvd.dvd.mul_left (pow_dvd_pow 2 hle) m

theorem IsNormal.units_inj {m p m' p' : Nat} (h : IsNormal m p) (h' : IsNormal m' p')
    (hunits : units m p = units m' p') : m = m' ∧ p = p' := by
  have hscale : ∀ {m p m' p' : Nat}, IsNormal m p → IsNormal m' p' → units m p = units m' p' → p' ≤ p := by
    intro m p m' p' h h' hunits
    by_contra hlt
    have hfilled : 2 ^ (53 + p) ≤ units m' p' :=
      calc 2 ^ (53 + p) ≤ 2 ^ (52 + p') := Nat.pow_le_pow_right (by decide) (by omega)
        _ = 2 ^ 52 * 2 ^ p' := Nat.pow_add 2 52 p'
        _ ≤ units m' p' := Nat.mul_le_mul_right _ (h'.filled (by omega))
    have hlt := h.units_lt
    omega
  obtain rfl := le_antisymm (hscale h' h hunits.symm) (hscale h h' hunits)
  exact ⟨Nat.eq_of_mul_eq_mul_right (Decimal.twoTo_pos p) hunits, rfl⟩

/-- numbers of the format less than their spacing apart are equal -/
theorem IsNormal.eq_of_near {m p m' p' k : Nat} (h : IsNormal m p) (h' : IsNormal m' p')
    (hlow : 2 ^ (52 + k) ≤ units m p) (hlow' : 2 ^ (52 + k) ≤ units m' p')
    (hnear : |(units m' p' : ℤ) - units m p| < (2 ^ k : ℕ)) : m = m' ∧ p = p' := by
  have hdvd : ((2 ^ k : ℕ) : ℤ) ∣ (units m' p' : ℤ) - units m p :=
    dvd_sub (Int.natCast_dvd_natCast.2 (h'.dvd_units hlow')) (Int.natCast_dvd_natCast.2 (h.dvd_units hlow))
  have hzero := Int.eq_zero_of_abs_lt_dvd hdvd hnear
  exact h.units_inj h' (by omega)

/-! ## The nearest number -/

section
variable {negative : Bool} {num den m p : Nat}

/-- a finite outcome: the quotient rounded to a multiple of the power of two that leaves it 53 digits -/
theorem roundUnits_eq_finite (h : roundUnits negative num den = .finite negative m p) :
    IsNormal m p ∧ units m p = roundHalfEven num (den * twoTo (bitLength (num / den) - 53)) *
      twoTo (bitLength (num / den) - 53) := by
  have hbits := lt_bitLength (num / den)
  have hfull : bitLength (num / den) - 53 ≠ 0 → 2 ^ (52 + (bitLength (num / den) - 53)) ≤ num / den :=
    fun hscale => pow_le_of_lt_bitLength (by omega)
  have hlength : bitLength (num / den) ≤ bitLength (num / den) - 53 + 53 := by omega
  unfold roundUnits at h
  generalize bitLength (num / den) - 53 = scale at h hfull hlength ⊢
  have hquotient : num / (den * twoTo scale) < 2 ^ 53 := by
    rw [← Nat.div_div_eq_div_mul]
    apply Nat.div_lt_of_lt_mul
    rw [twoTo_eq, ← Nat.pow_add]
    exact lt_of_lt_of_le hbits (Nat.pow_le_pow_right (by decide) hlength)
  have hfilled : scale ≠ 0 → 2 ^ 52 ≤ num / (den * twoTo scale) := by
    intro hscale
    rw [← Nat.div_div_eq_div_mul, Nat.le_div_iff_mul_le (Decimal.twoTo_pos scale), twoTo_eq, ← Nat.pow_add]
    exact hfull hscale
  have hlow := le_roundHalfEven num (den * twoTo scale)
  have hhigh := roundHalfEven_le num (den * twoTo scale)
  by_cases hcarry : roundHalfEven num (den * twoTo scale) = twoTo 53
  · -- the digits carry over into a fifty-fourth, and the scale grows instead
    simp only [hcarry, if_true] at h
    split_ifs at h
    cases h
    refine ⟨⟨Nat.pow_lt_pow_right (by decide) (by decide), fun _ => le_refl (2 ^ 52)⟩, ?_⟩
    rw [hcarry, units, twoTo_eq, twoTo_eq, twoTo_eq, twoTo_eq, ← Nat.pow_add, ← Nat.pow_add]
    congr 1
    omega
  · simp only [hcarry, if_false] at h
    split_ifs at h
    have hlt : roundHalfEven num (den * twoTo scale) ≠ 2 ^ 53 := hcarry
    obtain ⟨-, rfl, rfl⟩ := Binary64.finite.inj h
    exact ⟨⟨by omega, fun hscale => (hfilled hscale).trans hlow⟩, rfl⟩

theorem isNormal_of_round (h : round negative num den = .finite negative m p) : IsNormal m p := by
  rw [round_eq] at h
  exact (roundUnits_eq_finite h).1

/-- **Rounding goes to the nearest number.** A number of the format that is not a multiple of the power of
two rounded to is smaller than all quotients with that many digits. -/
theorem round_nearest (hden : 0 < den) (h : round negative num den = .finite negative m p) {a : Nat}
    (ha : a ≤ 2 ^ 53) (q : Nat) :
    |(units m p : ℤ) * den - (num * twoTo 1074 : ℕ)| ≤ |(units a q : ℤ) * den - (num * twoTo 1074 : ℕ)| := by
  rw [round_eq] at h
  generalize num * twoTo 1074 = exact at h ⊢
  obtain ⟨-, hunits⟩ := roundUnits_eq_finite h
  have hfull : bitLength (exact / den) - 53 ≠ 0 → 2 ^ (52 + (bitLength (exact / den) - 53)) ≤ exact / den :=
    fun hscale => pow_le_of_lt_bitLength (by omega)
  generalize bitLength (exact / den) - 53 = scale at hunits hfull
  have hnearest := roundHalfEven_nearest exact (Nat.mul_pos hden (Decimal.twoTo_pos scale))
  have hrounded : (units m p : ℤ) * den =
      (roundHalfEven exact (den * twoTo scale) : ℤ) * (den * twoTo scale : ℕ) := by
    rw [hunits]
    push_cast
    ring
  rw [hrounded]
  by_cases hscale : scale ≤ q
  · have hmultiple : (units a q : ℤ) * den = ((a * twoTo (q - scale) : ℕ) : ℤ) * (den * twoTo scale : ℕ) := by
      have hpow : twoTo q = twoTo (q - scale) * twoTo scale := by
        rw [twoTo_eq, twoTo_eq, twoTo_eq, ← Nat.pow_add, Nat.sub_add_cancel hscale]
      rw [units, hpow]
      push_cast
      ring
    rw [hmultiple]
    exact hnearest _
  · have hsmall : units a q ≤ 2 ^ (52 + scale) :=
      (units_le ha le_rfl).trans (Nat.pow_le_pow_right (by decide) (by omega))
    have hlow : 2 ^ (52 + scale) * den ≤ exact := (Nat.le_div_iff_mul_le hden).1 (hfull (by omega))
    have hstep : (2 ^ 52 : ℤ) * (den * twoTo scale : ℕ) = (2 ^ (52 + scale) * den : ℕ) := by
      rw [twoTo_eq, Nat.pow_add]
      push_cast
      ring
    calc |(roundHalfEven exact (den * twoTo scale) : ℤ) * (den * twoTo scale : ℕ) - exact|
        ≤ |(2 ^ 52 : ℤ) * (den * twoTo scale : ℕ) - exact| := hnearest _
      _ ≤ |(units a q : ℤ) * den - exact| := by
        have hle : units a q * den ≤ 2 ^ (52 + scale) * den := Nat.mul_le_mul_right den hsmall
        have hcast : ((units a q * den : ℕ) : ℤ) = (units a q : ℤ) * den := Int.natCast_mul _ _
        rw [hstep, ← hcast, abs_sub_comm, abs_sub_comm ((units a q * den : ℕ) : ℤ), abs_of_nonneg (by omega),
          abs_of_nonneg (by omega)]
        omega

end

/-! ## Signs -/

/-- a number with a sign of its own in place of the one it has -/
def withSign (negative : Bool) : Binary64 → Binary64
  | nan => nan
  | infinite _ => infinite negative
  | finite _ m p => finite negative m p

theorem withSign_roundUnits (negative sign : Bool) (num den : Nat) :
    (roundUnits sign num den).withSign negative = roundUnits negative num den := by
  simp only [roundUnits]
  split_ifs <;> rfl

theorem withSign_round (negative sign : Bool) (num den : Nat) :
    (round sign num den).withSign negative = round negative num den := by
  rw [round_eq, round_eq, withSign_roundUnits]

/-! ## Natural numbers -/

section
variable {negative : Bool} {n m p : Nat}

theorem dist_units_le (h : round negative n 1 = .finite negative m p) {a : Nat} (ha : a ≤ 2 ^ 53) (q : Nat) :
    |(units m p : ℤ) - (n * twoTo 1074 : ℕ)| ≤ |(units a q : ℤ) - (n * twoTo 1074 : ℕ)| := by
  simpa only [Nat.cast_one, mul_one] using round_nearest Nat.one_pos h ha q

/-- **A natural number that the format has is rounded to itself.** -/
theorem round_exact (negative : Bool) {bits a q : Nat} (hbits : bits ≤ 970) (hn : n < 2 ^ bits) (ha : a ≤ 2 ^ 53)
    (hunits : units a q = n * twoTo 1074) :
    ∃ m p, round negative n 1 = .finite negative m p ∧ units m p = n * twoTo 1074 := by
  obtain ⟨m, p, h, -⟩ := round_natural negative hbits hn
  have hdist := dist_units_le h ha q
  rw [hunits, sub_self, abs_zero] at hdist
  have hzero := abs_eq_zero.1 (le_antisymm hdist (abs_nonneg _))
  exact ⟨m, p, h, by omega⟩

/-- so is a multiple of a power of two by a factor with few enough digits -/
theorem round_mul_pow (negative : Bool) {bits a e : Nat} (hbits : bits ≤ 970) (hn : a * 2 ^ e < 2 ^ bits)
    (ha : a ≤ 2 ^ 53) :
    ∃ m p, round negative (a * 2 ^ e) 1 = .finite negative m p ∧ units m p = a * 2 ^ e * twoTo 1074 := by
  have hunits : units a (e + 1074) = a * 2 ^ e * twoTo 1074 := by
    rw [units, twoTo_eq, twoTo_eq, Nat.mul_assoc, ← Nat.pow_add]
  exact round_exact negative hbits hn ha hunits

/-- a number that the greater of two is no further from lies in the upper half between them -/
theorem add_le_two_mul_of_dist_le {x y a : ℤ} (hlt : y < x) (h : |x - a| ≤ |y - a|) : x + y ≤ 2 * a := by
  rcases abs_cases (x - a) with hx | hx <;> rcases abs_cases (y - a) with hy | hy <;> omega

/-- **Rounding keeps the order.** Were the outcomes the other way round, both numbers would be their
midpoint, and so one number. -/
theorem round_mono {n' m' p' : Nat} (hle : n ≤ n') (h : round negative n 1 = .finite negative m p)
    (h' : round negative n' 1 = .finite negative m' p') : units m p ≤ units m' p' := by
  by_contra hlt
  have hlt : (units m' p' : ℤ) < units m p := by exact_mod_cast not_le.1 hlt
  have hupper := add_le_two_mul_of_dist_le hlt (dist_units_le h (isNormal_of_round h').lt.le p')
  have hdist := dist_units_le h' (isNormal_of_round h).lt.le p
  rw [← abs_neg, ← abs_neg ((units m p : ℤ) - _), neg_sub', neg_sub'] at hdist
  have hlower := add_le_two_mul_of_dist_le (neg_lt_neg hlt) hdist
  have hscaled : n' * twoTo 1074 ≤ n * twoTo 1074 := by omega
  obtain rfl := le_antisymm hle (Nat.le_of_mul_le_mul_right hscaled (Decimal.twoTo_pos 1074))
  rw [h] at h'
  cases h'
  exact lt_irrefl _ hlt

/-- what lies between two numbers rounded to one number is rounded to it -/
theorem round_between {low high bits : Nat} (hlow : low ≤ n) (hhigh : n ≤ high) (hbits : bits ≤ 970)
    (hn : n < 2 ^ bits) (hl : round negative low 1 = .finite negative m p)
    (hh : round negative high 1 = .finite negative m p) : round negative n 1 = .finite negative m p := by
  obtain ⟨m', p', h, -⟩ := round_natural negative hbits hn
  have hunits := le_antisymm (round_mono hlow hl h) (round_mono hhigh h hh)
  obtain ⟨rfl, rfl⟩ := (isNormal_of_round hl).units_inj (isNormal_of_round h) hunits
  exact h

/-- **What is near a number of the format is rounded to it**: within half a step, where the numbers are more
than a step apart. -/
theorem round_of_near {y step k bits : Nat} (hbits : bits ≤ 970) (hy : y < 2 ^ bits)
    (h : round negative n 1 = .finite negative m p) (hunits : units m p = n * twoTo 1074)
    (hnear : 2 * |(y : ℤ) - n| ≤ step) (hstep : step < 2 ^ k) (hlarge : 2 ^ (52 + k) + step ≤ n) :
    round negative y 1 = .finite negative m p := by
  obtain ⟨m', p', h', -⟩ := round_natural negative hbits hy
  -- the outcome is no further from `y` than the number is, so they are within a step of one another
  have hdist : |(units m p : ℤ) - (y * twoTo 1074 : ℕ)| = |(y : ℤ) - n| * twoTo 1074 := by
    rw [hunits, abs_sub_comm]
    push_cast
    rw [← sub_mul, abs_mul, Nat.abs_cast]
  have hnearest := dist_units_le h' (isNormal_of_round h).lt.le p
  have htriangle := abs_sub_le (units m' p' : ℤ) (y * twoTo 1074 : ℕ) (units m p)
  rw [abs_sub_comm ((y * twoTo 1074 : ℕ) : ℤ), hdist] at htriangle
  rw [hdist] at hnearest
  have hapart : |(units m' p' : ℤ) - units m p| ≤ (step * twoTo 1074 : ℕ) := by
    have hscaled := mul_le_mul_of_nonneg_right hnear (Int.natCast_nonneg (twoTo 1074))
    push_cast
    linarith
  have hpow : ∀ j, 2 ^ (j + 1074) = 2 ^ j * twoTo 1074 := fun j => by rw [twoTo_eq, ← Nat.pow_add]
  have hlow : 2 ^ (52 + (k + 1074)) + step * twoTo 1074 ≤ units m p := by
    rw [← Nat.add_assoc, hpow, ← Nat.add_mul, hunits]
    exact Nat.mul_le_mul_right _ hlarge
  have hgap : step * twoTo 1074 < 2 ^ (k + 1074) := by
    rw [hpow]
    exact Nat.mul_lt_mul_of_pos_right hstep (Decimal.twoTo_pos 1074)
  have hbelow := neg_le_of_abs_le hapart
  generalize step * twoTo 1074 = gap at hlow hgap hapart hbelow
  obtain ⟨rfl, rfl⟩ := (isNormal_of_round h).eq_of_near (isNormal_of_round h') (k := k + 1074) (by omega) (by omega)
    (lt_of_le_of_lt hapart (by exact_mod_cast hgap))
  exact h'

/-- a step below the spacing of the numbers hits each of them -/
theorem exists_multiple_round {step k bits : Nat} (hbits : bits ≤ 969) (hn : n < 2 ^ bits)
    (h : round negative n 1 = .finite negative m p) (hunits : units m p = n * twoTo 1074) (hpos : 0 < step)
    (hstep : step < 2 ^ k) (hlarge : 2 ^ (52 + k) + step ≤ n) :
    ∃ c, round negative (c * step) 1 = .finite negative m p := by
  refine ⟨roundHalfEven n step, ?_⟩
  have hnear := two_mul_dist_roundHalfEven n hpos
  rw [← Int.natCast_mul] at hnear
  have hsize : roundHalfEven n step * step < 2 ^ (bits + 1) := by
    have hbound := le_abs_self ((roundHalfEven n step * step : ℕ) - n : ℤ)
    have hle : step ≤ n := (Nat.le_add_left _ _).trans hlarge
    rw [Nat.pow_succ]
    omega
  exact round_of_near (by omega) hsize h hunits hnear hstep hlarge

end

end Blockwork.Binary64
