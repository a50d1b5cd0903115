/-
The fewest digits that are read back as a number, for integers below 2^63.

- `onGrid?_isSome`, `hits_of_onGrid?`: where a multiple of a power of ten is rounded to the integer's number,
  one of the two neighbours is, because rounding keeps the order, and it is found.
- `exists_hits`: a grid of seventeen digits has such a multiple.
- `shortest_of_holds`: so the digits stand for a multiple of the greatest power of ten that has one, written
  without a point, and for the integer itself if that is one.
- `dvd_of_small`: below 2^54 + 8 nothing but the integer is a multiple of ten with its number.
-/
import Blockwork.Proofs.Rounding

namespace Blockwork

theorem tenTo_eq (k : Nat) : tenTo k = 10 ^ k := rfl

theorem tenTo_pos (k : Nat) : 0 < tenTo k := Nat.pow_pos (by decide)

namespace Decimal

/-! ## Digits -/

theorem toDigits_mul_tenTo {n : Nat} (hn : 0 < n) (k : Nat) :
    Nat.toDigits 10 (n * tenTo k) = Nat.toDigits 10 n ++ List.replicate k '0' := by
  induction k with
  | zero => rw [tenTo_eq, Nat.pow_zero, Nat.mul_one, List.replicate_zero, List.append_nil]
  | succ k ih =>
    have hstep : n * tenTo (k + 1) = n * tenTo k * 10 := by rw [tenTo_eq, Nat.pow_succ, ← Nat.mul_assoc, tenTo_eq]
    have hpos := Nat.mul_pos hn (tenTo_pos k)
    rw [hstep, Nat.toDigits_of_base_le (by decide) (by omega), Nat.mul_div_cancel _ (by decide), Nat.mul_mod_left, ih,
      List.append_assoc, List.replicate_succ']
    rfl

theorem digitCount_mul_tenTo {n : Nat} (hn : 0 < n) (k : Nat) : digitCount (n * tenTo k) = digitCount n + k := by
  rw [digitCount, toDigits_mul_tenTo hn, List.length_append, List.length_replicate, digitCount]

theorem digitCount_le {n k : Nat} (hk : 0 < k) (h : n < 10 ^ k) : digitCount n ≤ k :=
  (Nat.length_toDigits_le_iff (by decide) hk).2 h

theorem digitCount_pos (n : Nat) : 0 < digitCount n := Nat.length_toDigits_pos

theorem lt_pow_digitCount (n : Nat) : n < 10 ^ digitCount n :=
  (Nat.length_toDigits_le_iff (by decide) (digitCount_pos n)).1 le_rfl

theorem pow_le_of_lt_digitCount {n k : Nat} (hk : 0 < k) (h : k < digitCount n) : 10 ^ k ≤ n := by
  by_contra hlt
  have hle := digitCount_le hk (not_le.1 hlt)
  omega

/-- a decimal without digits after the point is the notation of a natural number -/
theorem positional_natural {d : Nat} (hd : 0 < d) (k : Nat) : positional ⟨d, k⟩ = Nat.toDigits 10 (d * tenTo k) := by
  rw [toDigits_mul_tenTo hd]
  unfold positional
  rw [if_pos (Int.natCast_nonneg k)]
  rfl

theorem round_zero (negative : Bool) : Binary64.round negative 0 1 = .zero negative := by
  rw [Binary64.round_eq, Nat.zero_mul]
  cases negative <;> rfl

/-- a decimal of moderate size without digits after the point is rounded as the number it stands for -/
theorem read_natural (negative : Bool) {d k : Nat} (h : digitCount d + k ≤ 310) :
    read negative d k = .round negative (d * tenTo k) 1 := by
  unfold read
  by_cases hd : d = 0
  · rw [if_pos hd, hd, Nat.zero_mul, round_zero]
  · rw [if_neg hd, if_neg (by omega), if_neg (by omega), if_neg (by omega), Int.toNat_natCast]

/-! ## Grids -/

/-- the positive number `m · 2^p` units is an integer below 2^63 -/
structure Holds (n m p : Nat) : Prop where
  pos : 0 < n
  lt : n < 2 ^ 63
  round : Binary64.round false n 1 = .finite false m p
  units : Binary64.units m p = n * twoTo 1074

section
variable {n m p : Nat}

/-- a multiple of a power of ten that is rounded to the number -/
def Hits (m p c k : Nat) : Prop := Binary64.round false (c * tenTo k) 1 = .finite false m p

instance (m p c k : Nat) : Decidable (Hits m p c k) := inferInstanceAs (Decidable (_ = _))

theorem place_of_holds (h : Holds n m p) : place m p = digitCount n := by
  have hscale : n * twoTo 1074 * tenTo 400 / twoTo 1074 = n * tenTo 400 := by
    rw [Nat.mul_right_comm, Nat.mul_div_cancel _ (twoTo_pos 1074)]
  unfold place
  rw [h.units, hscale, digitCount_mul_tenTo h.pos]
  omega

theorem Holds.digitCount_le (h : Holds n m p) : digitCount n ≤ 19 :=
  Decimal.digitCount_le (by decide) (h.lt.trans (by decide))

theorem Holds.ne_zero (h : Holds n m p) : m ≠ 0 := by
  rintro rfl
  have hunits := h.units
  rw [Binary64.units, Nat.zero_mul] at hunits
  exact absurd hunits (Nat.mul_pos h.pos (twoTo_pos 1074)).ne

theorem readsBack_iff_hits {c k : Nat} (hc : digitCount c + k ≤ 310) : readsBack m p ⟨c, k⟩ ↔ Hits m p c k := by
  simp only [readsBack, read_natural false hc, beq_iff_eq, Hits]

/-- the neighbour of an integer on a grid that hits, the nearer one of two -/
theorem onGrid?_of_holds (h : Holds n m p) {k : Nat} (hk : k ≤ 19) :
    onGrid? m p k =
      if Hits m p (n / tenTo k) k then
        if Hits m p (n / tenTo k + 1) k then
          if 2 * (n % tenTo k) < tenTo k then some ⟨n / tenTo k, k⟩ else some ⟨n / tenTo k + 1, k⟩
        else some ⟨n / tenTo k, k⟩
      else if Hits m p (n / tenTo k + 1) k then some ⟨n / tenTo k + 1, k⟩
      else none := by
  have hneg : (-(k : ℤ)).toNat = 0 := by omega
  have hnum : Binary64.units m p * tenTo (-(k : ℤ)).toNat = twoTo 1074 * n := by
    rw [h.units, hneg, tenTo_eq, Nat.pow_zero, Nat.mul_one, Nat.mul_comm]
  have hquotient : twoTo 1074 * n / (twoTo 1074 * tenTo k) = n / tenTo k :=
    Nat.mul_div_mul_left n (tenTo k) (twoTo_pos 1074)
  have hrest : 2 * (twoTo 1074 * n % (twoTo 1074 * tenTo k)) < twoTo 1074 * tenTo k ↔ 2 * (n % tenTo k) < tenTo k := by
    rw [Nat.mul_mod_mul_left, Nat.mul_left_comm]
    exact Nat.mul_lt_mul_left (twoTo_pos 1074)
  have hsize : n / tenTo k + 1 < 10 ^ 20 := by
    have hle := Nat.div_le_self n (tenTo k)
    have hlt := h.lt
    omega
  have hcount : ∀ c < 10 ^ 20, digitCount c + k ≤ 310 := by
    intro c hc
    have hdigits := Decimal.digitCount_le (by decide) hc
    omega
  unfold onGrid?
  simp only [hnum, Int.toNat_natCast, hquotient, hrest]
  have hlow := readsBack_iff_hits (m := m) (p := p) (hcount _ (Nat.lt_of_succ_lt hsize))
  have hhigh := readsBack_iff_hits (m := m) (p := p) (hcount _ hsize)
  by_cases hl : Hits m p (n / tenTo k) k
  · by_cases hh : Hits m p (n / tenTo k + 1) k
    · rw [hlow.2 hl, hhigh.2 hh, if_pos hl, if_pos hh]
    · rw [hlow.2 hl, Bool.eq_false_iff.2 (hhigh.not.2 hh), if_pos hl, if_neg hh]
  · by_cases hh : Hits m p (n / tenTo k + 1) k
    · rw [Bool.eq_false_iff.2 (hlow.not.2 hl), hhigh.2 hh, if_neg hl, if_pos hh]
    · rw [Bool.eq_false_iff.2 (hlow.not.2 hl), Bool.eq_false_iff.2 (hhigh.not.2 hh), if_neg hl, if_neg hh]

theorem hits_self (h : Holds n m p) {k : Nat} (hdvd : tenTo k ∣ n) : Hits m p (n / tenTo k) k := by
  rw [Hits, Nat.div_mul_cancel hdvd]
  exact h.round

theorem hits_of_onGrid? (h : Holds n m p) {k : Nat} (hk : k ≤ 19) {d : Digits} (hd : onGrid? m p k = some d) :
    ∃ c, d = ⟨c, k⟩ ∧ Hits m p c k := by
  rw [onGrid?_of_holds h hk] at hd
  split_ifs at hd with hl hh hnear hh
  · exact ⟨_, (Option.some.inj hd).symm, hl⟩
  · exact ⟨_, (Option.some.inj hd).symm, hh⟩
  · exact ⟨_, (Option.some.inj hd).symm, hl⟩
  · exact ⟨_, (Option.some.inj hd).symm, hh⟩

/-- where anything on a grid hits, one of the two neighbours does -/
theorem onGrid?_isSome (h : Holds n m p) {k c : Nat} (hk : k ≤ 19) (hc : Hits m p c k) : (onGrid? m p k).isSome := by
  have hpower : tenTo k ≤ 10 ^ 19 := Nat.pow_le_pow_right (by decide) hk
  have hbelow := Nat.div_mul_le_self n (tenTo k)
  have habove := Nat.lt_div_mul_add (tenTo_pos k) (a := n)
  have hlt := h.lt
  -- the neighbour on the side of `c` lies between the integer and the multiple that hits
  have hgrid : Hits m p (n / tenTo k) k ∨ Hits m p (n / tenTo k + 1) k := by
    rcases Nat.lt_or_ge n (c * tenTo k) with hside | hside
    · right
      have hle : (n / tenTo k + 1) * tenTo k ≤ c * tenTo k :=
        Nat.mul_le_mul_right _ ((Nat.div_lt_iff_lt_mul (tenTo_pos k)).2 hside)
      rw [Nat.add_one_mul] at hle
      rw [Hits, Nat.add_one_mul]
      exact Binary64.round_between habove.le hle (show 65 ≤ 970 by decide) (by omega) h.round hc
    · left
      have hle : c * tenTo k ≤ n / tenTo k * tenTo k :=
        Nat.mul_le_mul_right _ ((Nat.le_div_iff_mul_le (tenTo_pos k)).2 hside)
      exact Binary64.round_between hle hbelow (show 63 ≤ 970 by decide) (by omega) hc h.round
  rw [onGrid?_of_holds h hk]
  rcases hgrid with hl | hh
  · rw [if_pos hl]
    split_ifs <;> rfl
  · split_ifs <;> rfl

theorem onGrid?_of_dvd (h : Holds n m p) {k : Nat} (hk : k ≤ 19) (hdvd : tenTo k ∣ n) :
    onGrid? m p k = some ⟨n / tenTo k, k⟩ := by
  have hnear : 2 * (n % tenTo k) < tenTo k := by
    rw [Nat.mod_eq_zero_of_dvd hdvd]
    exact tenTo_pos k
  rw [onGrid?_of_holds h hk, if_pos (hits_self h hdvd), if_pos hnear, ite_self]

/-! ## The coarsest grid with a hit -/

theorem Hits.pos (h : Holds n m p) {c k : Nat} (hc : Hits m p c k) : 0 < c := by
  by_contra hzero
  obtain rfl : c = 0 := by omega
  rw [Hits, Nat.zero_mul, round_zero] at hc
  cases hc
  exact h.ne_zero rfl

/-- a number that something smaller than a hit is rounded to does not exceed the integer -/
theorem Holds.le_of_round (h : Holds n m p) {low high bound a q : Nat} (hle : low ≤ high)
    (hlow : Binary64.round false low 1 = .finite false a q) (hunits : Binary64.units a q = bound * twoTo 1074)
    (hhigh : Binary64.round false high 1 = .finite false m p) : bound ≤ n := by
  have hmono := Binary64.round_mono hle hlow hhigh
  rw [hunits, h.units] at hmono
  exact Nat.le_of_mul_le_mul_right hmono (twoTo_pos 1074)

/-- beyond its own digits an integer is not hit: the power of ten above it is a number of the format -/
theorem Hits.lt_digitCount (h : Holds n m p) {c k : Nat} (hc : Hits m p c k) : k < digitCount n := by
  by_contra hle
  have hcount := h.digitCount_le
  have hten : 5 ^ digitCount n * 2 ^ digitCount n = 10 ^ digitCount n := (Nat.mul_pow 5 2 _).symm
  have hfive : 5 ^ digitCount n ≤ 2 ^ 53 := (Nat.pow_le_pow_right (by decide) hcount).trans (by decide)
  have hsize : 5 ^ digitCount n * 2 ^ digitCount n < 2 ^ 64 := by
    rw [hten]
    exact lt_of_le_of_lt (Nat.pow_le_pow_right (by decide) hcount) (by decide)
  obtain ⟨a, q, hround, hunits⟩ := Binary64.round_mul_pow false (show 64 ≤ 970 by decide) hsize hfive
  rw [hten] at hround hunits
  have hreach : 10 ^ digitCount n ≤ c * tenTo k :=
    calc 10 ^ digitCount n ≤ tenTo k := Nat.pow_le_pow_right (by decide) (not_lt.1 hle)
      _ ≤ c * tenTo k := Nat.le_mul_of_pos_left _ (hc.pos h)
  exact absurd (h.le_of_round hreach hround hunits hc) (not_le.2 (lt_pow_digitCount n))

theorem exists_hits (h : Holds n m p) : ∃ i ≤ digitCount n, i < 18 ∧ ∃ c, Hits m p c (digitCount n - i) := by
  have hcount := h.digitCount_le
  rcases Nat.lt_or_ge (digitCount n) 18 with hfew | hmany
  · refine ⟨digitCount n, le_rfl, hfew, n, ?_⟩
    rw [Nat.sub_self, Hits, tenTo_eq, Nat.pow_zero, Nat.mul_one]
    exact h.round
  · refine ⟨17, by omega, by decide, ?_⟩
    have hlow : 10 ^ (digitCount n - 1) ≤ n := pow_le_of_lt_digitCount (by omega) (by omega)
    obtain heq | heq : digitCount n = 18 ∨ digitCount n = 19 := by omega
    · rw [heq] at hlow ⊢
      exact Binary64.exists_multiple_round (show 63 ≤ 969 by decide) h.lt h.round h.units (tenTo_pos 1)
        (show tenTo 1 < 2 ^ 4 by decide) (le_trans (by decide) hlow)
    · rw [heq] at hlow ⊢
      exact Binary64.exists_multiple_round (show 63 ≤ 969 by decide) h.lt h.round h.units (tenTo_pos 2)
        (show tenTo 2 < 2 ^ 7 by decide) (le_trans (by decide) hlow)

/-- the first hit of a search among the numbers below a bound -/
theorem findSome?_range {α : Type} {f : Nat → Option α} {bound i : Nat} (hi : i < bound) (hit : (f i).isSome) :
    ∃ first ≤ i, ∃ a, (List.range bound).findSome? f = some a ∧ f first = some a ∧ ∀ j < first, f j = none := by
  classical
  have hex : ∃ j, (f j).isSome := ⟨i, hit⟩
  have hle : Nat.find hex ≤ i := Nat.find_min' hex hit
  obtain ⟨a, ha⟩ := Option.isSome_iff_exists.1 (Nat.find_spec hex)
  have hnone : ∀ j < Nat.find hex, f j = none := fun j hj => Option.not_isSome_iff_eq_none.1 (Nat.find_min hex hj)
  refine ⟨Nat.find hex, hle, a, ?_, ha, hnone⟩
  obtain ⟨rest, rfl⟩ : ∃ rest, bound = Nat.find hex + (rest + 1) := ⟨bound - Nat.find hex - 1, by omega⟩
  rw [List.findSome?_eq_some_iff]
  refine ⟨List.range (Nat.find hex), Nat.find hex, (List.range rest).map (fun x => Nat.find hex + (x + 1)), ?_, ha,
    fun j hj => hnone j (List.mem_range.1 hj)⟩
  rw [List.range_add, List.range_succ_eq_map, List.map_cons, List.map_map]
  rfl

/-- the decimal `d · 10^k` is the shortest one for a positive integer: it is rounded to the same number, no
multiple of a greater power of ten is, and it is the integer itself wherever that is such a multiple -/
structure IsShortest (n d k : Nat) : Prop where
  sameNumber : Binary64.round false (d * tenTo k) 1 = Binary64.round false n 1
  coarsest : ∀ c j, Binary64.round false (c * tenTo j) 1 = Binary64.round false n 1 → j ≤ k
  kept : tenTo k ∣ n → d * tenTo k = n

/-- the shortest decimal is the integer exactly when no coarser decimal is rounded to the same number -/
theorem IsShortest.eq_iff {d k : Nat} (h : IsShortest n d k) :
    d * tenTo k = n ↔
      ∀ c j, Binary64.round false (c * tenTo j) 1 = Binary64.round false n 1 → tenTo j ∣ n := by
  constructor
  · intro heq c j hj
    have hpower : tenTo j ∣ tenTo k := pow_dvd_pow 10 (h.coarsest c j hj)
    exact heq ▸ hpower.mul_left d
  · intro hall
    exact h.kept (hall d k h.sameNumber)

theorem IsShortest.lt (hn : Holds n m p) {d k : Nat} (h : IsShortest n d k) : d * tenTo k < 2 ^ 63 := by
  by_contra hle
  obtain ⟨a, q, hround, hunits⟩ :=
    Binary64.round_mul_pow false (show 64 ≤ 970 by decide) (show 1 * 2 ^ 63 < 2 ^ 64 by decide) (by decide)
  have hreach : 1 * 2 ^ 63 ≤ d * tenTo k := by omega
  exact absurd (hn.le_of_round hreach hround hunits (h.sameNumber.trans hn.round)) (not_le.2 hn.lt)

/-- **The shortest digits of an integer.** No exponent is tried below zero, and the first that hits is the
greatest. -/
theorem shortest_of_holds (h : Holds n m p) : ∃ d k : Nat, shortest m p = ⟨d, k⟩ ∧ IsShortest n d k := by
  have hcount := h.digitCount_le
  obtain ⟨i, hi, hbound, c, hc⟩ := exists_hits h
  have hexponent : ∀ {i : Nat}, i ≤ digitCount n → (digitCount n : ℤ) - i = (digitCount n - i : ℕ) := by omega
  have hit : (onGrid? m p (digitCount n - i)).isSome := by
    rw [hexponent hi]
    exact onGrid?_isSome h (by omega) hc
  obtain ⟨first, hfirst, found, hfind, hgrid, hbefore⟩ :=
    findSome?_range (f := fun (count : Nat) => onGrid? m p (digitCount n - count)) hbound hit
  simp only [hexponent (hfirst.trans hi)] at hgrid
  obtain ⟨d, rfl, hd⟩ := hits_of_onGrid? h (by omega) hgrid
  refine ⟨d, digitCount n - first, ?_, ⟨?_, ?_, ?_⟩⟩
  · unfold shortest
    simp only [place_of_holds h, hfind, Option.getD_some]
  · exact hd.trans h.round.symm
  · intro c j hj
    rw [h.round] at hj
    have hj : Hits m p c j := hj
    have hlt := hj.lt_digitCount h
    by_contra hgreater
    have hnone : onGrid? m p (digitCount n - (digitCount n - j : ℕ)) = none := hbefore _ (by omega)
    rw [hexponent (Nat.sub_le _ _), Nat.sub_sub_self hlt.le] at hnone
    have hsome := onGrid?_isSome h (by omega) hj
    rw [hnone] at hsome
    cases hsome
  · intro hdvd
    rw [onGrid?_of_dvd h (by omega) hdvd] at hgrid
    obtain ⟨hdigits, -⟩ := Digits.mk.inj (Option.some.inj hgrid)
    rw [← hdigits, Nat.div_mul_cancel hdvd]

/-- **Small integers are kept.** A multiple of ten up to 2^54 is a number of the format, and those above it
are rounded to 2^54 + 8 or more. -/
theorem dvd_of_small (h : Holds n m p) (hn : n < 2 ^ 54 + 8) {c k : Nat}
    (hc : Binary64.round false (c * tenTo k) 1 = Binary64.round false n 1) : tenTo k ∣ n := by
  rw [h.round] at hc
  cases k with
  | zero => exact one_dvd n
  | succ k =>
    have hten : 10 ∣ c * tenTo (k + 1) := Dvd.dvd.mul_left (dvd_pow_self 10 (Nat.succ_ne_zero k)) c
    obtain ⟨half, hhalf⟩ : 2 ∣ c * tenTo (k + 1) := Nat.dvd_trans (by decide) hten
    rcases Nat.lt_or_ge (2 ^ 54) (c * tenTo (k + 1)) with hlarge | hsmall
    · obtain ⟨a, q, hround, hunits⟩ : ∃ a q, Binary64.round false (2 ^ 54 + 6) 1 = .finite false a q ∧
          Binary64.units a q = (2 ^ 54 + 8) * twoTo 1074 := ⟨2 ^ 52 + 2, 1076, by decide +kernel⟩
      have hreach : 2 ^ 54 + 6 ≤ c * tenTo (k + 1) := by omega
      exact absurd (h.le_of_round hreach hround hunits hc) (not_le.2 hn)
    · have heven : half * 2 ^ 1 = c * tenTo (k + 1) := by omega
      obtain ⟨a, q, hround, hunits⟩ := Binary64.round_mul_pow false (a := half) (e := 1) (show 55 ≤ 970 by decide)
        (by omega) (by omega)
      rw [heven] at hround hunits
      rw [hround] at hc
      cases hc
      rw [h.units] at hunits
      rw [Nat.eq_of_mul_eq_mul_right (twoTo_pos 1074) hunits]
      exact Nat.dvd_mul_left _ _

end

end Decimal

end Blockwork
