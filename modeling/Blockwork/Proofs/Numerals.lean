/-
How numbers are written.

- `isNumeral_positional`: positional notation is digits, with a point and more digits behind them or not.
- `exponent_nonneg`: a whole number from 2^63 on is written without a point, whichever way its digits are
  found; it has nineteen digits before the point and no more than seventeen are looked at.
- `isNumeral_magnitude`: so the fraction that marks such a number in a target with 64-bit integers still
  leaves one numeral.
-/
import Blockwork.Number.Literal
import Blockwork.Text.Digit
import Mathlib.Tactic

namespace Blockwork

/-- a numeral without sign and exponent: digits, and optionally a point with more digits behind it -/
inductive IsNumeral : List Char → Prop
  | whole {ds : List Char} : ds ≠ [] → (∀ c ∈ ds, c.isDigit) → IsNumeral ds
  | fraction {ds es : List Char} : ds ≠ [] → (∀ c ∈ ds, c.isDigit) → es ≠ [] → (∀ c ∈ es, c.isDigit) →
      IsNumeral (ds ++ '.' :: es)

theorem IsNumeral.quote_not_mem {cs : List Char} (h : IsNumeral cs) : '\'' ∉ cs := by
  have hdigits : ∀ ds : List Char, (∀ c ∈ ds, c.isDigit) → '\'' ∉ ds :=
    fun ds hd hm => absurd (hd _ hm) (by decide)
  cases h with
  | whole _ hd => exact hdigits _ hd
  | fraction _ hd _ he =>
    rw [List.mem_append, List.mem_cons]
    rintro (hm | hm | hm)
    · exact hdigits _ hd hm
    · exact absurd hm (by decide)
    · exact hdigits _ he hm

namespace Decimal

theorem isDigit_toDigits (n : Nat) : ∀ c ∈ Nat.toDigits 10 n, c.isDigit :=
  fun _ hc => Nat.isDigit_of_mem_toDigits (by decide) (by decide) hc

theorem readDigits_toDigits (n : Nat) : Text.readDigits (Nat.toDigits 10 n) = n :=
  Nat.ofDigitChars_toDigits (b := 10) (by decide) (by decide)

theorem isDigit_replicate (n : Nat) : ∀ c ∈ List.replicate n '0', c.isDigit := by
  intro c hc
  rw [(List.mem_replicate.1 hc).2]
  decide

theorem isDigit_append {cs ds : List Char} (hc : ∀ c ∈ cs, c.isDigit) (hd : ∀ c ∈ ds, c.isDigit) :
    ∀ c ∈ cs ++ ds, c.isDigit :=
  fun c h => (List.mem_append.1 h).elim (hc c) (hd c)

/-- a decimal without digits after the point is written in digits only -/
theorem positional_of_nonneg {d : Digits} (h : 0 ≤ d.exponent) :
    positional d ≠ [] ∧ ∀ c ∈ positional d, c.isDigit := by
  unfold positional
  rw [if_pos h]
  refine ⟨?_, isDigit_append (isDigit_toDigits _) (isDigit_replicate _)⟩
  simp

theorem isNumeral_positional (d : Digits) : IsNumeral (positional d) := by
  by_cases h : 0 ≤ d.exponent
  · obtain ⟨hne, hd⟩ := positional_of_nonneg h
    exact .whole hne hd
  · unfold positional
    rw [if_neg h]
    have hall := isDigit_toDigits d.digits
    simp only
    split_ifs with hplaces
    · -- fewer digits than places: zeros fill the gap behind the point
      have hfraction :=
        isDigit_append (isDigit_replicate ((-d.exponent).toNat - (Nat.toDigits 10 d.digits).length)) hall
      have hzero : ∀ c ∈ ['0'], c.isDigit := List.all_eq_true.1 rfl
      exact IsNumeral.fraction (List.cons_ne_nil '0' []) hzero (by simp) hfraction
    · refine .fraction ?_ (fun c hc => hall c (List.mem_of_mem_take hc)) ?_
        (fun c hc => hall c (List.mem_of_mem_drop hc))
      · rw [← List.length_pos_iff, List.length_take]
        omega
      · rw [← List.length_pos_iff, List.length_drop]
        omega

theorem isNumeral_render (m p : Nat) : IsNumeral (render m p) := isNumeral_positional _

theorem exponent_onGrid? {m p : Nat} {exponent : Int} {d : Digits} (h : onGrid? m p exponent = some d) :
    d.exponent = exponent := by
  unfold onGrid? at h
  simp only at h
  split at h
  · split_ifs at h <;> · cases h; rfl
  · cases h; rfl
  · cases h; rfl
  · cases h

theorem twoTo_pos (k : Nat) : 0 < twoTo k := Nat.pow_pos (by decide)

theorem le_scaled {units scale k : Nat} (hs : 0 < scale) (h : twoTo 63 * scale ≤ units) :
    10 ^ (18 + k) ≤ units * tenTo k / scale := by
  rw [Nat.le_div_iff_mul_le hs]
  have hten : 10 ^ 18 ≤ twoTo 63 := by decide
  calc 10 ^ (18 + k) * scale = 10 ^ 18 * scale * 10 ^ k := by rw [pow_add]; ring
    _ ≤ twoTo 63 * scale * 10 ^ k := Nat.mul_le_mul_right _ (Nat.mul_le_mul_right _ hten)
    _ ≤ units * tenTo k := Nat.mul_le_mul_right _ h

theorem lt_digitCount {n k : Nat} (h : 10 ^ k ≤ n) : k < digitCount n := by
  cases k with
  | zero => exact Nat.length_toDigits_pos
  | succ k =>
    unfold digitCount
    rw [← not_le, Nat.length_toDigits_le_iff (by decide) (Nat.succ_pos k), not_lt]
    exact h

/-- a number from 2^63 on has nineteen digits before the point -/
theorem place_of_le {m p : Nat} (h : twoTo 63 * twoTo 1074 ≤ Binary64.units m p) : 19 ≤ place m p := by
  have hcount := lt_digitCount (le_scaled (k := 400) (twoTo_pos 1074) h)
  unfold place
  omega

theorem exponent_exact {m p : Nat} (h : Binary64.units m p % twoTo 1074 = 0) : (exact m p).exponent = 0 := by
  unfold exact
  rw [if_pos h]

/-- of eighteen grids from `top` downwards, any that hits has its exponent among them -/
theorem exponent_findSome? {top : Int} {hit : Int → Option Digits} {fallback : Digits}
    (hhit : ∀ exponent d, hit exponent = some d → d.exponent = exponent) (htop : 19 ≤ top)
    (hfallback : fallback.exponent = 0) :
    0 ≤ (((List.range 18).findSome? fun (count : Nat) => hit (top - count)).getD fallback).exponent := by
  cases hf : (List.range 18).findSome? fun (count : Nat) => hit (top - count) with
  | none =>
    rw [Option.getD_none]
    exact hfallback.ge
  | some d =>
    obtain ⟨count, hc, hd⟩ := List.exists_of_findSome?_eq_some hf
    rw [Option.getD_some, hhit _ d hd]
    have hlt := List.mem_range.1 hc
    omega

/-- a whole number from 2^63 on is written without a point -/
theorem exponent_nonneg {m p : Nat} (hw : Binary64.units m p % twoTo 1074 = 0)
    (h : twoTo 63 * twoTo 1074 ≤ Binary64.units m p) : 0 ≤ (shortest m p).exponent :=
  exponent_findSome? (fun _ _ => exponent_onGrid?) (place_of_le h) (exponent_exact hw)

end Decimal

namespace Language

/-- a positive number in a target: its digits, with a fraction where the target asks for one -/
def magnitude (language : Language) (m p : Nat) : List Char :=
  Decimal.render m p ++ if language.marksFraction (.finite false m p) then ".0".toList else []

/-- whether a fraction is asked for does not depend on the sign -/
theorem marksFraction_sign (language : Language) (negative : Bool) (m p : Nat) :
    language.marksFraction (.finite negative m p) = language.marksFraction (.finite false m p) := by
  cases language <;> rfl

theorem numberLiteral_zero (language : Language) (negative : Bool) (p : Nat) :
    language.numberLiteral (.finite negative 0 p) = "0" := by
  simp only [numberLiteral, if_true]

theorem numberLiteral_finite (language : Language) (negative : Bool) {m : Nat} (hm : m ≠ 0) (p : Nat) :
    (language.numberLiteral (.finite negative m p)).toList =
      (if negative then ['-'] else []) ++ language.magnitude m p := by
  simp only [numberLiteral, if_neg hm, marksFraction_sign language negative, magnitude, String.toList_append,
    String.toList_ofList, List.append_assoc]
  have hmark : (if language.marksFraction (.finite false m p) then ".0" else "").toList =
      if language.marksFraction (.finite false m p) then ".0".toList else [] := by
    split_ifs <;> rfl
  rw [hmark]
  cases negative <;> rfl

/-- a fraction is asked for behind digits without a point only -/
theorem exponent_of_marksFraction {language : Language} {m p : Nat}
    (h : language.marksFraction (.finite false m p)) : 0 ≤ (Decimal.shortest m p).exponent := by
  obtain ⟨hw, hb⟩ : Binary64.units m p % twoTo 1074 = 0 ∧ twoTo 63 * twoTo 1074 ≤ Binary64.units m p := by
    cases language with
    | dart => simpa [marksFraction, Binary64.isWhole, Binary64.magnitudeAtLeast] using h
    | javascript => cases h
    | python => cases h
  exact Decimal.exponent_nonneg hw hb

/-- **Every positive number is written as one numeral.** -/
theorem isNumeral_magnitude (language : Language) (m p : Nat) : IsNumeral (language.magnitude m p) := by
  unfold magnitude
  split_ifs with hmark
  · obtain ⟨hne, hd⟩ := Decimal.positional_of_nonneg (exponent_of_marksFraction hmark)
    exact .fraction hne hd (by decide) (List.all_eq_true.1 rfl)
  · rw [List.append_nil]
    exact Decimal.isNumeral_render m p

end Language

end Blockwork
