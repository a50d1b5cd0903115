/-
Number literals are read back as the numbers they were written for.

- `Binary64.IsProper`: a number as the format has it. Whatever is rounded or read is proper (`isProper_read`,
  `isProper_parsePrefix`), and so is every bit pattern (`isProper_ofBits`).
- `Binary64.round_of_units`: a quotient that a proper number is equal to is rounded to it.
- `Decimal.readsBack_shortest`: so the digits chosen for a proper number are read back as it, whether a grid has
  them or all digits are written.
- `numericLiteral?_positional`: a plain numeral is read as the decimal that it is the notation of.
- `Language.numericLiteral?_numberLiteral`: in every target, the literal of a proper number is a plain numeral
  and is read as that number.
-/
import Blockwork.Proofs.DecimalValues
import Blockwork.Proofs.IntegerLiterals

namespace Blockwork

/-! ## Numbers of the format -/

namespace Binary64

/-- when a number is finite, it has a significand and a scale of the format -/
def IsProper (x : Binary64) : Prop :=
  ∀ negative m p, x = .finite negative m p → IsNormal m p ∧ p ≤ 2045

theorem isProper_zero (negative : Bool) : (zero negative).IsProper := by
  rintro _ _ _ ⟨⟩
  exact ⟨⟨by decide, fun h => absurd rfl h⟩, by decide⟩

theorem isProper_roundUnits (negative : Bool) (num den : Nat) : (roundUnits negative num den).IsProper := by
  intro sign m p h
  have hsign : sign = negative := by
    simp only [roundUnits] at h
    split_ifs at h <;> exact (Binary64.finite.inj h).1.symm
  refine ⟨(roundUnits_eq_finite (hsign ▸ h)).1, ?_⟩
  simp only [roundUnits] at h
  split_ifs at h <;> · obtain ⟨-, -, rfl⟩ := Binary64.finite.inj h; omega

theorem isProper_round (negative : Bool) (num den : Nat) : (round negative num den).IsProper := by
  rw [round_eq]
  exact isProper_roundUnits negative (num * twoTo 1074) den

theorem isProper_ofBits (word : Nat) : (ofBits word).IsProper := by
  intro negative m p h
  have hfraction : word % twoTo 52 < 2 ^ 52 := Nat.mod_lt _ (Decimal.twoTo_pos 52)
  have hfield : word / twoTo 52 % twoTo 11 < 2 ^ 11 := Nat.mod_lt _ (Decimal.twoTo_pos 11)
  have htwo : twoTo 52 = 2 ^ 52 := rfl
  unfold ofBits at h
  simp only at h
  split_ifs at h with hall hnone hsubnormal
  · obtain ⟨-, rfl, rfl⟩ := Binary64.finite.inj h
    exact ⟨⟨by omega, fun h => absurd rfl h⟩, by decide⟩
  · obtain ⟨-, rfl, rfl⟩ := Binary64.finite.inj h
    exact ⟨⟨by omega, fun _ => by omega⟩, by omega⟩

/-- a significand of full length, or the smallest scale: the power of two that leaves 53 digits is the scale -/
theorem IsNormal.scale {m p : Nat} (h : IsNormal m p) : bitLength (units m p) - 53 = p := by
  have hle : bitLength (units m p) ≤ 53 + p := bitLength_le h.units_lt
  by_cases hp : p = 0
  · omega
  · have hfull : 2 ^ (52 + p) ≤ units m p := by
      rw [Nat.pow_add]
      exact Nat.mul_le_mul_right _ (h.filled hp)
    have hlt := (Nat.pow_lt_pow_iff_right (by decide)).1 (lt_of_le_of_lt hfull (lt_bitLength (units m p)))
    omega

theorem roundHalfEven_mul (n : Nat) {den : Nat} (hden : 0 < den) : roundHalfEven (n * den) den = n := by
  simp [roundHalfEven, Nat.mul_div_cancel n hden, hden.ne]

/-- **A quotient of the format is rounded to itself.** -/
theorem round_of_units (negative : Bool) {m p num den : Nat} (h : IsNormal m p) (hp : p ≤ 2045) (hden : 0 < den)
    (hunits : num * twoTo 1074 = units m p * den) : round negative num den = .finite negative m p := by
  have hsplit : units m p * den = m * (den * twoTo p) := by
    rw [units, Nat.mul_assoc, Nat.mul_comm (twoTo p)]
  have hm : m ≠ twoTo 53 := h.lt.ne
  rw [round_eq, hunits, roundUnits, Nat.mul_div_cancel _ hden, h.scale, hsplit,
    roundHalfEven_mul m (Nat.mul_pos hden (Decimal.twoTo_pos p))]
  simp only [if_neg hm, if_neg (not_lt.2 hp)]

end Binary64

/-! ## Reading decimals -/

namespace Decimal

theorem isProper_read (negative : Bool) (digits : Nat) (exponent : Int) : (read negative digits exponent).IsProper := by
  rw [read_eq_round]
  exact Binary64.isProper_round _ _ _

theorem withSign_read (negative sign : Bool) (digits : Nat) (exponent : Int) :
    (read sign digits exponent).withSign negative = read negative digits exponent := by
  rw [read_eq_round, read_eq_round]
  exact Binary64.withSign_round _ _ _ _

/-- zeros behind the digits are read as a greater exponent -/
theorem read_mul_tenTo (negative : Bool) (digits k : Nat) (exponent : Int) :
    read negative (digits * tenTo k) exponent = read negative digits (exponent + k) := by
  rw [read_eq_round, read_eq_round]
  refine Binary64.round_congr negative (tenTo_pos _) (tenTo_pos _) ?_
  have hexponents : k + exponent.toNat + (-(exponent + k)).toNat = (exponent + k).toNat + (-exponent).toNat := by omega
  simp only [Nat.mul_assoc, ← tenTo_add, hexponents]

/-! ## Digits that are read back -/

section
variable {m p : Nat}

theorem readsBack_onGrid? {exponent : Int} {d : Digits} (h : onGrid? m p exponent = some d) : readsBack m p d := by
  unfold onGrid? at h
  simp only at h
  split at h
  next hlow hhigh =>
    split_ifs at h
    · exact Option.some.inj h ▸ hlow
    · exact Option.some.inj h ▸ hhigh
  next hlow _ => exact Option.some.inj h ▸ hlow
  next _ hhigh => exact Option.some.inj h ▸ hhigh
  next => cases h

theorem pow_five_mul_twoTo {five k : Nat} (h : five = Nat.pow 5 k) : five * twoTo k = tenTo k :=
  h ▸ (Nat.mul_pow 5 2 k).symm

theorem readsBack_whole (h : Binary64.IsNormal m p) (hp : p ≤ 2045) {n : Nat}
    (hunits : n * twoTo 1074 = Binary64.units m p) : readsBack m p ⟨n, 0⟩ := by
  have hone : n * tenTo 0 * twoTo 1074 = Binary64.units m p * tenTo 0 := by
    rw [tenTo_eq, Nat.pow_zero, Nat.mul_one, hunits, Nat.mul_one]
  rw [readsBack, beq_iff_eq, read_eq_round]
  exact Binary64.round_of_units false h hp (tenTo_pos 0) hone

/-- all digits of any number of the format: a unit is `five` multiples of 10^-1074 -/
theorem readsBack_fraction (h : Binary64.IsNormal m p) (hp : p ≤ 2045) {five : Nat} (hpow : five = Nat.pow 5 1074) :
    readsBack m p ⟨Binary64.units m p * five, -1074⟩ := by
  have hnum : Binary64.units m p * five * tenTo 0 * twoTo 1074 = Binary64.units m p * tenTo 1074 := by
    rw [tenTo_eq, Nat.pow_zero, Nat.mul_one, Nat.mul_assoc, pow_five_mul_twoTo hpow]
  rw [readsBack, beq_iff_eq, read_eq_round]
  exact Binary64.round_of_units false h hp (tenTo_pos 1074) hnum

theorem readsBack_exact (h : Binary64.IsNormal m p) (hp : p ≤ 2045) : readsBack m p (exact m p) := by
  unfold exact
  split_ifs with hwhole
  · exact readsBack_whole h hp (Nat.div_mul_cancel (Nat.dvd_of_mod_eq_zero hwhole))
  · exact readsBack_fraction h hp rfl

theorem readsBack_shortest (h : Binary64.IsNormal m p) (hp : p ≤ 2045) : readsBack m p (shortest m p) := by
  unfold shortest
  simp only
  cases hf : (List.range 18).findSome? fun (count : Nat) => onGrid? m p (place m p - count) with
  | none => exact readsBack_exact h hp
  | some d =>
    obtain ⟨count, -, hd⟩ := List.exists_of_findSome?_eq_some hf
    exact readsBack_onGrid? hd

end

end Decimal

/-! ## Texts of plain numerals -/

theorem Text.readDigits_append (cs ds : List Char) :
    readDigits (cs ++ ds) = ds.foldl (fun n c => 10 * n + (c.toNat - '0'.toNat)) (readDigits cs) :=
  List.foldl_append

theorem Text.readDigits_replicate_append (k : Nat) (ds : List Char) :
    readDigits (List.replicate k '0' ++ ds) = readDigits ds := by
  have hzero : readDigits (List.replicate k '0') = 0 := by
    induction k with
    | zero => rfl
    | succ k ih => rw [List.replicate_succ', readDigits_append, ih]; rfl
  rw [readDigits_append, hzero]
  rfl

/-- zeros behind digits are read as a power of ten -/
theorem Text.readDigits_append_replicate (ds : List Char) (k : Nat) :
    readDigits (ds ++ List.replicate k '0') = readDigits ds * tenTo k := by
  induction k with
  | zero => rw [List.replicate_zero, List.append_nil, tenTo_eq, Nat.pow_zero, Nat.mul_one]
  | succ k ih =>
    rw [List.replicate_succ', ← List.append_assoc, readDigits_append, ih, tenTo_eq, tenTo_eq, Nat.pow_succ,
      ← Nat.mul_assoc, Nat.mul_comm _ 10]
    rfl

def signedChars (negative : Bool) (cs : List Char) : List Char :=
  (if negative then ['-'] else []) ++ cs

/-- the value of a plain numeral behind its sign -/
def plainNumeral? (negative : Bool) (cs : List Char) : Option Binary64 :=
  let whole := Numeral.leadingDigits cs
  if whole.isEmpty then none
  else
    match cs.drop whole.length with
    | [] => Numeral.value? ⟨negative, whole, [], false, []⟩
    | '.' :: fraction =>
      if Text.isDigitRun fraction then Numeral.value? ⟨negative, whole, fraction, false, []⟩ else none
    | _ => none

theorem numericLiteral?_signed {text : String} {negative : Bool} {cs : List Char}
    (htext : text.toList = signedChars negative cs) (hcs : cs.head? ≠ some '-') :
    numericLiteral? text = plainNumeral? negative cs := by
  unfold numericLiteral?
  rw [htext]
  cases negative with
  | true => rfl
  | false =>
    cases cs with
    | nil => rfl
    | cons c cs =>
      have hc : c ≠ '-' := fun h => hcs (congrArg some h)
      simp only [signedChars, Bool.false_eq_true, if_false, List.nil_append]
      split
      next heq => exact absurd (List.cons.inj heq).1 hc
      next => rfl

section
variable {ds es : List Char}

theorem head?_ne_minus (hne : ds ≠ []) (hd : ∀ c ∈ ds, c.isDigit) (rest : List Char) :
    (ds ++ rest).head? ≠ some '-' := by
  obtain ⟨c, cs, rfl⟩ := List.exists_cons_of_ne_nil hne
  intro h
  obtain rfl := Option.some.inj h
  exact absurd (hd '-' List.mem_cons_self) (by decide)

theorem plainNumeral?_whole (negative : Bool) (hne : ds ≠ []) (hd : ∀ c ∈ ds, c.isDigit) :
    plainNumeral? negative ds = some (Decimal.read negative (Text.readDigits ds) 0) := by
  have hleading : Numeral.leadingDigits ds = ds := by
    have hnone : ∀ c ∈ ([] : List Char).head?, Text.isDecimalDigit c = false := by simp
    simpa using Numeral.leadingDigits_append (Numeral.isDecimalDigit_of_digits hd) hnone
  have hall : ds.all Char.isDigit := List.all_eq_true.2 hd
  have hempty : ds.isEmpty = false := List.isEmpty_eq_false_iff.2 hne
  simp only [plainNumeral?, hleading, hempty, List.drop_length, Numeral.value?, hall, List.append_nil]
  rfl

theorem plainNumeral?_fraction (negative : Bool) (hne : ds ≠ []) (hd : ∀ c ∈ ds, c.isDigit) (hnes : es ≠ [])
    (he : ∀ c ∈ es, c.isDigit) :
    plainNumeral? negative (ds ++ '.' :: es) =
      some (Decimal.read negative (Text.readDigits (ds ++ es)) (-es.length)) := by
  have hpoint : ∀ c ∈ ('.' :: es).head?, Text.isDecimalDigit c = false := by
    rintro _ ⟨⟩
    decide
  have hall : ds.all Char.isDigit := List.all_eq_true.2 hd
  have hall' : es.all Char.isDigit := List.all_eq_true.2 he
  have hempty : ds.isEmpty = false := List.isEmpty_eq_false_iff.2 hne
  have hrun : Text.isDigitRun es := by
    rw [Text.isDigitRun, List.isEmpty_eq_false_iff.2 hnes, Bool.not_false, Bool.true_and, List.all_eq_true]
    exact Numeral.isDecimalDigit_of_digits he
  have hscale : (⟨negative, ds, es, false, []⟩ : Numeral).scale - (es.length : Int) = -es.length := by
    rw [show (⟨negative, ds, es, false, []⟩ : Numeral).scale = 0 from rfl, zero_sub]
  simp only [plainNumeral?, Numeral.leadingDigits_append (Numeral.isDecimalDigit_of_digits hd) hpoint, hempty,
    List.drop_left, hrun, Numeral.value?, hall, hall', hscale]
  rfl

/-! ## Literals -/

theorem readDigits_pad (k n : Nat) : Text.readDigits (List.replicate k '0' ++ Nat.toDigits 10 n) = n := by
  rw [Text.readDigits_replicate_append, Decimal.readDigits_toDigits]

/-- **Positional notation is read as the decimal that it notes.** -/
theorem plainNumeral?_positional (negative : Bool) (d : Decimal.Digits) :
    plainNumeral? negative (Decimal.positional d) = some (Decimal.read negative d.digits d.exponent) := by
  obtain ⟨n, exponent⟩ := d
  have hdigits := Decimal.isDigit_toDigits n
  by_cases h : 0 ≤ exponent
  · -- zeros behind the digits stand for the exponent
    obtain ⟨hne, hd⟩ := Decimal.positional_of_nonneg (d := ⟨n, exponent⟩) h
    have hexponent : (0 : Int) + exponent.toNat = exponent := by omega
    rw [plainNumeral?_whole negative hne hd, Decimal.positional, if_pos h, Text.readDigits_append_replicate,
      Decimal.readDigits_toDigits, Decimal.read_mul_tenTo, hexponent]
  · have hplaces : (-((-exponent).toNat : Int)) = exponent := by omega
    unfold Decimal.positional
    rw [if_neg h]
    simp only
    generalize (-exponent).toNat = places at hplaces
    split_ifs with hshort
    · -- zeros in front of the digits fill the places
      have hfraction := Decimal.isDigit_append (Decimal.isDigit_replicate (places - (Nat.toDigits 10 n).length)) hdigits
      have hlength : ((List.replicate (places - (Nat.toDigits 10 n).length) '0' ++ Nat.toDigits 10 n).length : Int) =
          places := by
        rw [List.length_append, List.length_replicate]
        omega
      have hread := plainNumeral?_fraction negative (List.cons_ne_nil '0' []) (List.all_eq_true.1 rfl)
        (List.append_ne_nil_of_right_ne_nil _ Nat.toDigits_ne_nil) hfraction
      rw [hlength, hplaces, ← List.append_assoc, ← List.replicate_one, ← List.replicate_add, readDigits_pad] at hread
      exact hread
    · have hwhole : (Nat.toDigits 10 n).take ((Nat.toDigits 10 n).length - places) ≠ [] := by
        rw [← List.length_pos_iff, List.length_take]
        omega
      have hbehind : (Nat.toDigits 10 n).drop ((Nat.toDigits 10 n).length - places) ≠ [] := by
        rw [← List.length_pos_iff, List.length_drop]
        omega
      have hlength : (((Nat.toDigits 10 n).drop ((Nat.toDigits 10 n).length - places)).length : Int) = places := by
        rw [List.length_drop]
        omega
      rw [plainNumeral?_fraction negative hwhole (fun c hc => hdigits c (List.mem_of_mem_take hc)) hbehind
        (fun c hc => hdigits c (List.mem_of_mem_drop hc)), hlength, hplaces, List.take_append_drop,
        Decimal.readDigits_toDigits]

/-- so is the notation of a whole number with a fraction of zero behind it -/
theorem plainNumeral?_marked (negative : Bool) {d : Decimal.Digits} (h : 0 ≤ d.exponent) :
    plainNumeral? negative (Decimal.positional d ++ ['.', '0']) =
      some (Decimal.read negative d.digits d.exponent) := by
  obtain ⟨n, exponent⟩ := d
  have h : 0 ≤ exponent := h
  obtain ⟨hne, hd⟩ := Decimal.positional_of_nonneg (d := ⟨n, exponent⟩) h
  have hzeros : Decimal.positional ⟨n, exponent⟩ ++ ['0'] =
      Nat.toDigits 10 n ++ List.replicate (exponent.toNat + 1) '0' := by
    rw [Decimal.positional, if_pos h, List.append_assoc, List.replicate_succ']
  have hexponent : -(['0'].length : Int) + (exponent.toNat + 1 : ℕ) = exponent := by
    rw [List.length_singleton]
    omega
  rw [plainNumeral?_fraction negative hne hd (List.cons_ne_nil '0' []) (List.all_eq_true.1 rfl), hzeros,
    Text.readDigits_append_replicate, Decimal.readDigits_toDigits, Decimal.read_mul_tenTo, hexponent]

end

theorem IsNumeral.head?_ne_minus {cs : List Char} (h : IsNumeral cs) : cs.head? ≠ some '-' := by
  cases h with
  | whole hne hd => simpa using Blockwork.head?_ne_minus hne hd []
  | @fraction ds es hne hd _ _ => exact Blockwork.head?_ne_minus hne hd ('.' :: es)

/-- **Literals are read back.** In every target, the literal of a number of the format is a plain numeral, and is
read as that number. -/
theorem Language.numericLiteral?_numberLiteral (language : Language) (negative : Bool) {m p : Nat}
    (h : Binary64.IsNormal m p) (hp : p ≤ 2045) (hm : m ≠ 0) :
    numericLiteral? (language.numberLiteral (.finite negative m p)) = some (.finite negative m p) := by
  have hread : Decimal.read negative (Decimal.shortest m p).digits (Decimal.shortest m p).exponent =
      .finite negative m p := by
    rw [← Decimal.withSign_read negative false, beq_iff_eq.1 (Decimal.readsBack_shortest h hp)]
    rfl
  rw [numericLiteral?_signed (language.numberLiteral_finite negative hm p)
    (language.isNumeral_magnitude m p).head?_ne_minus, magnitude, ← hread]
  split_ifs with hmark
  · exact plainNumeral?_marked negative (exponent_of_marksFraction hmark)
  · rw [List.append_nil]
    exact plainNumeral?_positional negative (Decimal.shortest m p)

/-- the literal of a zero of either sign is read as zero -/
theorem Language.numericLiteral?_zero (language : Language) (negative : Bool) (p : Nat) :
    numericLiteral? (language.numberLiteral (.finite negative 0 p)) = some (.zero false) := by
  rw [numberLiteral_zero]
  decide

/-! ## Numbers that texts start with -/

theorem Numeral.isProper_value? {numeral : Numeral} {x : Binary64} (h : numeral.value? = some x) : x.IsProper := by
  unfold value? at h
  split_ifs at h
  exact Option.some.inj h ▸ Decimal.isProper_read _ _ _

theorem Binary64.isProper_parsePrefix (text : String) : (parsePrefix text).IsProper := by
  unfold parsePrefix
  simp only
  split_ifs
  · exact fun _ _ _ h => nomatch h
  · cases hv : (Numeral.unsigned? (Numeral.sign (Text.trimStart text.toList)).1
        (Numeral.sign (Text.trimStart text.toList)).2).bind Numeral.value? with
    | none => exact fun _ _ _ h => nomatch h
    | some x =>
      obtain ⟨numeral, -, hx⟩ := Option.bind_eq_some_iff.1 hv
      exact Numeral.isProper_value? hx

end Blockwork
