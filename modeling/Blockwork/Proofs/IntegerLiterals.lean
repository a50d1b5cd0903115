/-
What an integer is written as. A number block holds the decimal notation of an integer, which is read as
the nearest binary64 number, and that number is written in the fewest digits that are read back as it.

- `Binary64.parsePrefix_toString`: the notation is read as the decimal it is.
- `Language.numberLiteral_holds`: the literal is the notation of the shortest decimal, in every target.
- `integer_literal_kept_iff`: so it stands for an integer with the same nearest number. It is the integer of
  the block exactly when each power of ten that has a multiple with that nearest number divides the integer,
  as is the case below 2^54 + 8.
- `integer_literal_is_rounded`: the integer 2^54 + 8 is written as 2^54 + 6, which is another integer in the
  targets whose integers are exact.
-/
import Blockwork.Proofs.Layout
import Blockwork.Proofs.Perform
import Blockwork.Proofs.ShortestDigits
import Mathlib.Data.List.TakeWhile

namespace Blockwork

/-! ## Integers as numbers -/

namespace Binary64

/-- the number nearest to an integer -/
def ofInt (n : ℤ) : Binary64 := round (n < 0) n.natAbs 1

theorem withSign_ofInt (n : ℤ) : (ofInt n).withSign false = round false n.natAbs 1 := withSign_round _ _ _ _

/-- the format has an integer: some bit pattern has its value -/
def Represents (n : ℤ) : Prop := ∃ word, (ofBits word).value? = some (n * twoTo 1074)

theorem significand_ofBits {word m p : Nat} {negative : Bool} (h : ofBits word = .finite negative m p) :
    m ≤ 2 ^ 53 := by
  have hfraction : word % twoTo 52 < 2 ^ 52 := Nat.mod_lt _ (Decimal.twoTo_pos 52)
  have htwo : twoTo 52 = 2 ^ 52 := rfl
  unfold ofBits at h
  simp only at h
  split_ifs at h
  all_goals
    obtain ⟨-, rfl, -⟩ := Binary64.finite.inj h
    omega

/-- an integer of the format is rounded to itself -/
theorem Represents.round {n : ℤ} (h : Represents n) (negative : Bool) {bits : Nat} (hbits : bits ≤ 970)
    (hn : n.natAbs < 2 ^ bits) :
    ∃ m p, Binary64.round negative n.natAbs 1 = .finite negative m p ∧ units m p = n.natAbs * twoTo 1074 := by
  obtain ⟨word, hword⟩ := h
  cases hpattern : ofBits word with
  | nan => rw [hpattern] at hword; cases hword
  | infinite sign => rw [hpattern] at hword; cases hword
  | finite sign a q =>
    rw [hpattern, value?, Option.some.injEq] at hword
    have hunits : units a q = n.natAbs * twoTo 1074 := by
      have habs := congrArg Int.natAbs hword
      rw [Int.natAbs_mul, Int.natAbs_natCast] at habs
      rw [← habs]
      split_ifs <;> simp
    exact round_exact negative hbits hn (significand_ofBits hpattern) hunits

end Binary64

/-! ## Texts of integers -/

theorem toList_toString_int (n : ℤ) :
    (toString n).toList = (if n < 0 then ['-'] else []) ++ Nat.toDigits 10 n.natAbs := by
  cases n with
  | ofNat n =>
    rw [if_neg (show ¬ Int.ofNat n < 0 from not_lt.2 (Int.natCast_nonneg n))]
    exact Nat.toList_repr
  | negSucc n =>
    rw [if_pos (Int.negSucc_lt_zero n), Int.natAbs_negSucc]
    have hrepr : toString (Int.negSucc n) = "-" ++ (n + 1).repr := rfl
    rw [hrepr, String.toList_append, Nat.toList_repr]
    rfl

namespace Numeral

theorem isDecimalDigit_of_isDigit {c : Char} (h : c.isDigit) : Text.isDecimalDigit c := by
  simp only [Char.isDigit, Bool.and_eq_true, decide_eq_true_eq, ge_iff_le, UInt32.le_iff_toNat_le] at h
  simp only [Text.isDecimalDigit, Text.digitRanges, List.any_cons, Bool.or_eq_true, Bool.and_eq_true, decide_eq_true_eq]
  exact .inl h

theorem sign_digits {ds : List Char} (hd : ∀ c ∈ ds, c.isDigit) : sign ds = (false, ds) := by
  unfold sign
  split
  next => exact absurd (hd '-' List.mem_cons_self) (by decide)
  next => exact absurd (hd '+' List.mem_cons_self) (by decide)
  next => rfl

theorem isDecimalDigit_of_digits {ds : List Char} (hd : ∀ c ∈ ds, c.isDigit) : ∀ c ∈ ds, Text.isDecimalDigit c :=
  fun c hc => isDecimalDigit_of_isDigit (hd c hc)

/-- digits are read up to a character that is none -/
theorem leadingDigits_append {ds rest : List Char} (hd : ∀ c ∈ ds, Text.isDecimalDigit c)
    (hrest : ∀ c ∈ rest.head?, Text.isDecimalDigit c = false) : leadingDigits (ds ++ rest) = ds := by
  rw [leadingDigits, List.takeWhile_append_of_pos hd]
  cases rest with
  | nil => exact List.append_nil ds
  | cons c rest => rw [List.takeWhile_cons_of_neg (by simpa using hrest c rfl), List.append_nil]

theorem unsigned?_whole (negative : Bool) {ds rest : List Char} (hne : ds ≠ []) (hd : ∀ c ∈ ds, Text.isDecimalDigit c)
    (hrest : ∀ c ∈ rest.head?, Text.isDecimalDigit c = false) (hpoint : rest.head? ≠ some '.') :
    unsigned? negative (ds ++ rest) =
      some ⟨negative, ds, [], (exponentPart rest).1, (exponentPart rest).2⟩ := by
  have hempty : ds.isEmpty = false := List.isEmpty_eq_false_iff.2 hne
  simp only [unsigned?, leadingDigits_append hd hrest, List.drop_left, hempty]
  split
  next => exact absurd rfl hpoint
  next => rfl

theorem unsigned?_digits (negative : Bool) {ds : List Char} (hne : ds ≠ []) (hd : ∀ c ∈ ds, c.isDigit) :
    unsigned? negative ds =
      some { negative, whole := ds, fraction := [], exponentNegative := false, exponent := [] } := by
  have hnone : ∀ c ∈ ([] : List Char).head?, Text.isDecimalDigit c = false := fun _ hc => nomatch hc
  have hpoint : ([] : List Char).head? ≠ some '.' := nofun
  have hwhole := unsigned?_whole negative hne (isDecimalDigit_of_digits hd) hnone hpoint
  rw [List.append_nil] at hwhole
  exact hwhole

end Numeral

theorem Text.trimStart_cons {c : Char} (hc : isBlank c = false) (cs : List Char) : trimStart (c :: cs) = c :: cs :=
  List.dropWhile_cons_of_neg (by rw [hc]; decide)

/-- the decimal notation of an integer is read as that decimal -/
theorem Binary64.parsePrefix_toString (n : ℤ) : parsePrefix (toString n) = Decimal.read (n < 0) n.natAbs 0 := by
  have hd := Decimal.isDigit_toDigits n.natAbs
  obtain ⟨c, cs, hcs⟩ := List.exists_cons_of_ne_nil (Nat.toDigits_ne_nil (b := 10) (n := n.natAbs))
  have hc : c.isDigit := hd c (hcs ▸ List.mem_cons_self)
  have hsign : Numeral.sign (Text.trimStart (toString n).toList) = (decide (n < 0), Nat.toDigits 10 n.natAbs) := by
    rw [toList_toString_int]
    by_cases hn : n < 0
    · rw [if_pos hn, decide_eq_true hn]
      exact congrArg Numeral.sign (Text.trimStart_cons (by decide) _)
    · rw [if_neg hn, decide_eq_false hn, List.nil_append, hcs, Text.trimStart_cons (Workspace.isBlank_of_isDigit hc),
        ← hcs, Numeral.sign_digits hd]
  have hinfinity : "Infinity".toList.isPrefixOf (Nat.toDigits 10 n.natAbs) = false := by
    have hne : ('I' == c) = false := by
      rw [beq_eq_false_iff_ne]
      rintro rfl
      exact absurd hc (by decide)
    rw [hcs]
    simp [List.isPrefixOf, hne]
  have hall : (Nat.toDigits 10 n.natAbs).all Char.isDigit := List.all_eq_true.2 hd
  simp only [parsePrefix, hsign, hinfinity, Numeral.unsigned?_digits _ Nat.toDigits_ne_nil hd, Option.bind_some,
    Numeral.value?, hall, Decimal.readDigits_toDigits, List.append_nil]
  rfl

/-! ## Literals -/

def signed (negative : Bool) (n : Nat) : ℤ := if negative then -n else n

theorem natAbs_signed (negative : Bool) (n : Nat) : (signed negative n).natAbs = n := by
  cases negative
  · exact Int.natAbs_natCast n
  · exact (Int.natAbs_neg _).trans (Int.natAbs_natCast n)

theorem signed_lt_zero_iff (negative : Bool) {n : Nat} (hn : 0 < n) : signed negative n < 0 ↔ negative := by
  cases negative
  · exact iff_of_false (not_lt.2 (Int.natCast_nonneg n)) (by decide)
  · exact iff_of_true (neg_lt_zero.2 (Int.natCast_pos.2 hn)) rfl

theorem signed_natAbs (n : ℤ) : signed (n < 0) n.natAbs = n := by
  by_cases hn : n < 0
  · rw [decide_eq_true hn]
    exact (congrArg Neg.neg (Int.ofNat_natAbs_of_nonpos hn.le)).trans (neg_neg n)
  · rw [decide_eq_false hn]
    exact Int.natAbs_of_nonneg (not_lt.1 hn)

theorem signed_mul (negative : Bool) (a b : Nat) : signed negative (a * b) = signed negative a * b := by
  simp only [signed, ite_mul, neg_mul, Nat.cast_mul]

theorem toList_toString_signed (negative : Bool) {n : Nat} (hn : 0 < n) :
    (toString (signed negative n)).toList = (if negative then ['-'] else []) ++ Nat.toDigits 10 n := by
  rw [toList_toString_int, natAbs_signed]
  simp only [signed_lt_zero_iff negative hn]

theorem Language.magnitude_holds (language : Language) {n m p : Nat} (h : Decimal.Holds n m p) :
    language.magnitude m p = Decimal.render m p := by
  have hsmall : ¬ twoTo 63 * twoTo 1074 ≤ Binary64.units m p := by
    rw [h.units]
    exact fun hle => absurd (Nat.le_of_mul_le_mul_right hle (Decimal.twoTo_pos 1074)) (not_le.2 h.lt)
  have hplain : language.marksFraction (.finite false m p) = false := by
    cases language with
    | dart => simp [marksFraction, Binary64.magnitudeAtLeast, hsmall]
    | javascript => rfl
    | python => rfl
  rw [magnitude, hplain]
  exact List.append_nil _

/-- **The literal of an integer** is the notation of its shortest decimal, in every target. -/
theorem Language.numberLiteral_holds (language : Language) (negative : Bool) {n m p : Nat} (h : Decimal.Holds n m p) :
    ∃ d k, 0 < d * tenTo k ∧ Decimal.IsShortest n d k ∧
      language.numberLiteral (.finite negative m p) = toString (signed negative (d * tenTo k)) := by
  obtain ⟨d, k, hshortest, hd⟩ := Decimal.shortest_of_holds h
  have hhits : Decimal.Hits m p d k := hd.sameNumber.trans h.round
  have hpos := hhits.pos h
  refine ⟨d, k, Nat.mul_pos hpos (tenTo_pos k), hd, String.toList_inj.1 ?_⟩
  rw [numberLiteral_finite language negative h.ne_zero, language.magnitude_holds h, Decimal.render, hshortest,
    Decimal.positional_natural hpos, toList_toString_signed negative (Nat.mul_pos hpos (tenTo_pos k))]

/-- a number block writes the literal of the number its text starts with, and leaves the state as it is -/
theorem Pass.perform_of_number (pass : Pass) (language : Language) {block : Block} {literal : String}
    (hform : block.head.form = .ok (.number literal)) (bare : Bool) :
    pass.perform (block.code (.standard language) bare) =
      (.ok (language.numberLiteral (Binary64.parsePrefix literal)), pass) := by
  have hcode : language.numberLiteral (Binary64.parsePrefix literal) ++ "" =
      language.numberLiteral (Binary64.parsePrefix literal) := String.append_empty
  obtain ⟨head, values, statements, next⟩ := block
  have hform : head.form = .ok (.number literal) := hform
  rw [Block.perform_code, hform]
  cases language <;> exact congrArg (fun code => (Except.ok code, _)) hcode

theorem Pass.perform_number (pass : Pass) (language : Language) (literal : String) (bare : Bool) :
    pass.perform ((Block.number literal).code (.standard language) bare) =
      (.ok (language.numberLiteral (Binary64.parsePrefix literal)), pass) :=
  pass.perform_of_number language rfl bare

theorem Binary64.ofInt_signed (negative : Bool) {n : Nat} (hn : 0 < n) :
    ofInt (signed negative n) = round negative n 1 := by
  rw [ofInt, natAbs_signed]
  simp only [signed_lt_zero_iff negative hn, Bool.decide_eq_true]

/-- an integer of the format other than zero is read as the number it is -/
theorem Binary64.Represents.holds {n : ℤ} (h : Represents n) (hne : n ≠ 0) (hsize : |n| < 2 ^ 63) :
    ∃ m p, Decimal.Holds n.natAbs m p ∧ parsePrefix (toString n) = .finite (n < 0) m p := by
  have hlt : n.natAbs < 2 ^ 63 := by
    rw [Int.abs_eq_natAbs] at hsize
    exact_mod_cast hsize
  obtain ⟨m, p, hround, hunits⟩ := h.round false (show 63 ≤ 970 by decide) hlt
  have hcount : Decimal.digitCount n.natAbs ≤ 19 := Decimal.digitCount_le (by decide) (hlt.trans (by decide))
  refine ⟨m, p, ⟨Int.natAbs_pos.2 hne, hlt, hround, hunits⟩, ?_⟩
  calc parsePrefix (toString n) = Decimal.read (n < 0) n.natAbs (0 : ℕ) := parsePrefix_toString n
    _ = .round (n < 0) (n.natAbs * tenTo 0) 1 := Decimal.read_natural _ (by omega)
    _ = .round (n < 0) n.natAbs 1 := by rw [tenTo_eq, Nat.pow_zero, Nat.mul_one]
    _ = .finite (n < 0) m p := by rw [← withSign_round _ false, hround]; rfl

/-- which powers of ten have a multiple with the nearest number of an integer does not depend on its sign -/
theorem forall_ofInt_iff {n : ℤ} {m p : Nat} (h : Decimal.Holds n.natAbs m p) :
    (∀ (c : ℤ) (k : ℕ), Binary64.ofInt (c * tenTo k) = Binary64.ofInt n → (tenTo k : ℤ) ∣ n) ↔
      ∀ c k, Binary64.round false (c * tenTo k) 1 = Binary64.round false n.natAbs 1 → tenTo k ∣ n.natAbs := by
  constructor
  · intro hall c k hc
    have hhits : Decimal.Hits m p c k := hc.trans h.round
    have hpos := Nat.mul_pos (hhits.pos h) (tenTo_pos k)
    have heq : Binary64.ofInt (signed (n < 0) c * tenTo k) = Binary64.ofInt n := by
      rw [← signed_mul, Binary64.ofInt_signed _ hpos, Binary64.ofInt, ← Binary64.withSign_round _ false, hc,
        Binary64.withSign_round]
    exact Int.natCast_dvd.1 (hall _ k heq)
  · intro hall c k hc
    have hround := congrArg (Binary64.withSign false) hc
    rw [Binary64.withSign_ofInt, Binary64.withSign_ofInt, Int.natAbs_mul, Int.natAbs_natCast] at hround
    exact Int.natCast_dvd.2 (hall _ k hround)

/-- **Integers in literals.** The block of an integer of the format below 2^63 is written, in every target and
state, as the decimal notation of an integer below 2^63 whose nearest number is the block's. It is the integer
of the block exactly when each power of ten that has a multiple with that nearest number divides the integer,
and always below 2^54 + 8. -/
theorem integer_literal_kept_iff (language : Language) (bare : Bool) (pass : Pass) {n : ℤ} (hsize : |n| < 2 ^ 63)
    (hn : Binary64.Represents n) :
    ∃ written : ℤ,
      pass.perform ((Block.number (toString n)).code (.standard language) bare) = (.ok (toString written), pass) ∧
      (Binary64.ofInt written).value? = some (n * twoTo 1074) ∧ |written| < 2 ^ 63 ∧
      (written = n ↔ ∀ (c : ℤ) (k : ℕ), Binary64.ofInt (c * tenTo k) = Binary64.ofInt n → (tenTo k : ℤ) ∣ n) ∧
      (|n| < 2 ^ 54 + 8 → written = n) := by
  rcases eq_or_ne n 0 with rfl | hne
  · refine ⟨0, ?_, ?_, by decide, iff_of_true rfl fun _ k _ => dvd_zero _, fun _ => rfl⟩
    · rw [pass.perform_number, Binary64.parsePrefix_toString]
      rfl
    · rw [Binary64.ofInt, Int.natAbs_zero, Decimal.round_zero, zero_mul]
      rfl
  · obtain ⟨m, p, hholds, hparse⟩ := hn.holds hne hsize
    obtain ⟨d, k, hpos, hd, hliteral⟩ := language.numberLiteral_holds (n < 0) hholds
    have hkept : signed (n < 0) (d * tenTo k) = n ↔ d * tenTo k = n.natAbs := by
      constructor
      · intro heq
        rw [← natAbs_signed (n < 0) (d * tenTo k), heq]
      · intro heq
        rw [heq, signed_natAbs]
    refine ⟨signed (n < 0) (d * tenTo k), ?_, ?_, ?_, ?_, ?_⟩
    · rw [pass.perform_number, hparse, hliteral]
    · rw [Binary64.ofInt_signed _ hpos, ← Binary64.withSign_round _ false, hd.sameNumber, hholds.round]
      have hvalue : signed (n < 0) (n.natAbs * twoTo 1074) = n * twoTo 1074 := by rw [signed_mul, signed_natAbs]
      rw [← hvalue, ← hholds.units]
      rfl
    · rw [Int.abs_eq_natAbs, natAbs_signed]
      exact_mod_cast hd.lt hholds
    · rw [hkept, hd.eq_iff, forall_ofInt_iff hholds]
    · intro hsmall
      rw [hkept, hd.eq_iff]
      intro c j hc
      rw [Int.abs_eq_natAbs] at hsmall
      exact Decimal.dvd_of_small hholds (by exact_mod_cast hsmall) hc

/-- the greatest integer before the spacing of the numbers grows to four, in a target with exact integers -/
theorem power_of_two_is_kept :
    |(18014398509481984 : ℤ)| < 2 ^ 63 ∧ Binary64.Represents 18014398509481984 ∧
      (Pass.start .python).perform
          ((Block.number (toString (18014398509481984 : ℤ))).code (.standard .python) true) =
        (.ok (toString (18014398509481984 : ℤ)), .start .python) := by
  have hsize : |(18014398509481984 : ℤ)| < 2 ^ 63 := by decide
  have hn : Binary64.Represents 18014398509481984 := ⟨1077 * 2 ^ 52, by decide +kernel⟩
  obtain ⟨written, hcode, -, -, -, hkept⟩ := integer_literal_kept_iff .python true (.start .python) hsize hn
  rw [hkept (by decide)] at hcode
  exact ⟨hsize, hn, hcode⟩

theorem eq_ok_of_toOption {ε α : Type} {outcome : Except ε α} {a : α} (h : outcome.toOption = some a) :
    outcome = .ok a := by
  cases outcome with
  | error cause => cases h
  | ok b => rw [Option.some.inj h]

/-- **An integer is written as another.** In the targets with exact integers the block of 2^54 + 8 becomes the
literal of 2^54 + 6, whose last digit is a zero. -/
theorem integer_literal_is_rounded :
    |(18014398509481992 : ℤ)| < 2 ^ 63 ∧ Binary64.Represents 18014398509481992 ∧
      generate .python [.number "18014398509481992"] = .ok "18014398509481990\n" ∧
      generate .dart [.number "18014398509481992"] = .ok "main() \x7b\n  18014398509481990;\n\x7d\n" := by
  have hruns : (Binary64.ofBits (1077 * 2 ^ 52 + 2)).value? = some ((18014398509481992 : ℤ) * twoTo 1074) ∧
      (generate .python [.number "18014398509481992"]).toOption = some "18014398509481990\n" ∧
      (generate .dart [.number "18014398509481992"]).toOption =
        some "main() \x7b\n  18014398509481990;\n\x7d\n" := by decide +kernel
  obtain ⟨hvalue, hpython, hdart⟩ := hruns
  exact ⟨by decide, ⟨1077 * 2 ^ 52 + 2, hvalue⟩, eq_ok_of_toOption hpython, eq_ok_of_toOption hdart⟩

end Blockwork
