/-
The numbers that texts start with.

- `NumberText`: the number texts over a class of digits, with their values: an optional sign, and then `Infinity` or a
  numeral.
- `LongestNumber`: the longest number that a text starts with; there is one as soon as there is any (`exists_longest`).
- `parsePrefix_of_ascii`, `parsePrefix_of_foreign`: what is found in a text is its longest number over the digits of all
  scripts, and that has a value when it is a number of ASCII digits.
- `longest_number_is_read`: so the longest number of ASCII digits is read as its value, except where a digit of another
  script goes on with it.
-/
import Blockwork.Proofs.LiteralValues

namespace Blockwork

/-! ## Number texts -/

namespace Numeral

/-- the exact magnitude of a numeral of ASCII digits -/
def magnitude (n : Numeral) : ℚ :=
  Text.readDigits (n.whole ++ n.fraction) * 10 ^ (n.scale - n.fraction.length)

/-- an optional sign -/
inductive IsSign : Bool → List Char → Prop
  | absent : IsSign false []
  | plus : IsSign false ['+']
  | minus : IsSign true ['-']

/-- digits with an optional point and fraction, or a point and digits -/
inductive IsMantissa (isDigit : Char → Bool) : List Char → List Char → List Char → Prop
  | whole {ds : List Char} : ds ≠ [] → (∀ c ∈ ds, isDigit c) → IsMantissa isDigit ds [] ds
  | pointed {ds es : List Char} : ds ≠ [] ∨ es ≠ [] → (∀ c ∈ ds, isDigit c) → (∀ c ∈ es, isDigit c) →
      IsMantissa isDigit ds es (ds ++ '.' :: es)

/-- an optional exponent; where it is absent there are no digits, and the sign has no meaning -/
inductive IsExponent (isDigit : Char → Bool) : Bool → List Char → List Char → Prop
  | absent {negative : Bool} : IsExponent isDigit negative [] []
  | marked {mark : Char} {negative : Bool} {s ds : List Char} : mark = 'e' ∨ mark = 'E' → IsSign negative s →
      ds ≠ [] → (∀ c ∈ ds, isDigit c) → IsExponent isDigit negative ds (mark :: (s ++ ds))

end Numeral

open Numeral

/-- the texts of numbers over a class of digits, and their values when the digits are ASCII -/
inductive NumberText (isDigit : Char → Bool) : List Char → Binary64 → Prop
  | infinity {negative : Bool} {s : List Char} : IsSign negative s →
      NumberText isDigit (s ++ "Infinity".toList) (.infinite negative)
  | numeral {n : Numeral} {s mantissa exponent : List Char} : IsSign n.negative s →
      IsMantissa isDigit n.whole n.fraction mantissa → IsExponent isDigit n.exponentNegative n.exponent exponent →
      NumberText isDigit (s ++ (mantissa ++ exponent)) (.nearest n.negative n.magnitude)

/-- the longest number that a text starts with -/
structure LongestNumber (isDigit : Char → Bool) (cs found : List Char) : Prop where
  start : found <+: cs
  number : ∃ x, NumberText isDigit found x
  longest : ∀ other x, other <+: cs → NumberText isDigit other x → other.length ≤ found.length

section
variable {d d' : Char → Bool} {text cs found : List Char} {x : Binary64}

theorem Numeral.IsMantissa.digits {ds es : List Char} (h : IsMantissa d ds es text) :
    ∀ c ∈ ds ++ es, c ∈ text ∧ d c := by
  intro c hc
  cases h with
  | whole _ hd =>
    rw [List.append_nil] at hc
    exact ⟨hc, hd c hc⟩
  | pointed _ hd he =>
    rcases List.mem_append.1 hc with hc | hc
    · exact ⟨List.mem_append_left _ hc, hd c hc⟩
    · exact ⟨List.mem_append_right _ (List.mem_cons_of_mem _ hc), he c hc⟩

theorem Numeral.IsMantissa.mono {ds es : List Char} (h : IsMantissa d ds es text) (hd : ∀ c ∈ ds ++ es, d' c) :
    IsMantissa d' ds es text := by
  cases h with
  | whole hne _ => exact .whole hne fun c hc => hd c (List.mem_append_left _ hc)
  | pointed hne _ _ =>
    exact .pointed hne (fun c hc => hd c (List.mem_append_left _ hc)) fun c hc => hd c (List.mem_append_right _ hc)

theorem Numeral.IsMantissa.concat {ds es : List Char} (h : IsMantissa d ds es text) {c : Char} (hc : d c) :
    ∃ ds' es', IsMantissa d ds' es' (text ++ [c]) := by
  have hone : ∀ e ∈ [c], d e := fun e he => List.mem_singleton.1 he ▸ hc
  have hall : ∀ {cs : List Char}, (∀ e ∈ cs, d e) → ∀ e ∈ cs ++ [c], d e :=
    fun hcs e he => (List.mem_append.1 he).elim (hcs e) (hone e)
  cases h with
  | whole _ hd => exact ⟨_, [], .whole (List.append_ne_nil_of_right_ne_nil _ (List.cons_ne_nil c [])) (hall hd)⟩
  | pointed _ hd he =>
    refine ⟨ds, es ++ [c], ?_⟩
    rw [List.append_assoc, List.cons_append]
    exact .pointed (.inr (List.append_ne_nil_of_right_ne_nil _ (List.cons_ne_nil c []))) hd (hall he)

/-- a mantissa starts with a digit or with the point -/
theorem Numeral.IsMantissa.exists_cons {ds es : List Char} (h : IsMantissa d ds es text) :
    ∃ c cs, text = c :: cs ∧ (d c ∨ c = '.') := by
  cases h with
  | whole hne hd =>
    obtain ⟨c, cs, rfl⟩ := List.exists_cons_of_ne_nil hne
    exact ⟨c, cs, rfl, .inl (hd c List.mem_cons_self)⟩
  | pointed _ hd _ =>
    cases ds with
    | nil => exact ⟨'.', es, rfl, .inr rfl⟩
    | cons c cs => exact ⟨c, cs ++ '.' :: es, rfl, .inl (hd c List.mem_cons_self)⟩

theorem Numeral.IsExponent.digits {negative : Bool} {ds : List Char} (h : IsExponent d negative ds text) :
    ∀ c ∈ ds, c ∈ text ∧ d c := by
  intro c hc
  cases h with
  | absent => cases hc
  | marked _ _ _ hd => exact ⟨List.mem_cons_of_mem _ (List.mem_append_right _ hc), hd c hc⟩

theorem Numeral.IsExponent.mono {negative : Bool} {ds : List Char} (h : IsExponent d negative ds text)
    (hd : ∀ c ∈ ds, d' c) : IsExponent d' negative ds text := by
  cases h with
  | absent => exact .absent
  | marked hmark hs hne _ => exact .marked hmark hs hne hd

theorem Numeral.IsExponent.eq_nil_iff {negative : Bool} {ds : List Char} (h : IsExponent d negative ds text) :
    text = [] ↔ ds = [] := by
  cases h with
  | absent => exact Iff.rfl
  | marked _ _ hne _ => exact iff_of_false (List.cons_ne_nil _ _) hne

theorem Numeral.IsExponent.concat {negative : Bool} {ds : List Char} (h : IsExponent d negative ds text) (hne : ds ≠ [])
    {c : Char} (hc : d c) : IsExponent d negative (ds ++ [c]) (text ++ [c]) := by
  cases h with
  | absent => exact absurd rfl hne
  | marked hmark hs _ hd =>
    rw [List.cons_append, List.append_assoc]
    refine .marked hmark hs (List.append_ne_nil_of_left_ne_nil hne _) fun e he => ?_
    exact (List.mem_append.1 he).elim (hd e) fun he => List.mem_singleton.1 he ▸ hc

/-- a class that has the digits of a number text makes it a number text of the same value -/
theorem NumberText.mono (h : NumberText d text x) (hd : ∀ c ∈ text, d c → d' c) : NumberText d' text x := by
  cases h with
  | infinity hs => exact .infinity hs
  | numeral hs hm he =>
    refine .numeral hs (hm.mono fun c hc => ?_) (he.mono fun c hc => ?_)
    · obtain ⟨hmem, hc⟩ := hm.digits c hc
      exact hd c (List.mem_append_right _ (List.mem_append_left _ hmem)) hc
    · obtain ⟨hmem, hc⟩ := he.digits c hc
      exact hd c (List.mem_append_right _ (List.mem_append_right _ hmem)) hc

/-- the characters that number texts have besides their digits -/
def numberMarks : List Char :=
  "+-.eEInfinity".toList

theorem Numeral.IsSign.mark {negative : Bool} (h : IsSign negative text) : ∀ c ∈ text, c ∈ numberMarks := by
  cases h with
  | absent => exact List.forall_mem_nil _
  | plus => exact List.forall_mem_singleton.2 (by decide)
  | minus => exact List.forall_mem_singleton.2 (by decide)

theorem Numeral.IsMantissa.digit_or_mark {ds es : List Char} (h : IsMantissa d ds es text) :
    ∀ c ∈ text, d c ∨ c ∈ numberMarks := by
  intro c hc
  cases h with
  | whole _ hd => exact .inl (hd c hc)
  | pointed _ hd he =>
    rcases List.mem_append.1 hc with hc | hc
    · exact .inl (hd c hc)
    rcases List.mem_cons.1 hc with rfl | hc
    · exact .inr (by decide)
    · exact .inl (he c hc)

theorem Numeral.IsExponent.digit_or_mark {negative : Bool} {ds : List Char} (h : IsExponent d negative ds text) :
    ∀ c ∈ text, d c ∨ c ∈ numberMarks := by
  intro c hc
  cases h with
  | absent => cases hc
  | marked hmark hs _ hd =>
    rcases List.mem_cons.1 hc with rfl | hc
    · rcases hmark with rfl | rfl <;> exact .inr (by decide)
    · exact (List.mem_append.1 hc).symm.imp (hd c) (hs.mark c)

theorem NumberText.digit_or_mark (h : NumberText d text x) : ∀ c ∈ text, d c ∨ c ∈ numberMarks := by
  intro c hc
  cases h with
  | infinity hs => exact .inr ((List.mem_append.1 hc).elim (hs.mark c) (List.mem_append_right "+-.eE".toList))
  | numeral hs hm he =>
    rcases List.mem_append.1 hc with hc | hc
    · exact .inr (hs.mark c hc)
    · exact (List.mem_append.1 hc).elim (hm.digit_or_mark c) (he.digit_or_mark c)

theorem NumberText.ne_nan (h : NumberText d text x) : x ≠ .nan := by
  cases h with
  | infinity _ => exact nofun
  | numeral _ _ _ => exact Binary64.round_ne_nan _ _ _

end

/-! ## The longest number -/

theorem LongestNumber.eq_nil_of_more {d : Char → Bool} {found rest more : List Char} {x : Binary64}
    (h : LongestNumber d (found ++ rest) found) (hmore : more <+: rest) (hx : NumberText d (found ++ more) x) :
    more = [] := by
  have hlength := h.longest _ _ ((List.prefix_append_right_inj found).2 hmore) hx
  rw [List.length_append] at hlength
  exact List.length_eq_zero_iff.1 (by omega)

/-- a number is the longest one where a character follows that numbers do not have -/
theorem LongestNumber.of_stop {d : Char → Bool} {found rest : List Char} {x : Binary64} (hx : NumberText d found x)
    (hrest : ∀ c ∈ rest.head?, d c = false ∧ c ∉ numberMarks) : LongestNumber d (found ++ rest) found := by
  refine ⟨List.prefix_append _ _, ⟨x, hx⟩, fun other y hother hy => not_lt.1 fun hlt => ?_⟩
  obtain ⟨more, rfl⟩ := List.prefix_of_prefix_length_le (List.prefix_append _ _) hother hlt.le
  have hmore := (List.prefix_append_right_inj found).1 hother
  cases more with
  | nil => simp at hlt
  | cons c more =>
    obtain ⟨tail, rfl⟩ := hmore
    obtain ⟨hdigit, hmark⟩ := hrest c rfl
    have hc := hy.digit_or_mark c (List.mem_append_right _ List.mem_cons_self)
    simp [hdigit, hmark] at hc

/-- a text that starts with a number starts with a longest one -/
theorem exists_longest {d : Char → Bool} {cs found : List Char} {x : Binary64} (hstart : found <+: cs)
    (hx : NumberText d found x) : ∃ found, LongestNumber d cs found := by
  classical
  -- the starts of the text are counted by their lengths
  let isNumber : Nat → Prop := fun n => ∃ y, NumberText d (cs.take n) y
  have hspec : isNumber (Nat.findGreatest isNumber cs.length) :=
    Nat.findGreatest_spec hstart.length_le ⟨x, (List.prefix_iff_eq_take.1 hstart) ▸ hx⟩
  refine ⟨cs.take (Nat.findGreatest isNumber cs.length), List.take_prefix _ _, hspec, fun other y hother hy => ?_⟩
  have hle : other.length ≤ Nat.findGreatest isNumber cs.length :=
    Nat.le_findGreatest hother.length_le ⟨y, (List.prefix_iff_eq_take.1 hother) ▸ hy⟩
  rw [List.length_take]
  exact le_min hle hother.length_le

/-! ## Recognition -/

namespace Numeral

variable {negative : Bool} {s ds es rest : List Char}

theorem sign_append (hs : IsSign negative s) (hrest : ∀ c ∈ rest.head?, c ≠ '-' ∧ c ≠ '+') :
    sign (s ++ rest) = (negative, rest) := by
  cases hs with
  | plus => rfl
  | minus => rfl
  | absent =>
    rw [List.nil_append]
    unfold sign
    split
    next => exact absurd rfl (hrest '-' rfl).1
    next => exact absurd rfl (hrest '+' rfl).2
    next => rfl

theorem exists_sign (cs : List Char) : ∃ s, IsSign (sign cs).1 s ∧ cs = s ++ (sign cs).2 := by
  unfold sign
  split
  next cs => exact ⟨['-'], .minus, rfl⟩
  next cs => exact ⟨['+'], .plus, rfl⟩
  next cs => exact ⟨[], .absent, rfl⟩

theorem ne_sign_of_isDecimalDigit {c : Char} (hc : Text.isDecimalDigit c) : c ≠ '-' ∧ c ≠ '+' := by
  constructor <;> · rintro rfl; exact absurd hc (by decide)

theorem isDecimalDigit_of_mem_leadingDigits {cs : List Char} : ∀ c ∈ leadingDigits cs, Text.isDecimalDigit c :=
  fun _ hc => List.mem_takeWhile_imp hc

theorem exists_isExponent (cs : List Char) :
    ∃ text, text <+: cs ∧ IsExponent Text.isDecimalDigit (exponentPart cs).1 (exponentPart cs).2 text := by
  cases cs with
  | nil => exact ⟨[], List.nil_prefix, .absent⟩
  | cons mark rest =>
    by_cases hmark : mark = 'e' ∨ mark = 'E'
    · have hpart : exponentPart (mark :: rest) = ((sign rest).1, leadingDigits (sign rest).2) := by
        simp [exponentPart, hmark]
      rw [hpart]
      rcases eq_or_ne (leadingDigits (sign rest).2) [] with hnone | hne
      · rw [hnone]
        exact ⟨[], List.nil_prefix, .absent⟩
      · obtain ⟨s, hs, hrest⟩ := exists_sign rest
        refine ⟨mark :: (s ++ leadingDigits (sign rest).2), ?_,
          .marked hmark hs hne isDecimalDigit_of_mem_leadingDigits⟩
        rw [List.prefix_cons_inj]
        conv_rhs => rw [hrest]
        exact (List.prefix_append_right_inj s).2 (List.takeWhile_prefix _)
    · have hpart : exponentPart (mark :: rest) = (false, []) := by simp [exponentPart, hmark]
      rw [hpart]
      exact ⟨[], List.nil_prefix, .absent⟩

theorem exponentPart_marked {mark : Char} (hmark : mark = 'e' ∨ mark = 'E') (hs : IsSign negative s) (hne : ds ≠ [])
    (hd : ∀ c ∈ ds, Text.isDecimalDigit c) (hrest : ∀ c ∈ rest.head?, Text.isDecimalDigit c = false) :
    exponentPart (mark :: (s ++ ds) ++ rest) = (negative, ds) := by
  have hhead : ∀ c ∈ (ds ++ rest).head?, c ≠ '-' ∧ c ≠ '+' := by
    obtain ⟨c, cs, rfl⟩ := List.exists_cons_of_ne_nil hne
    rintro _ ⟨⟩
    exact ne_sign_of_isDecimalDigit (hd c List.mem_cons_self)
  simp [exponentPart, hmark, sign_append hs hhead, leadingDigits_append hd hrest]

theorem unsigned?_pointed (negative : Bool) (hne : ds ≠ [] ∨ es ≠ []) (hd : ∀ c ∈ ds, Text.isDecimalDigit c)
    (he : ∀ c ∈ es, Text.isDecimalDigit c) (hrest : ∀ c ∈ rest.head?, Text.isDecimalDigit c = false) :
    unsigned? negative (ds ++ '.' :: es ++ rest) =
      some ⟨negative, ds, es, (exponentPart rest).1, (exponentPart rest).2⟩ := by
  have hpoint : ∀ c ∈ ('.' :: (es ++ rest)).head?, Text.isDecimalDigit c = false := by
    rintro _ ⟨⟩
    decide
  have hempty : (ds.isEmpty && es.isEmpty) = false := by
    rw [Bool.and_eq_false_iff, List.isEmpty_eq_false_iff, List.isEmpty_eq_false_iff]
    exact hne
  rw [List.append_assoc, List.cons_append]
  simp only [unsigned?, leadingDigits_append hd hpoint, leadingDigits_append he hrest, List.drop_left, hempty]
  rfl

/-- what is found as a numeral has a mantissa in front -/
theorem exists_isMantissa {cs : List Char} {n : Numeral} (h : unsigned? negative cs = some n) :
    ∃ mantissa, mantissa <+: cs ∧ IsMantissa Text.isDecimalDigit n.whole n.fraction mantissa := by
  have hwhole : leadingDigits cs <+: cs := List.takeWhile_prefix _
  unfold unsigned? at h
  simp only at h
  split at h
  next after hafter =>
    have hcs : leadingDigits cs ++ '.' :: after = cs := hafter ▸ List.prefix_iff_eq_append.1 hwhole
    split_ifs at h with hempty
    obtain rfl := Option.some.inj h
    refine ⟨leadingDigits cs ++ '.' :: leadingDigits after, ?_,
      .pointed ?_ isDecimalDigit_of_mem_leadingDigits isDecimalDigit_of_mem_leadingDigits⟩
    · conv_rhs => rw [← hcs]
      exact (List.prefix_append_right_inj _).2 ((List.prefix_cons_inj _).2 (List.takeWhile_prefix _))
    · rw [Bool.and_eq_true, List.isEmpty_iff, List.isEmpty_iff] at hempty
      exact not_and_or.1 hempty
  next =>
    split_ifs at h with hempty
    obtain rfl := Option.some.inj h
    rw [List.isEmpty_iff] at hempty
    exact ⟨leadingDigits cs, hwhole, .whole hempty isDecimalDigit_of_mem_leadingDigits⟩

/-- a numeral has a value when its digits are ASCII: its magnitude, rounded -/
theorem value?_eq_some_iff {n : Numeral} {x : Binary64} :
    n.value? = some x ↔
      ((∀ c ∈ n.whole ++ n.fraction, c.isDigit) ∧ ∀ c ∈ n.exponent, c.isDigit) ∧
        x = .nearest n.negative n.magnitude := by
  have hall : (n.whole.all Char.isDigit && n.fraction.all Char.isDigit && n.exponent.all Char.isDigit) = true ↔
      (∀ c ∈ n.whole ++ n.fraction, c.isDigit) ∧ ∀ c ∈ n.exponent, c.isDigit := by
    rw [← List.all_append, Bool.and_eq_true, List.all_eq_true, List.all_eq_true]
  rw [value?, magnitude, ← Decimal.read_eq_nearest]
  split_ifs with hdigits
  · rw [Option.some_inj, eq_comm, and_iff_right (hall.1 hdigits)]
  · exact iff_of_false not_false fun h => hdigits (hall.2 h.1)

/-- without digits in the exponent, its sign has no meaning -/
theorem value?_of_exponent_eq_nil (n : Numeral) (h : n.exponent = []) (flag : Bool) :
    value? { n with exponentNegative := flag } = n.value? := by
  have hscale : ({ n with exponentNegative := flag } : Numeral).scale = n.scale := by
    simp [scale, h, Text.readDigits]
  simp only [value?, hscale]

theorem unsigned?_mantissa (negative : Bool) {mantissa : List Char} (hm : IsMantissa Text.isDecimalDigit ds es mantissa)
    (hrest : ∀ c ∈ rest.head?, Text.isDecimalDigit c = false) (hpoint : mantissa = ds → rest.head? ≠ some '.') :
    unsigned? negative (mantissa ++ rest) = some ⟨negative, ds, es, (exponentPart rest).1, (exponentPart rest).2⟩ := by
  cases hm with
  | whole hne hd => exact unsigned?_whole negative hne hd hrest (hpoint rfl)
  | pointed hne hd he => exact unsigned?_pointed negative hne hd he hrest

end Numeral

section
variable {s mantissa exponent ds es xs rest : List Char} {negative flag : Bool}

theorem LongestNumber.stops {d : Char → Bool} (hs : IsSign negative s) (hm : IsMantissa d ds es mantissa)
    (he : IsExponent d flag xs exponent)
    (h : LongestNumber d (s ++ (mantissa ++ exponent) ++ rest) (s ++ (mantissa ++ exponent))) :
    ∀ c ∈ rest.head?, d c = false := by
  intro c hc
  by_contra hdigit
  rw [Bool.not_eq_false] at hdigit
  obtain ⟨tail, rfl⟩ := List.head?_eq_some_iff.1 hc
  suffices hlonger : ∃ x, NumberText d (s ++ (mantissa ++ exponent) ++ [c]) x by
    obtain ⟨x, hx⟩ := hlonger
    exact absurd (h.eq_nil_of_more ⟨tail, rfl⟩ hx) (List.cons_ne_nil c [])
  rcases eq_or_ne xs [] with rfl | hne
  · obtain rfl : exponent = [] := he.eq_nil_iff.2 rfl
    obtain ⟨ds', es', hm'⟩ := hm.concat hdigit
    have hx := NumberText.numeral (n := ⟨negative, ds', es', false, []⟩) hs hm' .absent
    rw [List.append_nil] at hx ⊢
    exact ⟨_, List.append_assoc s mantissa [c] ▸ hx⟩
  · have hx := NumberText.numeral (n := ⟨negative, ds, es, flag, xs ++ [c]⟩) hs hm (he.concat hne hdigit)
    rw [List.append_assoc, List.append_assoc]
    exact ⟨_, hx⟩

/-- nor a point behind digits alone, where it would be longer with the point -/
theorem LongestNumber.head?_ne_point {d : Char → Bool} (hs : IsSign negative s) (hne : ds ≠ []) (hd : ∀ c ∈ ds, d c)
    (h : LongestNumber d (s ++ ds ++ rest) (s ++ ds)) : rest.head? ≠ some '.' := by
  intro hc
  obtain ⟨tail, rfl⟩ := List.head?_eq_some_iff.1 hc
  have hpointed : IsMantissa d ds [] (ds ++ ['.']) := .pointed (.inl hne) hd (List.forall_mem_nil _)
  have hx := NumberText.numeral (n := ⟨negative, ds, [], false, []⟩) hs hpointed .absent
  rw [List.append_nil, ← List.append_assoc] at hx
  exact absurd (h.eq_nil_of_more ⟨tail, rfl⟩ hx) (List.cons_ne_nil '.' [])

theorem LongestNumber.exponentPart_eq_nil (hs : IsSign negative s) (hm : IsMantissa Text.isDecimalDigit ds es mantissa)
    (h : LongestNumber Text.isDecimalDigit (s ++ mantissa ++ rest) (s ++ mantissa)) : (exponentPart rest).2 = [] := by
  obtain ⟨text, htext, he⟩ := exists_isExponent rest
  have hx := NumberText.numeral (n := ⟨negative, ds, es, (exponentPart rest).1, (exponentPart rest).2⟩) hs hm he
  rw [← List.append_assoc] at hx
  obtain rfl := h.eq_nil_of_more htext hx
  exact he.eq_nil_iff.1 rfl

/-- **The longest number of a text is what is found in it.** -/
theorem value?_of_longest (hs : IsSign negative s) (hm : IsMantissa Text.isDecimalDigit ds es mantissa)
    (he : IsExponent Text.isDecimalDigit flag xs exponent)
    (h : LongestNumber Text.isDecimalDigit (s ++ (mantissa ++ exponent) ++ rest) (s ++ (mantissa ++ exponent))) :
    (unsigned? negative (mantissa ++ (exponent ++ rest))).bind value? = value? ⟨negative, ds, es, flag, xs⟩ := by
  have hstop := h.stops hs hm he
  cases he with
  | absent =>
    rw [List.append_nil] at h
    have hpoint : mantissa = ds → rest.head? ≠ some '.' := by
      rintro rfl
      obtain ⟨c, cs, hcs, -⟩ := hm.exists_cons
      exact h.head?_ne_point hs (hcs ▸ List.cons_ne_nil c cs) fun c hc => (hm.digits c (List.mem_append_left _ hc)).2
    rw [List.nil_append, unsigned?_mantissa negative hm hstop hpoint, h.exponentPart_eq_nil hs hm]
    exact value?_of_exponent_eq_nil ⟨negative, ds, es, flag, []⟩ rfl _
  | @marked mark _ s' _ hmark hs' hne hd =>
    have hmarkStop : ∀ c ∈ (mark :: (s' ++ xs) ++ rest).head?, Text.isDecimalDigit c = false := by
      rintro _ ⟨⟩
      rcases hmark with rfl | rfl <;> decide
    have hpoint : mantissa = ds → (mark :: (s' ++ xs) ++ rest).head? ≠ some '.' := by
      rintro - ⟨⟩
      exact absurd hmark (by decide)
    rw [unsigned?_mantissa negative hm hmarkStop hpoint, exponentPart_marked hmark hs' hne hd hstop]
    rfl

end

namespace Binary64

variable {text : String} {found : List Char} {x : Binary64}

theorem parsePrefix_numeral {negative : Bool} {s cs : List Char} (htext : Text.trimStart text.toList = s ++ cs)
    (hs : IsSign negative s) {c : Char} (hc : c ∈ cs.head?) (hmark : Text.isDecimalDigit c ∨ c = '.') :
    parsePrefix text = ((unsigned? negative cs).bind Numeral.value?).getD .nan := by
  obtain ⟨cs, rfl⟩ := List.head?_eq_some_iff.1 hc
  have hletter : ('I' == c) = false := by
    rw [beq_eq_false_iff_ne]
    rintro rfl
    exact absurd hmark (by decide)
  have hhead : ∀ e ∈ (c :: cs).head?, e ≠ '-' ∧ e ≠ '+' := by
    rintro _ ⟨⟩
    rcases hmark with hdigit | rfl
    · exact ne_sign_of_isDecimalDigit hdigit
    · decide
  simp [parsePrefix, htext, sign_append hs hhead, List.isPrefixOf, hletter]

theorem parsePrefix_infinity {negative : Bool} {s rest : List Char}
    (htext : Text.trimStart text.toList = s ++ "Infinity".toList ++ rest) (hs : IsSign negative s) :
    parsePrefix text = .infinite negative := by
  have hhead : ∀ e ∈ ("Infinity".toList ++ rest).head?, e ≠ '-' ∧ e ≠ '+' := by
    rintro _ ⟨⟩
    decide
  have hprefix : "Infinity".toList.isPrefixOf ("Infinity".toList ++ rest) = true :=
    List.isPrefixOf_iff_prefix.2 (List.prefix_append _ _)
  rw [List.append_assoc] at htext
  simp only [parsePrefix, htext, sign_append hs hhead, hprefix, if_true]

theorem parsePrefix_of_longest {n : Numeral} {s mantissa exponent : List Char} (hs : IsSign n.negative s)
    (hm : IsMantissa Text.isDecimalDigit n.whole n.fraction mantissa)
    (he : IsExponent Text.isDecimalDigit n.exponentNegative n.exponent exponent)
    (h : LongestNumber Text.isDecimalDigit (Text.trimStart text.toList) (s ++ (mantissa ++ exponent))) :
    parsePrefix text = n.value?.getD .nan := by
  obtain ⟨rest, hrest⟩ := h.start
  obtain ⟨c, cs, hcs, hc⟩ := hm.exists_cons
  have htext : Text.trimStart text.toList = s ++ (mantissa ++ (exponent ++ rest)) := by
    rw [← hrest, List.append_assoc, List.append_assoc]
  rw [parsePrefix_numeral htext hs (hcs ▸ rfl) hc, value?_of_longest hs hm he (hrest.symm ▸ h)]

/-- the longest number over all digits is read when it is a number of ASCII digits -/
theorem parsePrefix_of_ascii (h : LongestNumber Text.isDecimalDigit (Text.trimStart text.toList) found)
    (hx : NumberText Char.isDigit found x) : parsePrefix text = x := by
  cases hx with
  | infinity hs =>
    obtain ⟨rest, hrest⟩ := h.start
    exact parsePrefix_infinity hrest.symm hs
  | @numeral n _ _ _ hs hm he =>
    have hmantissa : ∀ c ∈ n.whole ++ n.fraction, c.isDigit := fun c hc => (hm.digits c hc).2
    have hexponent : ∀ c ∈ n.exponent, c.isDigit := fun c hc => (he.digits c hc).2
    rw [parsePrefix_of_longest hs (hm.mono (isDecimalDigit_of_digits hmantissa))
      (he.mono (isDecimalDigit_of_digits hexponent)) h, value?_eq_some_iff.2 ⟨⟨hmantissa, hexponent⟩, rfl⟩,
      Option.getD_some]

/-- with a digit of another script, it is undefined -/
theorem parsePrefix_of_foreign (h : LongestNumber Text.isDecimalDigit (Text.trimStart text.toList) found)
    (hforeign : ∀ x, ¬ NumberText Char.isDigit found x) : parsePrefix text = .nan := by
  obtain ⟨y, hy⟩ := h.number
  cases hy with
  | infinity hs => exact (hforeign _ (.infinity hs)).elim
  | @numeral n _ _ _ hs hm he =>
    rw [parsePrefix_of_longest hs hm he h]
    cases hvalue : n.value? with
    | none => rfl
    | some x =>
      obtain ⟨⟨hmantissa, hexponent⟩, -⟩ := value?_eq_some_iff.1 hvalue
      exact (hforeign _ (.numeral hs (hm.mono hmantissa) (he.mono hexponent))).elim

/-- a text that starts with no number is undefined -/
theorem parsePrefix_of_none
    (h : ∀ found x, found <+: Text.trimStart text.toList → ¬ NumberText Text.isDecimalDigit found x) :
    parsePrefix text = .nan := by
  obtain ⟨s, hs, hcs⟩ := exists_sign (Text.trimStart text.toList)
  unfold parsePrefix
  generalize sign (Text.trimStart text.toList) = signed at hs hcs ⊢
  obtain ⟨negative, cs⟩ := signed
  have hnone : ∀ number x, number <+: cs → ¬ NumberText Text.isDecimalDigit (s ++ number) x :=
    fun number x hnumber => h _ x (hcs ▸ (List.prefix_append_right_inj s).2 hnumber)
  have hinfinity : "Infinity".toList.isPrefixOf cs = false := by
    rw [Bool.eq_false_iff, Ne, List.isPrefixOf_iff_prefix]
    exact fun hstart => hnone _ _ hstart (.infinity hs)
  simp only [hinfinity]
  cases hnumeral : unsigned? negative cs with
  | none => rfl
  | some n =>
    obtain ⟨mantissa, hstart, hm⟩ := exists_isMantissa hnumeral
    have hx := NumberText.numeral (n := ⟨negative, n.whole, n.fraction, false, []⟩) hs hm .absent
    rw [List.append_nil] at hx
    exact absurd hx (hnone _ _ hstart)

end Binary64

/-! ## What is read -/

section
variable {text : String} {found : List Char} {x : Binary64}

theorem NumberText.wide (h : NumberText Char.isDigit found x) : NumberText Text.isDecimalDigit found x :=
  h.mono fun _ _ => isDecimalDigit_of_isDigit

/-- **What a text is read as.** After leading white space, a text that starts with no number of ASCII digits is
undefined. Of one that does there is a longest such start, and the text is read as its value when no digit of another
script makes a longer number of it, as none does in a text without such digits; otherwise it is undefined. -/
theorem longest_number_is_read (text : String) :
    ((∀ found x, found <+: Text.trimStart text.toList → ¬ NumberText Char.isDigit found x) →
      Binary64.parsePrefix text = .nan) ∧
    (∀ found x, found <+: Text.trimStart text.toList → NumberText Char.isDigit found x →
      ∃ longest, LongestNumber Char.isDigit (Text.trimStart text.toList) longest) ∧
    ∀ found x, LongestNumber Char.isDigit (Text.trimStart text.toList) found → NumberText Char.isDigit found x →
      x ≠ .nan ∧
      (LongestNumber Text.isDecimalDigit (Text.trimStart text.toList) found → Binary64.parsePrefix text = x) ∧
      (¬ LongestNumber Text.isDecimalDigit (Text.trimStart text.toList) found → Binary64.parsePrefix text = .nan) ∧
      ((∀ c ∈ Text.trimStart text.toList, Text.isDecimalDigit c → c.isDigit) →
        LongestNumber Text.isDecimalDigit (Text.trimStart text.toList) found) := by
  refine ⟨fun hnone => ?_, fun found x hstart hx => exists_longest hstart hx, fun found x h hx =>
    ⟨hx.ne_nan, fun hwide => Binary64.parsePrefix_of_ascii hwide hx, fun hlonger => ?_, fun hascii => ?_⟩⟩
  · by_cases hwide : ∃ found x, found <+: Text.trimStart text.toList ∧ NumberText Text.isDecimalDigit found x
    · obtain ⟨found, x, hstart, hx⟩ := hwide
      obtain ⟨longest, hlongest⟩ := exists_longest hstart hx
      exact Binary64.parsePrefix_of_foreign hlongest fun y => hnone longest y hlongest.start
    · exact Binary64.parsePrefix_of_none fun found x hstart hx => hwide ⟨found, x, hstart, hx⟩
  · obtain ⟨longest, hlongest⟩ := exists_longest h.start hx.wide
    refine Binary64.parsePrefix_of_foreign hlongest fun y hy => hlonger ?_
    -- a longest number of ASCII digits would be the one that is given
    have hle := h.longest longest y hlongest.start hy
    have hge := hlongest.longest found x h.start hx.wide
    have hsame : found = longest :=
      (List.prefix_of_prefix_length_le h.start hlongest.start hge).eq_of_length (le_antisymm hge hle)
    exact hsame ▸ hlongest
  · refine ⟨h.start, ⟨x, hx.wide⟩, fun other y hother hy => h.longest other y hother ?_⟩
    exact hy.mono fun c hc => hascii c (hother.subset hc)

theorem number_before_letter_is_read :
    LongestNumber Char.isDigit (Text.trimStart "  -2.50e1x".toList) "-2.50e1".toList ∧
      NumberText Char.isDigit "-2.50e1".toList (.nearest true 25) ∧
      Binary64.parsePrefix "  -2.50e1x" = .nearest true 25 := by
  have hmagnitude : magnitude ⟨true, ['2'], ['5', '0'], false, ['1']⟩ = 25 := by
    have hdigits : Text.readDigits ['2', '5', '0'] = 250 := rfl
    have hscale : Text.readDigits ['1'] = 1 := rfl
    norm_num [magnitude, scale, hdigits, hscale]
  have hnumber : NumberText Char.isDigit "-2.50e1".toList (.nearest true 25) := by
    have hmantissa : IsMantissa Char.isDigit ['2'] ['5', '0'] "2.50".toList :=
      .pointed (.inl (by decide)) (List.all_eq_true.1 rfl) (List.all_eq_true.1 rfl)
    have hexponent : IsExponent Char.isDigit false ['1'] "e1".toList :=
      .marked (.inl rfl) .absent (by decide) (List.all_eq_true.1 rfl)
    exact hmagnitude ▸ NumberText.numeral (n := ⟨true, ['2'], ['5', '0'], false, ['1']⟩) .minus hmantissa hexponent
  have hlongest : LongestNumber Char.isDigit (Text.trimStart "  -2.50e1x".toList) "-2.50e1".toList := by
    have hstop : ∀ c ∈ ['x'].head?, c.isDigit = false ∧ c ∉ numberMarks := by
      rintro _ ⟨⟩
      decide
    exact .of_stop hnumber hstop
  have hdigits : ∀ c ∈ Text.trimStart "  -2.50e1x".toList, Text.isDecimalDigit c → c.isDigit := by
    have hall : (Text.trimStart "  -2.50e1x".toList).all fun c => !Text.isDecimalDigit c || c.isDigit := by decide
    intro c hc hdigit
    simpa [hdigit] using List.all_eq_true.1 hall c hc
  obtain ⟨-, hread, -, hascii⟩ := (longest_number_is_read "  -2.50e1x").2.2 _ _ hlongest hnumber
  exact ⟨hlongest, hnumber, hread (hascii hdigits)⟩

/-- the longest number of ASCII digits is 5, and the text is undefined -/
theorem foreign_digit_is_undefined :
    LongestNumber Char.isDigit (Text.trimStart "5\u0663".toList) ['5'] ∧
      NumberText Char.isDigit ['5'] (.nearest false 5) ∧ Binary64.parsePrefix "5\u0663" = .nan := by
  have hmagnitude : magnitude ⟨false, ['5'], [], false, []⟩ = 5 := by
    have hdigits : Text.readDigits ['5'] = 5 := rfl
    have hscale : Text.readDigits [] = 0 := rfl
    norm_num [magnitude, scale, hdigits, hscale]
  have hnumber : NumberText Char.isDigit ['5'] (.nearest false 5) := by
    have hmantissa : IsMantissa Char.isDigit ['5'] [] ['5'] := .whole (by decide) (List.all_eq_true.1 rfl)
    exact hmagnitude ▸ NumberText.numeral (n := ⟨false, ['5'], [], false, []⟩) .absent hmantissa .absent
  have hstop : ∀ c ∈ ['\u0663'].head?, c.isDigit = false ∧ c ∉ numberMarks := by
    rintro _ ⟨⟩
    decide
  exact ⟨.of_stop hnumber hstop, hnumber, by decide +kernel⟩

end

end Blockwork
