/-
Bounds and indices that are worked out while generating. The end of a counting loop moves up by one and the index of
a character down by one; where the operand is a run of digits, the generator does so itself, in 64 bits.

- `Denotes`: a run of digits, and the natural number that it denotes.
- `Block.number_of_isDigits`: only a number block gives a run of digits. Every other template writes something that is
  no digit, except for a variable, and identifiers do not start with one (`Language.shape_isMarked`).
- `Language.literal_of_isDigits`: a literal of digits is the literal of the number nearest to what they denote. So it
  never denotes 2^64 - 1 (`Language.ne_of_isDigits`), and is below 2^63 - 1 in Dart, where larger whole numbers have
  a fraction (`Language.lt_of_isDigits_dart`).
- `bounds_are_exact`: the main statement.
-/
import Blockwork.Proofs.BareReceivers
import Blockwork.Proofs.LiteralValues

namespace Blockwork

/-! ## Runs of digits -/

/-- a run of digits that denotes a natural number -/
def Denotes (code : String) (n : Nat) : Prop :=
  IsDigits code ∧ Text.readDigits code.toList = n

/-- a run of digits, behind a minus sign or not, that denotes an integer -/
def DenotesInteger (code : String) (n : ℤ) : Prop :=
  ∃ negative digits, IsDigits digits ∧ code.toList = signedChars negative digits.toList ∧
    n = signed negative (Text.readDigits digits.toList)

/-- an integer literal of Dart has to fit into 64 bits with a sign -/
def FitsTarget (language : Language) (code : String) : Prop :=
  language = .dart → ∀ n, DenotesInteger code n → -2 ^ 63 ≤ n ∧ n < 2 ^ 63

theorem IsDigits.ne_nil {code : String} (h : IsDigits code) : code.toList ≠ [] :=
  fun hnil => h.1 (String.toList_eq_nil_iff.1 hnil)

theorem IsDigits.numericLiteral? {code : String} (h : IsDigits code) :
    numericLiteral? code = some (Decimal.read false (Text.readDigits code.toList) 0) := by
  have hplain : code.toList = signedChars false code.toList := rfl
  have hhead := head?_ne_minus h.ne_nil h.2 []
  rw [List.append_nil] at hhead
  exact (numericLiteral?_signed hplain hhead).trans (plainNumeral?_whole false h.ne_nil h.2)

theorem naturalBelow?_eq_some {limit n : Nat} {code : String} :
    naturalBelow? limit code = some n ↔ Denotes code n ∧ n < limit := by
  have hdigits : (!code.toList.isEmpty && code.toList.all Char.isDigit) = true ↔ IsDigits code := by
    simp [IsDigits, List.all_eq_true]
  rw [naturalBelow?, Option.filter_eq_some_iff, Text.readNatural?]
  constructor
  · rintro ⟨hread, hlt⟩
    split_ifs at hread with hd
    exact ⟨⟨hdigits.1 hd, Option.some.inj hread⟩, of_decide_eq_true hlt⟩
  · rintro ⟨⟨hd, rfl⟩, hlt⟩
    exact ⟨if_pos (hdigits.2 hd), decide_eq_true hlt⟩

theorem naturalBelow?_eq_none {limit : Nat} {code : String} (h : ∀ n, Denotes code n → limit ≤ n) :
    naturalBelow? limit code = none := by
  refine Option.eq_none_iff_forall_ne_some.2 fun n hn => ?_
  obtain ⟨hd, hlt⟩ := naturalBelow?_eq_some.1 hn
  exact absurd (h n hd) (not_le.2 hlt)

theorem denotes_toString (n : Nat) : Denotes (toString n) n := by
  have hlist : (toString n).toList = Nat.toDigits 10 n := Nat.toList_repr
  refine ⟨⟨fun h => ?_, ?_⟩, ?_⟩
  · rw [h] at hlist
    exact Nat.toDigits_ne_nil hlist.symm
  · rw [hlist]
    exact Decimal.isDigit_toDigits n
  · rw [hlist, Decimal.readDigits_toDigits]

/-! ## Code that is a run of digits -/

/-- whether a piece writes something that is no digit, whatever the texts in its places -/
def Piece.isMarked : Piece → Bool
  | text code => code.toList.any fun c => !c.isDigit
  | _ => false

def Shape.isMarked (shape : Shape) : Bool :=
  shape.every fun layout => layout.pieces.any Piece.isMarked

theorem Template.choice_isMarked (steps : List Step) (elseifs : Nat) {condition : Nat → List Piece}
    (rest : List (List Piece)) (h : (condition 0).any Piece.isMarked) :
    (tight steps (.flatten ((List.range (elseifs + 1)).flatMap condition :: rest))).shape.isMarked := by
  simp only [tight, Shape.isMarked, Shape.every, Layout.tight, List.flatten_cons, List.any_append,
    List.range_succ_eq_map, List.flatMap_cons, h, Bool.true_or]

/-- **A construct writes something that is no digit**, unless it is a number, a variable, or a procedure in Dart. -/
theorem Language.shape_isMarked (language : Language) {form : Form} (hn : ∀ literal, form ≠ .number literal)
    (hg : ∀ name, form ≠ .get name) (hp : language = .dart → ∀ name, form ≠ .procedure name) :
    (language.template form).shape.isMarked := by
  cases form using Form.byData with
  | plain form hm =>
    have hplain : ∀ form ∈ Form.plain, (language.template form).shape.isMarked := by cases language <;> decide +kernel
    exact hplain form hm
  | number literal => exact absurd rfl (hn literal)
  | text content =>
    have hquote : (language.quote content).toList.any fun c => !c.isDigit := by
      rw [Language.quote, String.toList_ofList, Text.quoteChars, List.any_cons]
      exact Bool.true_or _
    have hshape : (Shape.always (.tight [.text (language.quote content)])).isMarked := by
      simp [Shape.isMarked, Shape.every, Layout.tight, Piece.isMarked, hquote]
    cases language <;> exact hshape
  | list items => cases language <;> rfl
  | choice elseifs otherwise => cases language <;> exact Template.choice_isMarked _ _ _ rfl
  | get name => exact absurd rfl (hg name)
  | procedure name =>
    cases language with
    | dart => exact absurd rfl (hp rfl name)
    | javascript => rfl
    | python => rfl
  | onList op => cases language <;> cases op <;> rfl
  | changeCase style => cases language <;> cases style <;> rfl
  | _ => cases language <;> rfl

theorem Piece.exists_not_isDigit {pieces : List Piece} (h : pieces.any isMarked) (texts : List String) :
    ∃ c ∈ (renderAll texts pieces).toList, ¬ c.isDigit := by
  induction pieces with
  | nil => cases h
  | cons piece rest ih =>
    rw [renderAll, String.toList_append]
    rw [List.any_cons, Bool.or_eq_true] at h
    rcases h with h | h
    · cases piece with
      | text code =>
        obtain ⟨c, hc, hdigit⟩ := List.any_eq_true.1 h
        exact ⟨c, List.mem_append_left _ hc, by simpa using hdigit⟩
      | _ => cases h
    · obtain ⟨c, hc, hdigit⟩ := ih h
      exact ⟨c, List.mem_append_right _ hc, hdigit⟩

theorem Template.not_isDigits_render {template : Template} (h : template.shape.isMarked) (texts : List String)
    (bare : Bool) : ¬ IsDigits (template.render texts bare) := by
  obtain ⟨c, hc, hdigit⟩ := Piece.exists_not_isDigit (Shape.check_layout h texts) texts
  rintro ⟨-, hall⟩
  unfold render Layout.render at hall
  simp only at hall
  split_ifs at hall
  · cases bare with
    | true => exact hdigit (hall c hc)
    | false => exact absurd (hall '(' (by simp [parenthesize, bracketed])) (by decide)
  · exact hdigit (hall c hc)

section
variable {language : Language} {pass after : Pass} {code : String}

/-- code comes from a construct, once the steps of its template have left their texts -/
theorem Block.exists_form {block : Block} {bare : Bool}
    (hrun : pass.perform (block.code (.standard language) bare) = (.ok code, after)) :
    ∃ form texts, block.head.form = .ok form ∧
      pass.perform (Step.runAll (block.site (.standard language)) [] (language.template form).steps) =
        (.ok texts, after) ∧
      code = (language.template form).render texts bare := by
  obtain ⟨head, values, statements, next⟩ := block
  rw [perform_code] at hrun
  cases hform : head.form with
  | error cause =>
    rw [hform] at hrun
    cases hrun
  | ok form =>
    rw [hform] at hrun
    obtain ⟨texts, between, hsteps, hcode⟩ := Pass.perform_bind_ok hrun
    cases hcode
    exact ⟨form, texts, hform, hsteps, rfl⟩

theorem Template.not_isDigits_get {name : String} {site : Site} {texts : List String} (hp : pass.WellNamed)
    (hsteps : pass.perform (Step.runAll site [] (language.template (.get name)).steps) = (.ok texts, after))
    (bare : Bool) : ¬ IsDigits ((language.template (.get name)).render texts bare) := by
  have hget : (language.template (.get name)).steps = [.userVariable name] := by cases language <;> rfl
  have htexts : texts = [(pass.names.bind .variable name).1] := by
    rw [hget] at hsteps
    exact (Except.ok.inj (Prod.mk.inj hsteps).1).symm
  have hrender : (language.template (.get name)).render [(pass.names.bind .variable name).1] bare =
      (pass.names.bind .variable name).1 ++ "" := by cases language <;> rfl
  rw [htexts, hrender, String.append_empty]
  exact (IsCovered.identifier (hp.names.bind .variable name).1).not_isDigits

/-- **Only a number block gives a run of digits.** -/
theorem Block.number_of_isDigits {block : Block} {bare : Bool} (hp : pass.WellNamed)
    (hrun : pass.perform (block.code (.standard language) bare) = (.ok code, after)) (hd : IsDigits code) :
    ∃ literal, block.head.form = .ok (.number literal) ∧
      code = language.numberLiteral (Binary64.parsePrefix literal) := by
  obtain ⟨form, texts, hform, hsteps, hcode⟩ := Block.exists_form hrun
  by_cases hnumber : ∃ literal, form = .number literal
  · obtain ⟨literal, rfl⟩ := hnumber
    rw [pass.perform_of_number language hform] at hrun
    exact ⟨literal, hform, (Except.ok.inj (Prod.mk.inj hrun).1).symm⟩
  · subst hcode
    by_cases hget : ∃ name, form = .get name
    · obtain ⟨name, rfl⟩ := hget
      exact absurd hd (Template.not_isDigits_get hp hsteps bare)
    · by_cases hprocedure : language = .dart ∧ ∃ name, form = .procedure name
      · obtain ⟨rfl, name, rfl⟩ := hprocedure
        exact absurd rfl hd.1
      · exact absurd hd (Template.not_isDigits_render (language.shape_isMarked
          (fun literal h => hnumber ⟨literal, h⟩) (fun name h => hget ⟨name, h⟩)
          fun hdart name h => hprocedure ⟨hdart, name, h⟩) texts bare)

section
variable {block : Block} {slot : Nat} {bare : Bool} {absent : String}

/-- the text of a value slot is what the block in it gives, or stands in for none -/
theorem Site.perform_value_ok
    (hrun : pass.perform ((block.site (.standard language)).value slot bare absent) = (.ok code, after)) :
    (code = absent ∧
        (after = pass ∨ ∃ child : Block, after = (pass.perform (child.code (.standard language) bare)).2)) ∨
      ∃ child : Block, pass.perform (child.code (.standard language) bare) = (.ok code, after) := by
  have hslot : Slots.get? slot (block.site (.standard language)).values =
      (Slots.get? slot block.values).map (Block.emission (.standard language)) := Block.get?_emissions _ _ _
  unfold value value? at hrun
  rw [hslot] at hrun
  cases hplugged : Slots.get? slot block.values with
  | none =>
    rw [hplugged] at hrun
    cases hrun
    exact .inl ⟨rfl, .inl rfl⟩
  | some child =>
    rw [hplugged] at hrun
    obtain ⟨found, between, hfound, hcode⟩ := Pass.perform_bind_ok hrun
    obtain ⟨text, between', htext, hkept⟩ := Pass.perform_bind_ok hfound
    cases hkept
    cases hcode
    have hchild : pass.perform (child.code (.standard language) bare) = (.ok text, after) := htext
    by_cases hempty : text.isEmpty
    · rw [if_pos hempty]
      exact .inl ⟨rfl, .inr ⟨child, by rw [hchild]⟩⟩
    · rw [if_neg hempty]
      exact .inr ⟨child, hchild⟩

theorem Pass.Reachable.value (hp : pass.Reachable language)
    (hrun : pass.perform ((block.site (.standard language)).value slot bare absent) = (.ok code, after)) :
    after.Reachable language := by
  rcases Site.perform_value_ok hrun with ⟨-, rfl | ⟨child, rfl⟩⟩ | ⟨child, hchild⟩
  · exact hp
  · exact hp.code child bare
  · rw [← show (pass.perform (child.code (.standard language) bare)).2 = after by rw [hchild]]
    exact hp.code child bare

/-- a run of digits in a value slot is the literal of a number: of a block, or of what stands in for none -/
theorem Site.literal_of_isDigits (hp : pass.WellNamed) {x : Binary64} (habsent : absent = language.numberLiteral x)
    (hx : x.IsProper)
    (hrun : pass.perform ((block.site (.standard language)).value slot bare absent) = (.ok code, after))
    (hd : IsDigits code) : ∃ y : Binary64, y.IsProper ∧ code = language.numberLiteral y := by
  rcases Site.perform_value_ok hrun with ⟨rfl, -⟩ | ⟨child, hchild⟩
  · exact ⟨x, hx, habsent⟩
  · obtain ⟨literal, -, hcode⟩ := Block.number_of_isDigits hp hchild hd
    exact ⟨_, Binary64.isProper_parsePrefix literal, hcode⟩

end

end

/-! ## Literals that are runs of digits -/

theorem Decimal.sign_of_read {negative sign : Bool} {digits m p : Nat} {exponent : Int}
    (h : read negative digits exponent = .finite sign m p) : sign = negative := by
  have hsame := withSign_read negative negative digits exponent
  rw [h] at hsame
  exact (Binary64.finite.inj hsame).1.symm

namespace Language

/-- a literal that is a run of digits is of a finite number, and reads as that -/
theorem read_of_isDigits (language : Language) {x : Binary64} (hx : x.IsProper)
    (hd : IsDigits (language.numberLiteral x)) :
    ∃ m p, Decimal.read false (Text.readDigits (language.numberLiteral x).toList) 0 = .finite false m p ∧
      language.numberLiteral x = language.numberLiteral (.finite false m p) := by
  have hread := hd.numericLiteral?
  cases x with
  | nan => exact absurd hd (by cases language <;> decide)
  | infinite negative => exact absurd hd (by cases language <;> cases negative <;> decide)
  | finite negative m p =>
    obtain ⟨hnormal, hp⟩ := hx _ _ _ rfl
    rcases Nat.eq_zero_or_pos m with rfl | hm
    · rw [language.numericLiteral?_zero] at hread
      refine ⟨0, 0, (Option.some.inj hread).symm, ?_⟩
      rw [language.numberLiteral_zero, language.numberLiteral_zero]
    · have hsame := hread.symm.trans (language.numericLiteral?_numberLiteral negative hnormal hp hm.ne')
      have hvalue := Option.some.inj hsame
      obtain rfl := Decimal.sign_of_read hvalue
      exact ⟨m, p, hvalue, rfl⟩

/-- **A literal of digits is the literal of the number nearest to what they denote.** -/
theorem literal_of_isDigits (language : Language) {x : Binary64} (hx : x.IsProper)
    (hd : IsDigits (language.numberLiteral x)) :
    ∃ m p, Binary64.round false (Text.readDigits (language.numberLiteral x).toList) 1 = .finite false m p ∧
      language.numberLiteral x = language.numberLiteral (.finite false m p) := by
  obtain ⟨m, p, hread, hliteral⟩ := language.read_of_isDigits hx hd
  generalize Text.readDigits (language.numberLiteral x).toList = n at hread
  refine ⟨m, p, ?_, hliteral⟩
  have hsmall : Decimal.digitCount n + 0 ≤ 310 := by
    by_contra hlarge
    have hn : n ≠ 0 := by
      rintro rfl
      exact absurd hlarge (by decide)
    have hinfinite : Decimal.read false n 0 = .infinite false := by
      unfold Decimal.read
      simp only [if_neg hn]
      rw [if_pos (by omega)]
    rw [hinfinite] at hread
    cases hread
  have hnatural : Decimal.read false n (0 : ℕ) = .round false (n * tenTo 0) 1 := Decimal.read_natural false hsmall
  rw [tenTo_eq, Nat.pow_zero, Nat.mul_one] at hnatural
  exact hnatural.symm.trans hread

/-- **No literal denotes 2^64 - 1**: the nearest number is 2^64, which is written otherwise. -/
theorem ne_of_isDigits (language : Language) {x : Binary64} (hx : x.IsProper)
    (hd : IsDigits (language.numberLiteral x)) :
    Text.readDigits (language.numberLiteral x).toList ≠ 2 ^ 64 - 1 := by
  intro hvalue
  obtain ⟨m, p, hround, hliteral⟩ := language.literal_of_isDigits hx hd
  have hnearest : Binary64.round false (2 ^ 64 - 1) 1 = .finite false (2 ^ 52) 1086 := by decide +kernel
  rw [hvalue, hnearest] at hround
  obtain ⟨-, rfl, rfl⟩ := Binary64.finite.inj hround
  have hother : Text.readDigits (language.numberLiteral (.finite false (2 ^ 52) 1086)).toList ≠ 2 ^ 64 - 1 := by
    cases language <;> decide +kernel
  exact hother (hliteral ▸ hvalue)

theorem marksFraction_of_isDigits (language : Language) {m p : Nat}
    (hd : IsDigits (language.numberLiteral (.finite false m p))) (hm : m ≠ 0) :
    language.marksFraction (.finite false m p) = false := by
  by_contra hmark
  rw [Bool.not_eq_false] at hmark
  have hpoint : '.' ∈ (language.numberLiteral (.finite false m p)).toList := by
    rw [language.numberLiteral_finite false hm, magnitude, if_pos hmark]
    exact List.mem_append_right _ (List.mem_append_right _ List.mem_cons_self)
  exact absurd (hd.2 '.' hpoint) (by decide)

/-- from 2^63 on every number of the format is whole, and has a fraction in Dart -/
theorem marksFraction_dart {m p : Nat} (h : Binary64.IsNormal m p) (hle : twoTo 63 * twoTo 1074 ≤ Binary64.units m p) :
    Language.dart.marksFraction (.finite false m p) := by
  have hsplit : ∀ k, 2 ^ (52 + k) = twoTo 52 * twoTo k := fun k => Nat.pow_add 2 52 k
  have hlarge : twoTo 52 * twoTo 1074 ≤ Binary64.units m p := (Nat.mul_le_mul_right _ (by decide)).trans hle
  rw [← hsplit] at hlarge
  have hdvd := h.dvd_units hlarge
  rw [← Binary64.twoTo_eq] at hdvd
  have hwhole := Nat.mod_eq_zero_of_dvd hdvd
  simp [marksFraction, Binary64.isWhole, Binary64.magnitudeAtLeast, hwhole, hle]

/-- **In Dart digits denote less than 2^63 - 1.** -/
theorem lt_of_isDigits_dart {x : Binary64} (hx : x.IsProper) (hd : IsDigits (Language.dart.numberLiteral x)) :
    Text.readDigits (Language.dart.numberLiteral x).toList + 1 < 2 ^ 63 := by
  obtain ⟨m, p, hround, hliteral⟩ := Language.dart.literal_of_isDigits hx hd
  by_contra hle
  have hnearest : Binary64.round false (2 ^ 63 - 1) 1 = .finite false (2 ^ 52) 1085 := by decide +kernel
  have hunits : Binary64.units (2 ^ 52) 1085 = twoTo 63 * twoTo 1074 := by decide +kernel
  have hmono := Binary64.round_mono (show 2 ^ 63 - 1 ≤ _ by omega) hnearest hround
  rw [hunits] at hmono
  have hm : m ≠ 0 := by
    rintro rfl
    rw [Binary64.units, Nat.zero_mul] at hmono
    exact absurd hmono (not_le.2 (Nat.mul_pos (by decide) (Decimal.twoTo_pos 1074)))
  have hplain := Language.dart.marksFraction_of_isDigits (hliteral ▸ hd) hm
  rw [marksFraction_dart (Binary64.isNormal_of_round hround) hmono] at hplain
  cases hplain

end Language

theorem signedChars_inj {s t : Bool} {cs ds : List Char} (hc : cs.head? ≠ some '-') (hd : ds.head? ≠ some '-')
    (h : signedChars s cs = signedChars t ds) : s = t ∧ cs = ds := by
  cases s <;> cases t
  · exact ⟨rfl, h⟩
  · exact absurd (congrArg List.head? h) hc
  · exact absurd (congrArg List.head? h).symm hd
  · exact ⟨rfl, (List.cons.inj h).2⟩

/-- an integer literal of a number is a sign or none, and a literal of digits -/
theorem Language.digits_of_denotesInteger (language : Language) {x : Binary64} (hx : x.IsProper) {n : ℤ}
    (h : DenotesInteger (language.numberLiteral x) n) :
    ∃ (negative : Bool) (y : Binary64), y.IsProper ∧ IsDigits (language.numberLiteral y) ∧
      n = signed negative (Text.readDigits (language.numberLiteral y).toList) := by
  obtain ⟨negative, digits, hd, hcode, rfl⟩ := h
  have hhead := head?_ne_minus hd.ne_nil hd.2 []
  rw [List.append_nil] at hhead
  have hchars : ∀ c ∈ (language.numberLiteral x).toList, c = '-' ∨ c.isDigit := by
    rw [hcode, signedChars]
    refine List.forall_mem_append.2 ⟨?_, fun c hc => .inr (hd.2 c hc)⟩
    cases negative <;> simp
  -- the literal is a sign or none in front of the literal of a number that is not negative
  obtain ⟨sign, y, hy, hsplit, hplain⟩ : ∃ (sign : Bool) (y : Binary64), y.IsProper ∧
      (language.numberLiteral x).toList = signedChars sign (language.numberLiteral y).toList ∧
      (language.numberLiteral y).toList.head? ≠ some '-' := by
    cases x with
    | nan => exact absurd (hchars 'a' (by cases language <;> decide)) (by decide)
    | infinite sign => exact absurd (hchars 'n' (by cases language <;> cases sign <;> decide)) (by decide)
    | finite sign m p =>
      rcases Nat.eq_zero_or_pos m with rfl | hm
      · refine ⟨false, .finite sign 0 p, hx, rfl, ?_⟩
        rw [language.numberLiteral_zero]
        decide
      · have hmagnitude := language.numberLiteral_finite false hm.ne' p
        rw [if_neg Bool.false_ne_true, List.nil_append] at hmagnitude
        refine ⟨sign, .finite false m p, fun _ _ _ h => ?_, ?_, ?_⟩
        · obtain ⟨-, rfl, rfl⟩ := Binary64.finite.inj h
          exact hx _ _ _ rfl
        · rw [hmagnitude, language.numberLiteral_finite sign hm.ne', signedChars]
        · rw [hmagnitude]
          exact (language.isNumeral_magnitude m p).head?_ne_minus
  obtain ⟨rfl, hdigits⟩ := signedChars_inj hplain hhead (hsplit.symm.trans hcode)
  obtain rfl := String.toList_inj.1 hdigits
  exact ⟨sign, y, hy, hd, rfl⟩

/-- **Integer literals fit into their target.** -/
theorem Language.fits_numberLiteral (language : Language) {x : Binary64} (hx : x.IsProper) :
    FitsTarget language (language.numberLiteral x) := by
  rintro rfl n hn
  obtain ⟨negative, y, hy, hd, rfl⟩ := Language.dart.digits_of_denotesInteger hx hn
  have hlt := Language.lt_of_isDigits_dart hy hd
  unfold signed
  split_ifs <;> omega

/-! ## Bounds and indices -/

/-- the least natural number that a counting loop of a target cannot have as its bound -/
def Language.boundLimit : Language → Nat
  | dart => 2 ^ 63
  | javascript => 2 ^ 64
  | python => 2 ^ 64

/-- the least natural number that a target does not take as the index of a character -/
def Language.indexLimit : Language → Nat
  | python => 2 ^ 64
  | javascript => 2 ^ 63
  | dart => 2 ^ 63

/-- the index counted from zero of one counted from one; where a negative index counts from the end, none is less than
zero -/
def Language.indexText (language : Language) (n : Nat) : String :=
  match language with
  | python => toString (n - 1)
  | _ => toString ((n : ℤ) - 1)

/-- the bound that a counting loop needs to include its end -/
structure IsBoundAbove (language : Language) (stop bound : String) : Prop where
  counted : ∀ n, Denotes stop n → n < 2 ^ 64 → bound = toString (n + 1) ∧ n + 1 < language.boundLimit
  formed : (∀ n, Denotes stop n → 2 ^ 64 ≤ n) → bound = stop ++ " + 1"
  fits : FitsTarget language bound

/-- the index counted from zero for a text counted from one -/
structure IsIndexBefore (language : Language) (text index : String) : Prop where
  counted : ∀ n, Denotes text n → n < language.indexLimit → index = language.indexText n
  formed : (∀ n, Denotes text n → language.indexLimit ≤ n) → index = text ++ " - 1"
  fits : FitsTarget language index

theorem fitsTarget_of_blank (language : Language) {code : String} (h : ' ' ∈ code.toList) :
    FitsTarget language code := by
  rintro - n ⟨negative, digits, hd, hcode, -⟩
  rw [hcode, signedChars, List.mem_append] at h
  rcases h with hm | hm
  · cases negative <;> simp at hm
  · exact absurd (hd.2 ' ' hm) (by decide)

theorem denotesInteger_toString {k n : ℤ} (h : DenotesInteger (toString k) n) : n = k := by
  obtain ⟨negative, digits, hd, hcode, rfl⟩ := h
  have htext : (toString k).toList = signedChars (k < 0) (Nat.toDigits 10 k.natAbs) := by
    simp only [toList_toString_int, signedChars, decide_eq_true_eq]
  have hhead := head?_ne_minus hd.ne_nil hd.2 []
  have hhead' := head?_ne_minus (Nat.toDigits_ne_nil (n := k.natAbs)) (Decimal.isDigit_toDigits _) []
  rw [List.append_nil] at hhead hhead'
  obtain ⟨rfl, hdigits⟩ := signedChars_inj hhead' hhead (htext.symm.trans hcode)
  rw [← hdigits, Decimal.readDigits_toDigits, signed_natAbs]

/-- where no smaller number is denoted, what is formed behind the text has a blank -/
theorem blank_mem_append (code : String) {behind : String} (h : ' ' ∈ behind.toList) :
    ' ' ∈ (code ++ behind).toList := by
  rw [String.toList_append]
  exact List.mem_append_right _ h

theorem boundAbove_eq (stop : String) :
    boundAbove stop = match naturalBelow? (2 ^ 64) stop with
      | some n => toString (n + 1)
      | none => stop ++ " + 1" := rfl

theorem isBoundAbove (language : Language) {stop : String}
    (h : IsDigits stop → ∃ x : Binary64, x.IsProper ∧ stop = language.numberLiteral x) :
    IsBoundAbove language stop (boundAbove stop) := by
  have hlimit : ∀ n, Denotes stop n → n < 2 ^ 64 → n + 1 < language.boundLimit := by
    rintro n ⟨hd, rfl⟩ hlt
    obtain ⟨x, hx, rfl⟩ := h hd
    have hne := language.ne_of_isDigits hx hd
    have hlimit : Text.readDigits (language.numberLiteral x).toList + 1 < 2 ^ 64 := by omega
    cases language with
    | dart => exact Language.lt_of_isDigits_dart hx hd
    | javascript => exact hlimit
    | python => exact hlimit
  have hcounted : ∀ n, Denotes stop n → n < 2 ^ 64 → boundAbove stop = toString (n + 1) := by
    intro n hn hlt
    rw [boundAbove_eq, naturalBelow?_eq_some.2 ⟨hn, hlt⟩]
  have hformed : (∀ n, Denotes stop n → 2 ^ 64 ≤ n) → boundAbove stop = stop ++ " + 1" := by
    intro hall
    rw [boundAbove_eq, naturalBelow?_eq_none hall]
  refine ⟨fun n hn hlt => ⟨hcounted n hn hlt, hlimit n hn hlt⟩, hformed, ?_⟩
  by_cases hsmall : ∃ n, Denotes stop n ∧ n < 2 ^ 64
  · obtain ⟨n, hn, hlt⟩ := hsmall
    rw [hcounted n hn hlt]
    rintro rfl k hk
    have hk : k = (n + 1 : ℕ) := denotesInteger_toString hk
    have hdart : n + 1 < 2 ^ 63 := hlimit n hn hlt
    omega
  · rw [hformed fun n hn => not_lt.1 fun hlt => hsmall ⟨n, hn, hlt⟩]
    exact fitsTarget_of_blank language (blank_mem_append stop (by decide))

def Language.indexBefore (language : Language) (text : String) : String :=
  match language with
  | python => Blockwork.indexBeforeClamped text
  | javascript => Blockwork.indexBefore text
  | dart => Blockwork.indexBefore text

theorem Language.indexBefore_eq (language : Language) (text : String) :
    language.indexBefore text = match naturalBelow? language.indexLimit text with
      | some n => language.indexText n
      | none => text ++ " - 1" := by
  cases language <;> rfl

theorem isIndexBefore (language : Language) (text : String) :
    IsIndexBefore language text (language.indexBefore text) := by
  have hcounted : ∀ n, Denotes text n → n < language.indexLimit →
      language.indexBefore text = language.indexText n := by
    intro n hn hlt
    rw [language.indexBefore_eq, naturalBelow?_eq_some.2 ⟨hn, hlt⟩]
  have hformed : (∀ n, Denotes text n → language.indexLimit ≤ n) → language.indexBefore text = text ++ " - 1" := by
    intro hall
    rw [language.indexBefore_eq, naturalBelow?_eq_none hall]
  refine ⟨hcounted, hformed, ?_⟩
  by_cases hsmall : ∃ n, Denotes text n ∧ n < language.indexLimit
  · obtain ⟨n, hn, hlt⟩ := hsmall
    rw [hcounted n hn hlt]
    rintro rfl k hk
    have hk : k = (n : ℤ) - 1 := denotesInteger_toString hk
    have hlimit : n < 2 ^ 63 := hlt
    omega
  · rw [hformed fun n hn => not_lt.1 fun hlt => hsmall ⟨n, hn, hlt⟩]
    exact fitsTarget_of_blank language (blank_mem_append text (by decide))

/-! ## Loops and characters -/

/-- a counting loop -/
def Language.countingLoop (language : Language) (counter start bound body : String) : String :=
  match language with
  | python => "for " ++ counter ++ " in range(" ++ rangeStart start ++ bound ++ "):\n" ++ body
  | _ => "for (" ++ counter ++ " = " ++ start ++ "; " ++ counter ++ " < " ++ bound ++ "; " ++ counter ++
      "++) \x7b\n" ++ body ++ "\x7d\n"

/-- the character of a text at an index -/
def Language.characterAt (language : Language) (source index : String) : String :=
  match language with
  | dart => receiver source ++ "[" ++ index ++ "]"
  | _ => source ++ "[" ++ index ++ "]"

theorem Language.render_count (language : Language) (name counter start stop body : String) (bare : Bool) :
    (language.template (.count name)).render [counter, start, stop, body] bare =
      language.countingLoop counter start (boundAbove stop) body := by
  cases language with
  | python =>
    have hend : "):\n" ++ body = "):\n" ++ (body ++ "") := congrArg _ String.append_empty.symm
    simp only [countingLoop, String.append_assoc]
    rw [hend]
    rfl
  | _ =>
    simp only [countingLoop, String.append_assoc]
    rfl

theorem Language.render_charAt (language : Language) (text source : String) (bare : Bool) :
    (language.template .charAt).render [text, source] bare =
      language.characterAt source (language.indexBefore text) := by
  cases language <;>
    · simp only [characterAt, String.append_assoc]
      rfl

/-- steps that leave one text each, one after the other -/
theorem Step.perform_runAll_cons {pass after : Pass} {site : Site} {texts all : List String} {step : Step}
    {rest : List Step} {action : Gen String}
    (hstep : step.run site texts = action >>= fun text => pure (texts ++ [text]))
    (h : pass.perform (Step.runAll site texts (step :: rest)) = (.ok all, after)) :
    ∃ text between, pass.perform action = (.ok text, between) ∧
      between.perform (Step.runAll site (texts ++ [text]) rest) = (.ok all, after) := by
  obtain ⟨left, between, hleft, hrest⟩ := Pass.perform_bind_ok h
  rw [hstep] at hleft
  obtain ⟨text, between', htext, hkept⟩ := Pass.perform_bind_ok hleft
  cases hkept
  exact ⟨text, between, htext, hrest⟩

section
variable {language : Language} {pass after : Pass} {block : Block} {bare : Bool} {code : String}

/-- the code of a block is that of its construct once the steps have left their texts -/
theorem Block.perform_code_ok {form : Form} (hform : block.head.form = .ok form)
    (hrun : pass.perform (block.code (.standard language) bare) = (.ok code, after)) :
    ∃ texts, pass.perform (Step.runAll (block.site (.standard language)) [] (language.template form).steps) =
      (.ok texts, after) ∧ code = (language.template form).render texts bare := by
  obtain ⟨other, texts, hother, hsteps, hcode⟩ := Block.exists_form hrun
  obtain rfl := Except.ok.inj (hform.symm.trans hother)
  exact ⟨texts, hsteps, hcode⟩

theorem Block.perform_count {name : String} (hform : block.head.form = .ok (.count name))
    (hrun : pass.perform (block.code (.standard language) bare) = (.ok code, after)) :
    ∃ counter start stop body pass₁ pass₂ pass₃,
      pass.perform (Gen.nameOf .variable name) = (.ok counter, pass₁) ∧
      pass₁.perform ((block.site (.standard language)).value 0 true "0") = (.ok start, pass₂) ∧
      pass₂.perform ((block.site (.standard language)).value 1 false "0") = (.ok stop, pass₃) ∧
      pass₃.perform ((block.site (.standard language)).branch 0) = (.ok body, after) ∧
      code = language.countingLoop counter start (boundAbove stop) body := by
  obtain ⟨texts, hsteps, rfl⟩ := Block.perform_code_ok hform hrun
  have hcount : (language.template (.count name)).steps =
      [.userVariable name, Template.number 0 true, Template.number 1 false, .branch 0] := by cases language <;> rfl
  rw [hcount] at hsteps
  obtain ⟨counter, pass₁, hcounter, hsteps⟩ := Step.perform_runAll_cons rfl hsteps
  obtain ⟨start, pass₂, hstart, hsteps⟩ := Step.perform_runAll_cons rfl hsteps
  obtain ⟨stop, pass₃, hstop, hsteps⟩ := Step.perform_runAll_cons rfl hsteps
  obtain ⟨body, pass₄, hbody, hsteps⟩ := Step.perform_runAll_cons rfl hsteps
  cases hsteps
  exact ⟨counter, start, stop, body, pass₁, pass₂, pass₃, hcounter, hstart, hstop, hbody,
    language.render_count name counter start stop body bare⟩

theorem Block.perform_charAt (hform : block.head.form = .ok .charAt)
    (hrun : pass.perform (block.code (.standard language) bare) = (.ok code, after)) :
    ∃ text source between,
      pass.perform ((block.site (.standard language)).value 0 false "1") = (.ok text, between) ∧
      between.perform ((block.site (.standard language)).value 1 (language = .dart) "[]") = (.ok source, after) ∧
      code = language.characterAt source (language.indexBefore text) := by
  obtain ⟨texts, hsteps, rfl⟩ := Block.perform_code_ok hform hrun
  have hcharAt : (language.template .charAt).steps =
      [.value 0 false "1", Template.list 1 (language = .dart)] := by cases language <;> rfl
  rw [hcharAt] at hsteps
  obtain ⟨text, between, htext, hsteps⟩ := Step.perform_runAll_cons rfl hsteps
  obtain ⟨source, last, hsource, hsteps⟩ := Step.perform_runAll_cons rfl hsteps
  cases hsteps
  exact ⟨text, source, between, htext, hsource, language.render_charAt text source bare⟩

end

/-- **Bounds are exact.** Where a block is generated from any state that a run reaches: the bound of a counting loop is
the number above its end where the end denotes one below 2^64, which then is not 2^64 - 1, and is formed when the
program runs otherwise; the index of a character is likewise the number below its operand; and in Dart each of these,
and the literal of any double or number block, fits into 64 bits with a sign wherever it is an integer literal. -/
theorem bounds_are_exact {language : Language} {pass after : Pass} (hp : pass.Reachable language) {block : Block}
    {bare : Bool} {code : String}
    (hrun : pass.perform (block.code (.standard language) bare) = (.ok code, after)) :
    (∀ name, block.head.form = .ok (.count name) →
      ∃ counter start stop bound body pass₁ pass₂ pass₃,
        pass.perform (Gen.nameOf .variable name) = (.ok counter, pass₁) ∧
        pass₁.perform ((block.site (.standard language)).value 0 true "0") = (.ok start, pass₂) ∧
        pass₂.perform ((block.site (.standard language)).value 1 false "0") = (.ok stop, pass₃) ∧
        pass₃.perform ((block.site (.standard language)).branch 0) = (.ok body, after) ∧
        code = language.countingLoop counter start bound body ∧ IsBoundAbove language stop bound) ∧
    (block.head.form = .ok .charAt →
      ∃ text source index between,
        pass.perform ((block.site (.standard language)).value 0 false "1") = (.ok text, between) ∧
        between.perform ((block.site (.standard language)).value 1 (language = .dart) "[]") = (.ok source, after) ∧
        code = language.characterAt source index ∧ IsIndexBefore language text index) ∧
    (∀ word, FitsTarget language (language.numberLiteral (.ofBits word))) ∧
    ∀ literal, FitsTarget language (language.numberLiteral (.parsePrefix literal)) := by
  refine ⟨fun name hform => ?_, fun hform => ?_, fun word => ?_, fun literal => ?_⟩
  · obtain ⟨counter, start, stop, body, pass₁, pass₂, pass₃, hcounter, hstart, hstop, hbody, hcode⟩ :=
      Block.perform_count hform hrun
    have hp₁ : pass₁.Reachable language := by
      rw [← show (pass.perform (Gen.nameOf .variable name)).2 = pass₁ by rw [hcounter]]
      exact hp.nameOf .variable name
    have hp₂ : pass₂.Reachable language := hp₁.value hstart
    have hzero : "0" = language.numberLiteral (.zero false) := (language.numberLiteral_zero false 0).symm
    have hliteral : IsDigits stop → ∃ x : Binary64, x.IsProper ∧ stop = language.numberLiteral x :=
      Site.literal_of_isDigits hp₂.wellNamed.1 hzero (Binary64.isProper_zero false) hstop
    exact ⟨counter, start, stop, _, body, pass₁, pass₂, pass₃, hcounter, hstart, hstop, hbody, hcode,
      isBoundAbove language hliteral⟩
  · obtain ⟨text, source, between, htext, hsource, hcode⟩ := Block.perform_charAt hform hrun
    exact ⟨text, source, _, between, htext, hsource, hcode, isIndexBefore language text⟩
  · exact language.fits_numberLiteral (Binary64.isProper_ofBits word)
  · exact language.fits_numberLiteral (Binary64.isProper_parsePrefix literal)

def countToTen : Block :=
  .mk (Head.bare Kind.count.name) [(0, .number "1"), (1, .number "10")] [] none

theorem countToTen_bounded :
    (Pass.start .dart).Reachable .dart ∧ countToTen.head.form = .ok (.count "i") ∧
      ∃ after, (Pass.start .dart).perform (countToTen.code (.standard .dart) true) =
          (.ok "for (i = 1; i < 11; i++) \x7b\n  ;\n\x7d\n", after) ∧ IsBoundAbove .dart "10" "11" := by
  have hform : countToTen.head.form = .ok (.count "i") := rfl
  have hrun : (Pass.start .dart).perform (countToTen.code (.standard .dart) true) =
      (.ok "for (i = 1; i < 11; i++) \x7b\n  ;\n\x7d\n",
        ((Pass.start .dart).perform (countToTen.code (.standard .dart) true)).2) :=
    Prod.ext (by decide +kernel) rfl
  obtain ⟨counter, start, stop, bound, body, pass₁, pass₂, pass₃, -, -, hstop, -, -, hbound⟩ :=
    (bounds_are_exact .start hrun).1 "i" hform
  have hten : Language.dart.numberLiteral (.parsePrefix "10") = "10" := by decide +kernel
  have hvalue : pass₂.perform ((countToTen.site (.standard .dart)).value 1 false "0") =
      (.ok (Language.dart.numberLiteral (.parsePrefix "10")), pass₂) :=
    Site.perform_value_some rfl (pass₂.perform_of_number .dart rfl false) (by decide +kernel) "0"
  rw [hvalue, hten] at hstop
  cases hstop
  obtain ⟨rfl, -⟩ := hbound.counted 10 (denotes_toString 10) (by decide)
  exact ⟨.start, hform, _, hrun, hbound⟩

end Blockwork
