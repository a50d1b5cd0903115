/-
Operands in the code of an expression: how often the text of each stands there.

- `Template.segments`: the code of a template cut into text of its own and texts of its operands;
  `Template.joined_segments` puts it together again.
- `Piece.count_segments`: a piece takes the one text it is for, unless that is a plain numeral.
- `Language.template_takesEach`: what the templates of expressions take, checked as data.
- `operands_are_spliced_once`: the main statement, with the one construct of which it fails.
-/
import Blockwork.Proofs.Bounds
import Blockwork.Proofs.Phrases

namespace Blockwork

/-! ## Segments -/

/-- a stretch of generated code -/
inductive Segment
  /-- text of the template -/
  | own (code : String)
  /-- the text that a step left, as it was left -/
  | left (i : Nat)
  deriving DecidableEq

namespace Segment

def code (texts : List String) : Segment → String
  | own code => code
  | left i => Piece.textAt texts i

/-- the code of segments in a row -/
def joined (texts : List String) : List Segment → String
  | [] => ""
  | segment :: rest => segment.code texts ++ joined texts rest

def bracketed (segments : List Segment) : List Segment :=
  own "(" :: (segments ++ [own ")"])

theorem joined_append (texts : List String) (before after : List Segment) :
    joined texts (before ++ after) = joined texts before ++ joined texts after := by
  induction before with
  | nil => exact String.empty_append.symm
  | cons segment rest ih => rw [List.cons_append, joined, joined, ih, String.append_assoc]

@[simp]
theorem joined_singleton (texts : List String) (segment : Segment) : joined texts [segment] = segment.code texts :=
  String.append_empty

@[simp]
theorem joined_bracketed (texts : List String) (segments : List Segment) :
    joined texts (bracketed segments) = Blockwork.bracketed (joined texts segments) := by
  rw [bracketed, joined, joined_append, joined_singleton, Blockwork.bracketed, String.append_assoc]
  rfl

theorem count_bracketed (i : Nat) (segments : List Segment) :
    (bracketed segments).count (left i) = segments.count (left i) := by
  simp [bracketed]

end Segment

namespace Piece

/-- the segments of a piece -/
def segments (texts : List String) : Piece → List Segment
  | text code => [.own code]
  | hole i => [.left i]
  | receiver i => if isReceiver (textAt texts i).toList then [.left i] else Segment.bracketed [.left i]
  | guardMinus i => if (textAt texts i).toList.head? == some '-' then Segment.bracketed [.left i] else [.left i]
  | guardWord i => if Text.isBareWord (textAt texts i).toList then [.left i] else Segment.bracketed [.left i]
  | boundAbove i =>
    match naturalBelow? (twoTo 64) (textAt texts i) with
    | some n => [.own (toString (n + 1))]
    | none => [.left i, .own " + 1"]
  | indexBefore i =>
    match naturalBelow? (twoTo 63) (textAt texts i) with
    | some n => [.own (toString ((n : Int) - 1))]
    | none => [.left i, .own " - 1"]
  | indexBeforeClamped i =>
    match naturalBelow? (twoTo 64) (textAt texts i) with
    | some n => [.own (toString (n - 1))]
    | none => [.left i, .own " - 1"]
  | rangeStart i => if (numericLiteral? (textAt texts i)).any Binary64.isZero then [] else [.left i, .own ", "]
  | procedureBody statements result stop noop =>
    if !(textAt texts result).isEmpty then
      [.left statements, .own Text.indentation, .own "return ", .left result, .own stop]
    else if !(textAt texts statements).isEmpty then [.left statements]
    else [.own Text.indentation, .own noop, .own "\n"]

theorem joined_segments (texts : List String) (piece : Piece) :
    Segment.joined texts (piece.segments texts) = piece.render texts := by
  cases piece with
  | text code => exact String.append_empty
  | hole i => exact String.append_empty
  | receiver i | guardMinus i | guardWord i =>
    simp only [segments, render, Blockwork.receiver, Blockwork.guardMinus, Blockwork.guardWord]
    split_ifs <;> simp [Segment.code]
  | boundAbove i =>
    rw [segments, render, Blockwork.boundAbove]
    cases naturalBelow? (twoTo 64) (textAt texts i) <;> simp [Segment.joined, Segment.code]
  | indexBefore i =>
    rw [segments, render, Blockwork.indexBefore]
    cases naturalBelow? (twoTo 63) (textAt texts i) <;> simp [Segment.joined, Segment.code]
  | indexBeforeClamped i =>
    rw [segments, render, Blockwork.indexBeforeClamped]
    cases naturalBelow? (twoTo 64) (textAt texts i) <;> simp [Segment.joined, Segment.code]
  | rangeStart i =>
    rw [segments, render, Blockwork.rangeStart]
    split_ifs <;> simp [Segment.joined, Segment.code]
  | procedureBody statements result stop noop =>
    rw [segments, render, Blockwork.procedureBody]
    split_ifs <;> simp [Segment.joined, Segment.code, String.append_assoc]

theorem joined_flatMap (texts : List String) (pieces : List Piece) :
    Segment.joined texts (pieces.flatMap (segments texts)) = renderAll texts pieces := by
  induction pieces with
  | nil => rfl
  | cons piece rest ih => rw [List.flatMap_cons, Segment.joined_append, joined_segments, ih, renderAll]

end Piece

def Layout.segments (texts : List String) (bare : Bool) (layout : Layout) : List Segment :=
  let inner := layout.pieces.flatMap (Piece.segments texts)
  if layout.isLoose && !bare then Segment.bracketed inner else inner

def Template.segments (template : Template) (texts : List String) (bare : Bool) : List Segment :=
  (template.shape.layout texts).segments texts bare

/-- **The segments make up the code.** -/
theorem Template.joined_segments (template : Template) (texts : List String) (bare : Bool) :
    Segment.joined texts (template.segments texts bare) = template.render texts bare := by
  rw [segments, render, Layout.segments, Layout.render]
  cases (template.shape.layout texts).isLoose <;> cases bare <;> simp [Piece.joined_flatMap, parenthesize]

/-! ## How often a text is taken -/

namespace Piece

/-- whether a piece is for a text -/
def takes (i : Nat) : Piece → Bool
  | text _ => false
  | hole j => j = i
  | receiver j => j = i
  | guardMinus j => j = i
  | guardWord j => j = i
  | boundAbove j => j = i
  | indexBefore j => j = i
  | indexBeforeClamped j => j = i
  | rangeStart j => j = i
  | procedureBody statements result _ _ => statements = i || result = i

def isProcedureBody : Piece → Bool
  | procedureBody _ _ _ _ => true
  | _ => false

/-- the segments of a piece that is for another text do not have this one -/
theorem count_segments_of_not_takes (texts : List String) {i : Nat} {piece : Piece} (ht : piece.takes i = false)
    (hp : piece.isProcedureBody = false) : (piece.segments texts).count (.left i) = 0 := by
  cases piece with
  | text code => exact List.count_eq_zero.2 (by simp [segments])
  | procedureBody => cases hp
  | hole j =>
    have hj : ¬ j = i := of_decide_eq_false ht
    simp [segments, hj]
  | boundAbove j | indexBefore j | indexBeforeClamped j =>
    have hj : ¬ j = i := of_decide_eq_false ht
    rw [segments]
    split <;> simp [hj]
  | receiver j | guardMinus j | guardWord j | rangeStart j =>
    have hj : ¬ j = i := of_decide_eq_false ht
    rw [segments]
    split_ifs <;> simp [Segment.count_bracketed, hj]

/-- a piece that is for a text has it once, unless that is a plain numeral -/
theorem count_segments_of_takes {texts : List String} {i : Nat} (h : numericLiteral? (textAt texts i) = none)
    {piece : Piece} (ht : piece.takes i) (hp : piece.isProcedureBody = false) :
    (piece.segments texts).count (.left i) = 1 := by
  have hnatural : ∀ limit, naturalBelow? limit (textAt texts i) = none := fun limit =>
    naturalBelow?_eq_none fun n hn => absurd (hn.1.numericLiteral?.symm.trans h) (Option.some_ne_none _)
  cases piece with
  | text code => cases ht
  | procedureBody => cases hp
  | hole j | boundAbove j | indexBefore j | indexBeforeClamped j | rangeStart j =>
    obtain rfl : j = i := of_decide_eq_true ht
    simp [segments, hnatural, h]
  | receiver j | guardMinus j | guardWord j =>
    obtain rfl : j = i := of_decide_eq_true ht
    rw [segments]
    split_ifs <;> simp [Segment.count_bracketed]

/-- **Pieces in a row have a text once for each piece that is for it**, unless it is a plain numeral. -/
theorem count_flatMap {texts : List String} {i : Nat} (h : numericLiteral? (textAt texts i) = none)
    {pieces : List Piece} (hp : ∀ piece ∈ pieces, piece.isProcedureBody = false) :
    (pieces.flatMap (segments texts)).count (.left i) = pieces.countP (takes i) := by
  induction pieces with
  | nil => rfl
  | cons piece rest ih =>
    obtain ⟨hpiece, hrest⟩ := List.forall_mem_cons.1 hp
    rw [List.flatMap_cons, List.count_append, List.countP_cons, ih hrest, Nat.add_comm]
    by_cases ht : piece.takes i
    · rw [count_segments_of_takes h ht hpiece, if_pos ht]
    · rw [count_segments_of_not_takes texts (Bool.not_eq_true _ ▸ ht) hpiece, if_neg ht]

end Piece

theorem Layout.count_segments {texts : List String} {i : Nat} (h : numericLiteral? (Piece.textAt texts i) = none)
    {layout : Layout} (hp : ∀ piece ∈ layout.pieces, piece.isProcedureBody = false) (bare : Bool) :
    (layout.segments texts bare).count (.left i) = layout.pieces.countP (Piece.takes i) := by
  rw [← Piece.count_flatMap h hp, segments]
  split_ifs
  · exact Segment.count_bracketed i _
  · rfl

/-! ## What the templates of expressions take -/

namespace Shape

/-- the layout that a shape has for texts that are no plain numerals -/
def general : Shape → Layout
  | always layout => layout
  | ordered _ _ _ _ unknown => unknown

/-- whether a shape has its general layout where one text is no plain numeral -/
def isSettledBy (i : Nat) : Shape → Bool
  | always _ => true
  | ordered first second _ _ _ => first = i || second = i

theorem layout_eq_general {shape : Shape} {texts : List String} {i : Nat} (hs : shape.isSettledBy i)
    (h : numericLiteral? (Piece.textAt texts i) = none) : shape.layout texts = shape.general := by
  cases shape with
  | always layout => rfl
  | ordered first second rising falling unknown =>
    rw [isSettledBy, Bool.or_eq_true, decide_eq_true_eq, decide_eq_true_eq] at hs
    rw [layout, general]
    rcases hs with rfl | rfl
    · rw [h]
    · rw [h]
      cases numericLiteral? (Piece.textAt texts first) <;> rfl

end Shape

def Step.isValue : Step → Bool
  | value _ _ _ => true
  | _ => false

/-- the steps that leave texts; the place of each is that of its text -/
def Template.leaving (template : Template) : List Step :=
  template.steps.filter Step.leavesText

/-- whether a template takes each of its operands so many times, where that is no plain numeral -/
def Template.takesEach (template : Template) (times : Nat) : Bool :=
  template.shape.general.pieces.all (!·.isProcedureBody) &&
    template.leaving.zipIdx.all fun step => !step.1.isValue ||
      template.shape.isSettledBy step.2 && template.shape.general.pieces.countP (Piece.takes step.2) = times

/-- **A template that takes each operand so many times** has its text as often among its segments. -/
theorem Template.count_segments {template : Template} {times : Nat} (ht : template.takesEach times)
    {texts : List String} {i slot : Nat} {place : Bool} {absent : String}
    (hi : template.leaving[i]? = some (.value slot place absent))
    (h : numericLiteral? (Piece.textAt texts i) = none) (bare : Bool) :
    (template.segments texts bare).count (.left i) = times := by
  rw [takesEach, Bool.and_eq_true, List.all_eq_true, List.all_eq_true] at ht
  obtain ⟨hpieces, hsteps⟩ := ht
  have hstep := hsteps (.value slot place absent, i) (List.mem_zipIdx_iff_getElem?.2 hi)
  rw [Step.isValue, Bool.not_true, Bool.false_or, Bool.and_eq_true, decide_eq_true_eq] at hstep
  obtain ⟨hsettled, hcount⟩ := hstep
  rw [segments, Shape.layout_eq_general hsettled h,
    Layout.count_segments h (fun piece hm => Bool.not_eq_true' _ ▸ hpieces piece hm), hcount]

namespace Template

/-- places with a separator between neighbours take what they take without it -/
theorem countP_separated {i : Nat} {separator : List Piece} (hs : separator.countP (Piece.takes i) = 0)
    (places : List (List Piece)) :
    (separated separator places).countP (Piece.takes i) = places.flatten.countP (Piece.takes i) := by
  induction places with
  | nil => rfl
  | cons place rest ih =>
    cases rest with
    | nil => simp [separated]
    | cons next rest =>
      change (place ++ separator ++ separated separator (next :: rest)).countP _ = _
      rw [List.countP_append, List.countP_append, hs, ih, Nat.add_zero, ← List.countP_append]
      rfl

theorem countP_places {place : Nat → List Piece} (h : ∀ i j, (place j).countP (Piece.takes i) = if j = i then 1 else 0)
    (i items : Nat) :
    ((List.range items).map place).flatten.countP (Piece.takes i) = if i < items then 1 else 0 := by
  induction items with
  | zero => rfl
  | succ items ih =>
    rw [List.range_succ, List.map_append, List.flatten_append, List.countP_append, ih, List.map_singleton,
      List.flatten_singleton, h]
    split_ifs <;> omega

/-- a list of joined texts, whatever stands around each of them -/
theorem list_takesEach (items : Nat) {before after : List Piece} {place : Nat → List Piece}
    (hb : ∀ i, before.countP (Piece.takes i) = 0) (ha : ∀ i, after.countP (Piece.takes i) = 0)
    (h : ∀ i j, (place j).countP (Piece.takes i) = if j = i then 1 else 0)
    (hbody : before.all (!·.isProcedureBody) && after.all (!·.isProcedureBody))
    (hp : ∀ i, (place i).all (!·.isProcedureBody)) :
    (tight ((List.range items).map fun slot => string slot true)
      (.flatten [before, separated [", "] ((List.range items).map place), after])).takesEach 1 := by
  obtain ⟨hbefore, hafter⟩ := Bool.and_eq_true _ _ ▸ hbody
  have hplaces : (separated [", "] ((List.range items).map place)).all (!·.isProcedureBody) :=
    (Piece.composes_all _).separated rfl fun i _ => hp i
  have hleaving : (tight ((List.range items).map fun slot => string slot true)
      (.flatten [before, separated [", "] ((List.range items).map place), after])).leaving =
      (List.range items).map fun slot => string slot true :=
    List.filter_eq_self.2 (strings_forall (fun _ => rfl) items)
  have hcount : ∀ i < items,
      (List.flatten [before, separated [", "] ((List.range items).map place), after]).countP (Piece.takes i) = 1 := by
    intro i hi
    have hseparated : (separated [", "] ((List.range items).map place)).countP (Piece.takes i) =
        if i < items then 1 else 0 := (countP_separated rfl _).trans (countP_places h i items)
    simp only [List.flatten_cons, List.flatten_nil, List.append_nil, List.countP_append, hb, ha, hseparated, if_pos hi]
  rw [takesEach, hleaving, Bool.and_eq_true]
  refine ⟨?_, List.all_eq_true.2 fun step hm => ?_⟩
  · simp only [tight, Shape.general, Layout.tight, List.flatten_cons, List.flatten_nil, List.append_nil,
      List.all_append, hbefore, hplaces, hafter, Bool.and_self]
  · have hi : step.2 < items := by
      have hlt := List.snd_lt_of_mem_zipIdx hm
      rwa [List.length_map, List.length_range, Nat.add_zero] at hlt
    rw [Bool.or_eq_true]
    exact .inr (decide_eq_true (hcount step.2 hi))

end Template

/-- the templates of expressions take each operand once, that of a random whole number four times -/
theorem Language.template_takesEach (language : Language) {form : Form} (hf : form.isStatement = false) :
    (language.template form).takesEach (if form = .randomInteger then 4 else 1) := by
  cases form using Form.byData with
  | plain form hm =>
    have hplain : ∀ form ∈ Form.plain, form.isStatement = false →
        (language.template form).takesEach (if form = .randomInteger then 4 else 1) := by
      cases language <;> decide +kernel
    exact hplain form hm hf
  | list items =>
    have hhole : ∀ i j, List.countP (Piece.takes i) [.hole j] = if j = i then 1 else 0 := fun i j => by
      simp [Piece.takes, List.countP_cons]
    have hcalled : ∀ i j, List.countP (Piece.takes i) ["str(", .hole j, ")"] = if j = i then 1 else 0 :=
      fun i j => by simp [Piece.takes, List.countP_cons]
    cases language with
    | javascript => exact Template.list_takesEach (items + 3) (fun _ => rfl) (fun _ => rfl) hhole rfl fun _ => rfl
    | dart => exact Template.list_takesEach (items + 3) (fun _ => rfl) (fun _ => rfl) hhole rfl fun _ => rfl
    | python => exact Template.list_takesEach (items + 3) (fun _ => rfl) (fun _ => rfl) hcalled rfl fun _ => rfl
  | onList op => cases language <;> cases op <;> rfl
  | changeCase style => cases language <;> cases style <;> rfl
  | _ => first | (cases hf; done) | (cases language <;> rfl)

/-! ## Runs -/

/-- a text that a step leaves is what its slot gives in some state, where the step takes an operand -/
def Step.Gives (site : Site) (step : Step) (text : String) : Prop :=
  ∀ slot place absent, step = .value slot place absent →
    ∃ before after : Pass, before.perform (site.value slot place absent) = (.ok text, after)

/-- **One step** leaves what its slot gives, behind the texts that are there. -/
theorem Step.gives_run (site : Site) (step : Step) (texts : List String) :
    (step.run site texts).Yields (fun _ => True) (Appends (Gives site) [step] texts) := by
  have hother : ∀ {text : String}, (∀ slot place absent, step ≠ .value slot place absent) → step.Gives site text :=
    fun hstep slot place absent h => absurd h (hstep slot place absent)
  cases step with
  | value slot place absent =>
    have hgiven : (site.value slot place absent).Yields (fun _ => True) fun text =>
        ∃ before after : Pass, before.perform (site.value slot place absent) = (.ok text, after) :=
      fun pass _ => ⟨trivial, fun text h => ⟨pass, _, Prod.ext h rfl⟩⟩
    refine yields_text rfl (hgiven.imp fun text htext => ?_)
    rintro _ _ _ ⟨⟩
    exact htext
  | require library => exact yields_none rfl (Gen.yields_any _)
  | hoist key name source => exact yields_none rfl (Gen.yields_any _)
  | _ => exact yields_text rfl ((Gen.yields_any _).imp fun _ _ => hother nofun)

/-- **Steps in a row** leave one after the other what their slots give. -/
theorem Step.gives_runAll (site : Site) (steps : List Step) (texts : List String) :
    (Step.runAll site texts steps).Yields (fun _ => True) (Appends (Gives site) steps texts) :=
  yields_runAll_of (fun step _ texts => step.gives_run site texts) texts

/-- **Operands are spliced once**, but for those of a random whole number. Where an expression is generated from any
state: its code is made up of text of its template and the texts that the steps left, which for an operand is what its
slot gives; and the text of each operand that is no plain numeral is among them once, or four times in a random whole
number. -/
theorem operands_are_spliced_once {language : Language} {pass after : Pass} {block : Block} {form : Form}
    (hform : block.head.form = .ok form) (hvalue : form.isStatement = false) {bare : Bool} {code : String}
    (hrun : pass.perform (block.code (.standard language) bare) = (.ok code, after)) :
    ∃ texts, pass.perform (Step.runAll (block.site (.standard language)) [] (language.template form).steps) =
        (.ok texts, after) ∧
      List.Forall₂ (Step.Gives (block.site (.standard language))) (language.template form).leaving texts ∧
      code = Segment.joined texts ((language.template form).segments texts bare) ∧
      ∀ i slot place absent, (language.template form).leaving[i]? = some (.value slot place absent) →
        numericLiteral? (Piece.textAt texts i) = none →
          ((language.template form).segments texts bare).count (.left i) = if form = .randomInteger then 4 else 1 := by
  obtain ⟨texts, hsteps, hcode⟩ := Block.perform_code_ok hform hrun
  obtain ⟨left, htexts, hgives⟩ := (Step.gives_runAll _ _ [] pass trivial).2 texts (by rw [hsteps])
  obtain rfl : texts = left := htexts
  refine ⟨texts, hsteps, hgives, hcode.trans ((language.template form).joined_segments texts bare).symm, ?_⟩
  intro i slot place absent hi h
  exact Template.count_segments (language.template_takesEach hvalue) hi h bare

def roll : Block :=
  .mk (Head.bare Kind.randomInteger.name) [(0, .number "1"), (1, .number "6")] [] none

def rollCode : String :=
  "Math.floor(Math.random() * (6 - 1 + 1) + 1)"

def rolledLetters : Block :=
  .mk { Head.bare Kind.endString.name with labels := [(0, "LAST")] } [(0, roll), (1, .text "abcdef")] [] none

theorem rolledLetters_splice_once :
    rolledLetters.head.form = .ok (.endString .last) ∧ (Form.endString .last).isStatement = false ∧
      ∃ after, (Pass.start .javascript).perform (rolledLetters.code (.standard .javascript) true) =
          (.ok ("[temp_text = 'abcdef', temp_text.substring(temp_text.length - " ++ rollCode ++ ")][1]"), after) ∧
        ∀ i < 2, ((Language.javascript.template (.endString .last)).segments [rollCode, "'abcdef'", "temp_text"]
          true).count (.left i) = 1 := by
  have hform : rolledLetters.head.form = .ok (.endString .last) := rfl
  have hrun : (Pass.start .javascript).perform (rolledLetters.code (.standard .javascript) true) =
      (.ok ("[temp_text = 'abcdef', temp_text.substring(temp_text.length - " ++ rollCode ++ ")][1]"),
        ((Pass.start .javascript).perform (rolledLetters.code (.standard .javascript) true)).2) :=
    Prod.ext (by decide +kernel) rfl
  have htexts : ((Pass.start .javascript).perform (Step.runAll (rolledLetters.site (.standard .javascript)) []
      (Language.javascript.template (.endString .last)).steps)).1 = .ok [rollCode, "'abcdef'", "temp_text"] := by
    decide +kernel
  obtain ⟨texts, hsteps, -, -, honce⟩ := operands_are_spliced_once hform rfl hrun
  obtain rfl := Except.ok.inj ((congrArg Prod.fst hsteps).symm.trans htexts)
  refine ⟨hform, rfl, _, hrun, fun i hi => ?_⟩
  interval_cases i
  · exact honce 0 0 false "0" rfl (by decide +kernel)
  · exact honce 1 1 true "''" rfl (by decide +kernel)

/-- a random whole number from one to what a die shows -/
def nestedRoll : Block :=
  .mk (Head.bare Kind.randomInteger.name) [(0, .number "1"), (1, roll)] [] none

/-- a roll as a bound stands four times in the code: it is compared, and used in either formula -/
theorem nestedRoll_is_repeated :
    nestedRoll.head.form = .ok .randomInteger ∧ Form.randomInteger.isStatement = false ∧
      (Pass.start .javascript).perform (nestedRoll.code (.standard .javascript) true) = (.ok ("1 < " ++ rollCode ++
        " ? Math.floor(Math.random() * (" ++ rollCode ++ " - 1 + 1) + 1)" ++
        " : Math.floor(Math.random() * (1 - " ++ rollCode ++ " + 1) + " ++ rollCode ++ ")"), .start .javascript) ∧
      ((Pass.start .javascript).perform (Step.runAll (nestedRoll.site (.standard .javascript)) []
        (Language.javascript.template .randomInteger).steps)).1 = .ok ["1", rollCode] ∧
      (Language.javascript.template .randomInteger).leaving[1]? = some (.value 1 false "0") ∧
      numericLiteral? rollCode = none ∧
      ((Language.javascript.template .randomInteger).segments ["1", rollCode] true).count (.left 1) = 4 :=
  ⟨rfl, rfl, by decide +kernel, by decide +kernel, rfl, by decide +kernel, by decide +kernel⟩

end Blockwork
