/-
Templates that keep string literals whole.

- `Template.isSafe`: a check on a template as data. Its fixed texts close their literals, and whatever it
  hoists is hoisted under an issued name.
- `Language.template_isSafe`: the templates of every target pass it, texts themselves apart.
- `TextsAlike.template_render`: a template that passes gives alike code for alike texts.
-/
import Blockwork.Proofs.Constructs
import Blockwork.Proofs.Literals
import Blockwork.Proofs.Numerals
import Mathlib.Data.List.GetD

namespace Blockwork

/-! ## Templates whose literals are closed -/

/-- whether the fixed texts of a piece close their literals -/
def Piece.isSafe : Piece → Bool
  | text code => Text.isClosed false code.toList
  | procedureBody _ _ stop noop => Text.isClosed false stop.toList && Text.isClosed false noop.toList
  | _ => true

def Helper.isSafe (helper : Helper) : Bool :=
  Text.isClosed false helper.before.toList && Text.isClosed false helper.after.toList &&
    helper.body.all fun line => Text.isClosed false line.toList

/-- the texts that a step leaves, each with whether it is an issued name -/
def Step.leaves : Step → List Bool
  | value _ _ _ => [false]
  | branch _ => [false]
  | body _ => [false]
  | userVariable _ => [true]
  | userProcedure _ => [true]
  | fresh _ => [true]
  | temporary _ => [true]
  | helper _ => [true]
  | require _ => []
  | hoist _ _ _ => []

/-- whether the fixed texts of a step close their literals, and the name it hoists under is an issued one;
`issued` says which of the earlier texts are -/
def Step.isSafe (issued : List Bool) : Step → Bool
  | value _ _ absent => Text.isClosed false absent.toList
  | helper h => h.isSafe
  | require library => Text.isClosed false library.source.toList
  | hoist _ name source => issued.getD name false && source.all Piece.isSafe
  | _ => true

def Step.areSafe (issued : List Bool) : List Step → Bool
  | [] => true
  | step :: rest => step.isSafe issued && areSafe (issued ++ step.leaves) rest

def Shape.isSafe : Shape → Bool
  | always layout => layout.pieces.all Piece.isSafe
  | ordered _ _ rising falling unknown =>
    rising.pieces.all Piece.isSafe && falling.pieces.all Piece.isSafe && unknown.pieces.all Piece.isSafe

def Template.isSafe (template : Template) : Bool :=
  Step.areSafe [] template.steps && template.shape.isSafe

-- a literal is checked as the list of its characters: decoding it first is what takes time
theorem Text.isClosed_ofList {cs : List Char} (h : Text.isClosed false cs) :
    Text.isClosed false (String.ofList cs).toList := by
  rw [String.toList_ofList]
  exact h

theorem Helper.isSafe_of_lines {helper : Helper} (hb : Text.isClosed false helper.before.toList)
    (ha : Text.isClosed false helper.after.toList) (hl : ∀ line ∈ helper.body, Text.isClosed false line.toList) :
    helper.isSafe := by
  simp only [isSafe, hb, ha, List.all_eq_true.2 hl, Bool.and_self]

theorem Helper.lines_cons {cs : List Char} {lines : List String} (h : Text.isClosed false cs)
    (hl : ∀ line ∈ lines, Text.isClosed false line.toList) :
    ∀ line ∈ String.ofList cs :: lines, Text.isClosed false line.toList :=
  List.forall_mem_cons.2 ⟨Text.isClosed_ofList h, hl⟩

theorem Target.JavaScript.helpers_isSafe : mean.isSafe ∧ median.isSafe ∧ modes.isSafe ∧ deviation.isSafe ∧
    randomItem.isSafe ∧ titleCase.isSafe := by
  refine ⟨?_, ?_, ?_, ?_, ?_, ?_⟩ <;>
  · refine Helper.isSafe_of_lines (Text.isClosed_ofList rfl) (Text.isClosed_ofList rfl) ?_
    repeat refine Helper.lines_cons rfl ?_
    exact List.forall_mem_nil _

theorem Target.Dart.helpers_isSafe : mean.isSafe ∧ median.isSafe ∧ modes.isSafe ∧ deviation.isSafe ∧
    randomItem.isSafe ∧ titleCase.isSafe := by
  refine ⟨?_, ?_, ?_, ?_, ?_, ?_⟩ <;>
  · refine Helper.isSafe_of_lines (Text.isClosed_ofList rfl) (Text.isClosed_ofList rfl) ?_
    repeat refine Helper.lines_cons rfl ?_
    exact List.forall_mem_nil _

theorem Target.Python.helpers_isSafe : mean.isSafe ∧ median.isSafe ∧ modes.isSafe ∧ deviation.isSafe ∧
    titleCase.isSafe := by
  refine ⟨?_, ?_, ?_, ?_, ?_⟩ <;>
  · refine Helper.isSafe_of_lines (Text.isClosed_ofList rfl) (Text.isClosed_ofList rfl) ?_
    repeat refine Helper.lines_cons rfl ?_
    exact List.forall_mem_nil _

theorem Step.areSafe_of_forall {steps : List Step} (h : ∀ step ∈ steps, ∀ issued, step.isSafe issued)
    (issued : List Bool) : Step.areSafe issued steps := by
  induction steps generalizing issued with
  | nil => rfl
  | cons step rest ih =>
    obtain ⟨h1, h2⟩ := List.forall_mem_cons.1 h
    simp only [areSafe, h1 issued, ih h2, Bool.and_self]

theorem Text.isClosed_of_not_mem {cs : List Char} (h : '\'' ∉ cs) : Text.isClosed false cs := by
  induction cs with
  | nil => rfl
  | cons c cs ih =>
    simp only [List.mem_cons, not_or] at h
    simp only [Text.isClosed, beq_false_of_ne (Ne.symm h.1), ih h.2]

theorem Language.numberLiteral_isClosed (language : Language) (x : Binary64) :
    Text.isClosed false (language.numberLiteral x).toList := by
  cases x with
  | nan => cases language <;> rfl
  | infinite negative => cases language <;> cases negative <;> rfl
  | finite negative m p =>
    by_cases hm : m = 0
    · subst hm
      rw [language.numberLiteral_zero]
      rfl
    · have hsign : '\'' ∉ (if negative then ['-'] else []) := by cases negative <;> decide
      have hdigits := (language.isNumeral_magnitude m p).quote_not_mem
      rw [language.numberLiteral_finite negative hm p]
      exact Text.isClosed_of_not_mem fun h => (List.mem_append.1 h).elim hsign hdigits

/-- a choice, whatever stands around its conditions and branches -/
theorem Template.choice_isSafe {falsity : String} (hf : Text.isClosed false falsity.toList) (elseifs : Nat)
    (otherwise : Bool) {condition : Nat → List Piece} {rest : List (List Piece)}
    (hc : ∀ n, (condition n).all Piece.isSafe) (hr : rest.flatten.all Piece.isSafe) :
    (tight (choiceSteps falsity elseifs otherwise)
      (.flatten ((List.range (elseifs + 1)).flatMap condition :: rest))).isSafe := by
  have hsteps : Step.areSafe [] (choiceSteps falsity elseifs otherwise) :=
    Step.areSafe_of_forall (choiceSteps_forall (fun _ _ => hf) (fun _ _ => rfl) elseifs otherwise) []
  have hconditions := (Piece.composes_all Piece.isSafe).flatMap fun n (_ : n ∈ List.range (elseifs + 1)) => hc n
  simp only [isSafe, tight, hsteps, Shape.isSafe, Layout.tight, List.flatten_cons, List.all_append, hconditions, hr,
    Bool.and_self]

/-- a list of joined texts, whatever stands around each of them -/
theorem Template.list_isSafe (items : Nat) {before after : List Piece} {place : Nat → List Piece}
    (hb : before.all Piece.isSafe) (ha : after.all Piece.isSafe) (hp : ∀ i, (place i).all Piece.isSafe) :
    (tight ((List.range items).map fun slot => string slot true)
      (.flatten [before, separated [", "] ((List.range items).map place), after])).isSafe := by
  have hsteps : Step.areSafe [] ((List.range items).map fun slot => string slot true) :=
    Step.areSafe_of_forall (strings_forall (fun _ _ => rfl) items) []
  have hplaces : (separated [", "] ((List.range items).map place)).all Piece.isSafe :=
    (Piece.composes_all Piece.isSafe).separated rfl fun i _ => hp i
  simp only [isSafe, tight, hsteps, Shape.isSafe, Layout.tight, List.flatten_cons, List.flatten_nil, List.append_nil,
    List.all_append, hb, hplaces, ha, Bool.and_self]

/-- the template of every construct other than a text is safe -/
theorem Language.template_isSafe (language : Language) (form : Form) (h : ∀ content, form ≠ .text content) :
    (language.template form).isSafe := by
  cases form using Form.byData with
  | plain form hm =>
    have hplain : ∀ form ∈ Form.plain, (language.template form).isSafe := by cases language <;> decide +kernel
    exact hplain form hm
  | number literal =>
    have hclosed := language.numberLiteral_isClosed (Binary64.parsePrefix literal)
    cases language <;>
      simpa [template, Target.JavaScript.template, Target.Dart.template, Target.Python.template, Template.isSafe,
        Template.tight, Step.areSafe, Shape.isSafe, Layout.tight, Piece.isSafe] using hclosed
  | text content => exact absurd rfl (h content)
  | list items => cases language <;> exact Template.list_isSafe (items + 3) rfl rfl fun _ => rfl
  | choice elseifs otherwise =>
    have hbrace : ∀ n, (Target.Brace.conditionPieces n).all Piece.isSafe := fun n => by cases n <;> rfl
    have hpython : ∀ n, (Target.Python.conditionPieces n).all Piece.isSafe := fun n => by cases n <;> rfl
    cases language with
    | javascript => exact Template.choice_isSafe rfl elseifs otherwise hbrace (by cases otherwise <;> rfl)
    | dart => exact Template.choice_isSafe rfl elseifs otherwise hbrace (by cases otherwise <;> rfl)
    | python => exact Template.choice_isSafe rfl elseifs otherwise hpython (by cases otherwise <;> rfl)
  | onList op =>
    obtain ⟨j1, j2, j3, j4, j5, -⟩ := Target.JavaScript.helpers_isSafe
    obtain ⟨d1, d2, d3, d4, d5, -⟩ := Target.Dart.helpers_isSafe
    obtain ⟨p1, p2, p3, p4, -⟩ := Target.Python.helpers_isSafe
    cases language <;> cases op <;>
      simp only [template, Target.JavaScript.template, Target.JavaScript.onList, Target.JavaScript.onListBy,
        Target.Dart.template, Target.Dart.onList, Target.Python.template, Target.Python.onList, Template.isSafe,
        Template.tight, Template.list, Step.areSafe, Step.isSafe, j1, j2, j3, j4, j5, d1, d2, d3, d4, d5, p1, p2, p3,
        p4, Bool.true_and] <;> rfl
  | changeCase style =>
    obtain ⟨-, -, -, -, -, jt⟩ := Target.JavaScript.helpers_isSafe
    obtain ⟨-, -, -, -, -, dt⟩ := Target.Dart.helpers_isSafe
    obtain ⟨-, -, -, -, pt⟩ := Target.Python.helpers_isSafe
    cases language <;> cases style <;>
      simp only [template, Target.JavaScript.template, Target.JavaScript.changeCase, Target.Dart.template,
        Target.Dart.changeCase, Target.Python.template, Target.Python.changeCase, Template.isSafe, Template.tight,
        Template.string, Step.areSafe, Step.isSafe, jt, dt, pt, Bool.true_and] <;> rfl
  | _ => cases language <;> rfl

/-! ## Rendering alike texts -/

/-- what holds of all three layouts holds of the one that applies -/
theorem Shape.layout_ordered {P : Layout → Prop} {first second : Nat} {rising falling unknown : Layout}
    (hr : P rising) (hf : P falling) (hu : P unknown) (texts : List String) :
    P ((ordered first second rising falling unknown).layout texts) := by
  simp only [layout]
  split
  · split_ifs
    · exact hr
    · exact hf
  · exact hu

/-- whether every layout of a shape passes a check -/
def Shape.every (check : Layout → Bool) : Shape → Bool
  | always layout => check layout
  | ordered _ _ rising falling unknown => check rising && check falling && check unknown

theorem Shape.check_layout {check : Layout → Bool} {shape : Shape} (h : shape.every check) (texts : List String) :
    check (shape.layout texts) := by
  cases shape with
  | always layout => exact h
  | ordered first second rising falling unknown =>
    simp only [every, Bool.and_eq_true] at h
    exact layout_ordered (P := fun layout => check layout) h.1.1 h.1.2 h.2 texts

theorem Shape.layout_isSafe {shape : Shape} (h : shape.isSafe) (texts : List String) :
    (shape.layout texts).pieces.all Piece.isSafe := by
  cases shape with
  | always layout => exact h
  | ordered first second rising falling unknown =>
    simp only [Shape.isSafe, Bool.and_eq_true] at h
    exact layout_ordered (P := fun layout => layout.pieces.all Piece.isSafe) h.1.1 h.1.2 h.2 texts

/-- texts left by two runs of the same steps: alike one by one, and without a quote where a name was issued -/
structure TextsAlike (issued : List Bool) (texts texts' : List String) : Prop where
  length : texts.length = issued.length
  length' : texts'.length = issued.length
  alike : ∀ i, AlikeCode (Piece.textAt texts i) (Piece.textAt texts' i)
  name : ∀ i, issued.getD i false → '\'' ∉ (Piece.textAt texts i).toList

namespace TextsAlike

variable {issued : List Bool} {texts texts' : List String}

theorem nil : TextsAlike [] [] [] :=
  ⟨rfl, rfl, fun _ => .empty, fun _ h => absurd h Bool.false_ne_true⟩

theorem snoc (h : TextsAlike issued texts texts') {text text' : String} {isName : Bool} (ha : AlikeCode text text')
    (hn : isName → '\'' ∉ text.toList) : TextsAlike (issued ++ [isName]) (texts ++ [text]) (texts' ++ [text']) := by
  have hget : ∀ {α : Type} (as : List α) (a d : α) (i : Nat), as.length = issued.length →
      (as ++ [a]).getD i d = if i < issued.length then as.getD i d else if i = issued.length then a else d := by
    intro α as a d i hl
    split_ifs with h1 h2
    · rw [List.getD_append _ _ _ _ (hl ▸ h1)]
    · subst h2
      rw [← hl]
      simp [List.getD]
    · rw [List.getD_eq_default]
      rw [List.length_append, hl, List.length_singleton]
      omega
  refine ⟨by simp [h.length], by simp [h.length'], fun i => ?_, fun i => ?_⟩
  · unfold Piece.textAt
    rw [hget texts text "" i h.length, hget texts' text' "" i h.length']
    split_ifs
    · exact h.alike i
    · exact ha
    · exact .empty
  · unfold Piece.textAt
    rw [hget issued isName false i rfl, hget texts text "" i h.length]
    split_ifs
    · exact h.name i
    · exact hn
    · exact fun hf => absurd hf (by simp)

theorem name_eq (h : TextsAlike issued texts texts') {i : Nat} (hi : issued.getD i false) :
    Piece.textAt texts i = Piece.textAt texts' i := by
  rcases Text.Alike.eq_or_mem (h.alike i) with he | ⟨hm, -⟩
  · exact String.toList_inj.1 he
  · exact absurd hm (h.name i hi)

theorem render (h : TextsAlike issued texts texts') (piece : Piece) (hp : piece.isSafe) :
    AlikeCode (piece.render texts) (piece.render texts') := by
  cases piece with
  | text code => exact .of_isClosed hp
  | hole i => exact h.alike i
  | receiver i => exact (h.alike i).receiver
  | guardMinus i => exact (h.alike i).guardMinus
  | guardWord i => exact (h.alike i).guardWord
  | boundAbove i => exact (h.alike i).boundAbove
  | indexBefore i => exact (h.alike i).indexBefore
  | indexBeforeClamped i => exact (h.alike i).indexBeforeClamped
  | rangeStart i => exact (h.alike i).rangeStart
  | procedureBody statements result stop noop =>
    simp only [Piece.isSafe, Bool.and_eq_true] at hp
    exact (h.alike statements).procedureBody (h.alike result) hp.1 hp.2

theorem renderAll (h : TextsAlike issued texts texts') (pieces : List Piece) (hp : pieces.all Piece.isSafe) :
    AlikeCode (Piece.renderAll texts pieces) (Piece.renderAll texts' pieces) := by
  induction pieces with
  | nil => exact .empty
  | cons piece rest ih =>
    simp only [List.all_cons, Bool.and_eq_true] at hp
    exact (h.render piece hp.1).append (ih hp.2)

/-- both runs choose the same layout, since whether a text is a numeral shows outside literals -/
theorem layout_eq (h : TextsAlike issued texts texts') (shape : Shape) : shape.layout texts = shape.layout texts' := by
  cases shape with
  | always layout => rfl
  | ordered first second rising falling unknown =>
    simp only [Shape.layout, (h.alike first).numericLiteral?_eq, (h.alike second).numericLiteral?_eq]

theorem template_render (h : TextsAlike issued texts texts') {template : Template} (ht : template.shape.isSafe)
    (bare : Bool) : AlikeCode (template.render texts bare) (template.render texts' bare) := by
  have hcode := h.renderAll _ (Shape.layout_isSafe ht texts')
  unfold Template.render Layout.render
  rw [h.layout_eq]
  simp only
  split_ifs
  · exact hcode.parenthesize bare
  · exact hcode

end TextsAlike

end Blockwork
