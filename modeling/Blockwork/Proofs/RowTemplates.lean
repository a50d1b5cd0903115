/-
Templates that leave no empty line.

- `Texture`: what kind of text a step leaves: a word, a word or nothing, or rows.
- `Piece.flow`, `Template.isRowed`: a check on a template as data. Its pieces are read like the text they make, each
  place by the texture of what goes there; expressions make words, statements make rows.
- `Language.template_isRowed`: the templates of every target pass it.
- `Template.isWord_render`, `Template.isRows_render`: a template that passes makes what it should from texts of the
  right texture.
-/
import Blockwork.Proofs.Balance
import Blockwork.Proofs.Rows

namespace Blockwork

/-! ## Textures -/

/-- the kind of text that a step leaves -/
inductive Texture
  | word
  /-- a word or nothing -/
  | gap
  | rows
  deriving DecidableEq

/-- a text of the kind -/
def Texture.Fits : Texture → String → Prop
  | word, text => IsWord text
  | gap, text => text = "" ∨ IsWord text
  | rows, text => IsRows text

def Step.textures : Step → List Texture
  | value _ _ absent => [if absent = "" then .gap else .word]
  | branch _ => [.rows]
  | body _ => [.rows]
  | require _ => []
  | hoist _ _ _ => []
  | _ => [.word]

/-! ## Templates as data -/

/-- the texture of a place; a place that no step fills is empty -/
def Piece.texture (textures : List Texture) (i : Nat) : Texture :=
  textures.getD i .gap

/-- whether a line has begun behind a piece; the piece has to be one that leaves no empty line there -/
def Piece.flow (textures : List Texture) (ends begun : Bool) : Piece → Option Bool
  | text code => Text.flow ends begun code.toList
  | hole i =>
    match texture textures i with
    | .word => some true
    | .gap => none
    | .rows => if ends && !begun then some false else none
  | rangeStart i => if texture textures i = .word ∧ begun then some true else none
  | procedureBody statements result stop noop =>
    if ends && !begun && texture textures statements = .rows && texture textures result = .gap &&
        Text.flow true true stop.toList = some false && IsWord noop then some false
    else none
  | receiver i => if texture textures i = .word then some true else none
  | guardMinus i => if texture textures i = .word then some true else none
  | guardWord i => if texture textures i = .word then some true else none
  | boundAbove i => if texture textures i = .word then some true else none
  | indexBefore i => if texture textures i = .word then some true else none
  | indexBeforeClamped i => if texture textures i = .word then some true else none

def Piece.flowAll (textures : List Texture) (ends begun : Bool) (pieces : List Piece) : Option Bool :=
  pieces.foldlM (Piece.flow textures ends) begun

def Helper.isRowed (helper : Helper) : Bool :=
  IsInline helper.before && IsInline helper.after && helper.body.all fun line => IsWord line

/-- the check on a step, `textures` being those of the texts before it -/
def Step.isRowed (textures : List Texture) : Step → Bool
  | value _ _ absent => absent = "" || IsWord absent
  | helper h => h.isRowed
  | require library => IsWord library.source
  | hoist _ name source => Piece.texture textures name = .word && Piece.flowAll textures true false source = some true
  | _ => true

def Step.areRowed (textures : List Texture) : List Step → Bool
  | [] => true
  | step :: rest => step.isRowed textures && areRowed (textures ++ step.textures) rest

def Layout.isRowed (textures : List Texture) (statement : Bool) (layout : Layout) : Bool :=
  if statement then !layout.isLoose && Piece.flowAll textures true false layout.pieces = some false
  else Piece.flowAll textures false false layout.pieces = some true

def Shape.isRowed (textures : List Texture) (statement : Bool) : Shape → Bool
  | always layout => layout.isRowed textures statement
  | ordered _ _ rising falling unknown =>
    rising.isRowed textures statement && falling.isRowed textures statement && unknown.isRowed textures statement

def Template.isRowed (statement : Bool) (template : Template) : Bool :=
  Step.areRowed [] template.steps && template.shape.isRowed (template.steps.flatMap Step.textures) statement

/-! ## Helpers -/

namespace Helper

-- the lines are handed to the check as their characters, as for brackets
theorem isRowed_of_chars {before after : List Char} {lines : List (List Char)} {helper : Helper}
    (hb : helper.before = String.ofList before) (ha : helper.after = String.ofList after)
    (hl : helper.body = lines.map String.ofList)
    (h : (decide (Text.IsInline before) && decide (Text.IsInline after) && lines.all fun line => Text.IsWord line) = true) :
    helper.isRowed := by
  rw [isRowed, hb, ha, hl, List.all_map]
  simpa only [IsInline, IsWord, Function.comp_def, String.toList_ofList] using h

end Helper

theorem Target.JavaScript.helpers_isRowed : mean.isRowed ∧ median.isRowed ∧ modes.isRowed ∧ deviation.isRowed ∧
    randomItem.isRowed ∧ titleCase.isRowed := by
  refine ⟨?_, ?_, ?_, ?_, ?_, ?_⟩ <;>
  · apply Helper.isRowed_of_chars rfl rfl
    · repeat apply Helper.chars_cons
      exact (List.map_nil).symm
    · decide +kernel

theorem Target.Dart.helpers_isRowed : mean.isRowed ∧ median.isRowed ∧ modes.isRowed ∧ deviation.isRowed ∧
    randomItem.isRowed ∧ titleCase.isRowed := by
  refine ⟨?_, ?_, ?_, ?_, ?_, ?_⟩ <;>
  · apply Helper.isRowed_of_chars rfl rfl
    · repeat apply Helper.chars_cons
      exact (List.map_nil).symm
    · decide +kernel

theorem Target.Python.helpers_isRowed : mean.isRowed ∧ median.isRowed ∧ modes.isRowed ∧ deviation.isRowed ∧
    titleCase.isRowed := by
  refine ⟨?_, ?_, ?_, ?_, ?_⟩ <;>
  · apply Helper.isRowed_of_chars rfl rfl
    · repeat apply Helper.chars_cons
      exact (List.map_nil).symm
    · decide +kernel

/-! ## Templates -/

theorem Step.areRowed_of_forall {steps : List Step} (h : ∀ step ∈ steps, ∀ textures, step.isRowed textures)
    (textures : List Texture) : Step.areRowed textures steps := by
  induction steps generalizing textures with
  | nil => rfl
  | cons step rest ih =>
    obtain ⟨hstep, hrest⟩ := List.forall_mem_cons.1 h
    simp only [areRowed, hstep textures, ih hrest, Bool.and_self]

namespace Piece

variable {textures : List Texture} {ends begun after : Bool}

theorem flowAll_append (before behind : List Piece) :
    flowAll textures ends begun (before ++ behind) =
      (flowAll textures ends begun before).bind fun after => flowAll textures ends after behind :=
  List.foldlM_append

theorem flowAll_flatMap {items : List Nat} {place : Nat → List Piece} (hne : items ≠ [])
    (h : ∀ i ∈ items, ∀ begun, flowAll textures ends begun (place i) = some after) :
    flowAll textures ends begun (items.flatMap place) = some after := by
  induction items generalizing begun with
  | nil => exact absurd rfl hne
  | cons item items ih =>
    obtain ⟨hitem, hitems⟩ := List.forall_mem_cons.1 h
    rw [List.flatMap_cons, flowAll_append, hitem]
    cases items with
    | nil => rfl
    | cons next rest => exact ih (List.cons_ne_nil next rest) hitems

theorem flowAll_composes (textures : List Texture) (ends : Bool) :
    Composes fun pieces => flowAll textures ends true pieces = some true :=
  ⟨rfl, fun hb ha => by rw [flowAll_append, hb]; exact ha⟩

end Piece

namespace Template

/-- each condition of a choice leaves a word, and each branch leaves rows -/
theorem choice_textures {falsity : String} (hf : falsity ≠ "") (elseifs : Nat) (otherwise : Bool) :
    (∀ n ≤ elseifs,
      Piece.texture ((choiceSteps falsity elseifs otherwise).flatMap Step.textures) (2 * n) = .word ∧
      Piece.texture ((choiceSteps falsity elseifs otherwise).flatMap Step.textures) (2 * n + 1) = .rows) ∧
    (otherwise = true →
      Piece.texture ((choiceSteps falsity elseifs otherwise).flatMap Step.textures) (2 * (elseifs + 1)) = .rows) := by
  have htextures : (choiceSteps falsity elseifs otherwise).flatMap Step.textures =
      ((List.range (elseifs + 1)).flatMap fun _ => [.word, .rows]) ++ if otherwise then [.rows] else [] := by
    simp only [choiceSteps, List.flatMap_append, List.flatMap_assoc]
    cases otherwise <;> simp [Step.textures, hf]
  obtain ⟨hpairs, hlast⟩ := getElem?_pairs (fun _ => Texture.word) (fun _ => Texture.rows) (elseifs + 1)
    (if otherwise then [.rows] else [])
  simp only [Piece.texture, List.getD_eq_getElem?_getD, htextures, hlast]
  refine ⟨fun n hn => ?_, fun ho => ?_⟩
  · rw [(hpairs n (Nat.lt_succ_of_le hn)).1, (hpairs n (Nat.lt_succ_of_le hn)).2]
    exact ⟨rfl, rfl⟩
  · rw [ho]
    rfl

/-- a choice, whatever stands around its conditions and branches -/
theorem choice_isRowed {falsity : String} (hf : IsWord falsity) (elseifs : Nat) (otherwise after : Bool)
    {condition : Nat → List Piece} {rest : List (List Piece)}
    (hj : ∀ textures, (∀ n ≤ elseifs, Piece.texture textures (2 * n) = .word ∧
        Piece.texture textures (2 * n + 1) = .rows) →
      (otherwise → Piece.texture textures (2 * (elseifs + 1)) = .rows) →
      (∀ n ≤ elseifs, ∀ begun, Piece.flowAll textures true begun (condition n) = some after) ∧
        Piece.flowAll textures true after rest.flatten = some false) :
    (tight (choiceSteps falsity elseifs otherwise)
      (.flatten ((List.range (elseifs + 1)).flatMap condition :: rest))).isRowed true := by
  have hsteps : Step.areRowed [] (choiceSteps falsity elseifs otherwise) := by
    refine Step.areRowed_of_forall (choiceSteps_forall (fun _ _ => ?_) (fun _ _ => rfl) _ _) []
    simp only [Step.isRowed, decide_eq_true hf, Bool.or_true]
  obtain ⟨hpairs, hlast⟩ := choice_textures hf.ne_empty elseifs otherwise
  obtain ⟨hconditions, hrest⟩ := hj _ hpairs hlast
  have hpieces : Piece.flowAll ((choiceSteps falsity elseifs otherwise).flatMap Step.textures) true false
      (.flatten ((List.range (elseifs + 1)).flatMap condition :: rest)) = some false := by
    rw [List.flatten_cons, Piece.flowAll_append, Piece.flowAll_flatMap (by simp) fun n hn =>
      hconditions n (Nat.lt_succ_iff.1 (List.mem_range.1 hn))]
    exact hrest
  simp only [isRowed, tight, hsteps, Shape.isRowed, Layout.isRowed, Layout.tight, hpieces]
  rfl

theorem brace_choice_isRowed {language : Language} (hf : IsWord language.falseLiteral) (elseifs : Nat)
    (otherwise : Bool) : (Target.Brace.choice language elseifs otherwise).isRowed true := by
  refine choice_isRowed hf elseifs otherwise true fun textures hpairs hlast => ⟨fun n hn begun => ?_, ?_⟩
  · obtain ⟨hcondition, hbranch⟩ := hpairs n hn
    have hif : ∀ begun, Piece.flowAll textures true begun
        ["if (", .hole (2 * n), ") \x7b\n", .hole (2 * n + 1), "\x7d"] = some true := by
      intro begun
      simp only [Piece.flowAll, List.foldlM_cons, Piece.flow, hcondition, hbranch]
      cases begun <;> rfl
    cases n with
    | zero => exact hif begun
    | succ n => cases begun <;> exact hif true
  · cases otherwise with
    | false => rfl
    | true =>
      simp only [if_true, List.flatten_cons, List.cons_append, List.nil_append, Piece.flowAll, List.foldlM_cons,
        Piece.flow, hlast rfl]
      rfl

theorem python_choice_isRowed (elseifs : Nat) (otherwise : Bool) :
    (Target.Python.choice elseifs otherwise).isRowed true := by
  have hf : IsWord Language.python.falseLiteral := by decide
  refine choice_isRowed hf elseifs otherwise false fun textures hpairs hlast => ⟨fun n hn begun => ?_, ?_⟩
  · obtain ⟨hcondition, hbranch⟩ := hpairs n hn
    simp only [Target.Python.conditionPieces, Piece.flowAll, List.foldlM_cons, Piece.flow, hcondition, hbranch]
    cases n <;> cases begun <;> rfl
  · cases otherwise with
    | false => rfl
    | true =>
      simp only [if_true, List.flatten_cons, List.cons_append, List.nil_append, Piece.flowAll, List.foldlM_cons,
        Piece.flow, hlast rfl]
      rfl

/-- a list of joined texts, whatever stands around each of them -/
theorem list_isRowed (items : Nat) {before after : List Piece} {place : Nat → List Piece}
    (hb : ∀ textures, Piece.flowAll textures false false before = some true)
    (hp : ∀ textures i, Piece.texture textures i = .word → Piece.flowAll textures false true (place i) = some true)
    (ha : ∀ textures, Piece.flowAll textures false true after = some true) :
    (tight ((List.range items).map fun slot => string slot true)
      (.flatten [before, separated [", "] ((List.range items).map place), after])).isRowed false := by
  have hsteps : Step.areRowed [] ((List.range items).map fun slot => string slot true) :=
    Step.areRowed_of_forall (strings_forall (fun _ _ => rfl) items) []
  have htextures : ((List.range items).map fun slot => string slot true).flatMap Step.textures =
      (List.range items).map fun _ => .word := by
    rw [List.flatMap_map]
    exact (List.map_eq_flatMap ..).symm
  have hplaces : Piece.flowAll ((List.range items).map fun _ => .word) false true
      (separated [", "] ((List.range items).map place)) = some true := by
    refine (Piece.flowAll_composes _ false).separated rfl fun i hi => hp _ i ?_
    rw [Piece.texture, List.getD_eq_getElem?_getD, List.getElem?_map, List.getElem?_range (List.mem_range.1 hi)]
    rfl
  have hpieces : Piece.flowAll ((List.range items).map fun _ => .word) false false
      (.flatten [before, separated [", "] ((List.range items).map place), after]) = some true := by
    simp only [List.flatten_cons, List.flatten_nil, List.append_nil, Piece.flowAll_append, hb, hplaces, ha,
      Option.bind_some]
  simp only [isRowed, tight, hsteps, htextures, Shape.isRowed, Layout.isRowed, Layout.tight, hpieces]
  rfl

end Template

/-- **Every construct is written without empty lines**: expressions within a line, statements as whole lines. -/
theorem Language.template_isRowed (language : Language) (form : Form) :
    (language.template form).isRowed form.isStatement := by
  cases form using Form.byData with
  | plain form hm =>
    have hplain : ∀ form ∈ Form.plain, (language.template form).isRowed form.isStatement := by
      cases language <;> decide +kernel
    exact hplain form hm
  | number literal =>
    have hword := (IsWord.numberLiteral language (Binary64.parsePrefix literal)).flow false false
    cases language <;>
      simpa [template, Target.JavaScript.template, Target.Dart.template, Target.Python.template, Template.isRowed,
        Template.tight, Step.areRowed, Form.isStatement, Shape.isRowed, Layout.isRowed, Layout.tight, Piece.flowAll,
        Piece.flow] using hword
  | text content =>
    have hword := (IsWord.quote language content).flow false false
    cases language <;>
      simpa [template, Target.JavaScript.template, Target.Dart.template, Target.Python.template, Template.isRowed,
        Template.tight, Step.areRowed, Form.isStatement, Shape.isRowed, Layout.isRowed, Layout.tight, Piece.flowAll,
        Piece.flow] using hword
  | list items =>
    cases language <;>
    · refine Template.list_isRowed (items + 3) (fun _ => rfl) (fun textures i hi => ?_) fun _ => rfl
      simp only [Piece.flowAll, List.foldlM_cons, Piece.flow, hi]
      rfl
  | choice elseifs otherwise =>
    cases language with
    | javascript => exact Template.brace_choice_isRowed (by decide) elseifs otherwise
    | dart => exact Template.brace_choice_isRowed (by decide) elseifs otherwise
    | python => exact Template.python_choice_isRowed elseifs otherwise
  | onList op =>
    obtain ⟨j1, j2, j3, j4, j5, -⟩ := Target.JavaScript.helpers_isRowed
    obtain ⟨d1, d2, d3, d4, d5, -⟩ := Target.Dart.helpers_isRowed
    obtain ⟨p1, p2, p3, p4, -⟩ := Target.Python.helpers_isRowed
    cases language <;> cases op <;>
      simp only [template, Target.JavaScript.template, Target.JavaScript.onList, Target.JavaScript.onListBy,
        Target.Dart.template, Target.Dart.onList, Target.Python.template, Target.Python.onList, Template.isRowed,
        Template.tight, Template.list, Step.areRowed, Step.isRowed, j1, j2, j3, j4, j5, d1, d2, d3, d4, d5, p1, p2, p3,
        p4, Bool.true_and] <;> rfl
  | changeCase style =>
    obtain ⟨-, -, -, -, -, jt⟩ := Target.JavaScript.helpers_isRowed
    obtain ⟨-, -, -, -, -, dt⟩ := Target.Dart.helpers_isRowed
    obtain ⟨-, -, -, -, pt⟩ := Target.Python.helpers_isRowed
    cases language <;> cases style <;>
      simp only [template, Target.JavaScript.template, Target.JavaScript.changeCase, Target.Dart.template,
        Target.Dart.changeCase, Target.Python.template, Target.Python.changeCase, Template.isRowed, Template.tight,
        Template.string, Step.areRowed, Step.isRowed, jt, dt, pt, Bool.true_and] <;> rfl
  | _ => cases language <;> rfl

theorem Step.isRowed_of_mem {step : Step} {steps : List Step} (hm : step ∈ steps) {textures : List Texture}
    (h : Step.areRowed textures steps) : ∃ before, step.isRowed before := by
  induction steps generalizing textures with
  | nil => cases hm
  | cons first rest ih =>
    rw [areRowed, Bool.and_eq_true] at h
    rcases List.mem_cons.1 hm with rfl | hm
    · exact ⟨textures, h.1⟩
    · exact ih hm h.2

theorem Language.step_isRowed {language : Language} {form : Form} {step : Step}
    (hm : step ∈ (language.template form).steps) : ∃ textures, step.isRowed textures := by
  have hrowed := language.template_isRowed form
  rw [Template.isRowed, Bool.and_eq_true] at hrowed
  exact Step.isRowed_of_mem hm hrowed.1

/-! ## Rendering -/

section

variable {textures : List Texture} {texts : List String}

theorem Texture.fits_textAt (h : List.Forall₂ Texture.Fits textures texts) (i : Nat) :
    (Piece.texture textures i).Fits (Piece.textAt texts i) :=
  Piece.rel_textAt (.inl rfl) h i

/-- **Pieces are read like the text they make**, if the texts in their places are of the right texture. -/
theorem Piece.flow_render (h : List.Forall₂ Texture.Fits textures texts) {piece : Piece} {ends begun after : Bool}
    (hp : piece.flow textures ends begun = some after) :
    Text.flow ends begun (piece.render texts).toList = some after := by
  have hfits := Texture.fits_textAt h
  -- most places take a word, which is adjusted to another word
  have hadjusted : ∀ {i : Nat} {adjust : String → String}, (∀ {code}, IsWord code → IsWord (adjust code)) →
      (if texture textures i = .word then some true else none) = some after →
      Text.flow ends begun (adjust (textAt texts i)).toList = some after := by
    intro i adjust hadjust hi
    split_ifs at hi with hword
    have hfit := hfits i
    rw [hword] at hfit
    rw [← hi]
    exact (hadjust hfit).flow ends begun
  cases piece with
  | text code => exact hp
  | hole i =>
    have hfit := hfits i
    rw [Piece.flow] at hp
    cases hi : texture textures i with
    | word =>
      rw [hi] at hp hfit
      rw [← hp]
      exact hfit.flow ends begun
    | gap =>
      rw [hi] at hp
      cases hp
    | rows =>
      rw [hi] at hp hfit
      simp only at hp
      split_ifs at hp with hstart
      simp only [Bool.and_eq_true, Bool.not_eq_true'] at hstart
      rw [hstart.1, hstart.2, ← hp]
      exact hfit
  | receiver i => exact hadjusted IsWord.receiver hp
  | guardMinus i => exact hadjusted IsWord.guardMinus hp
  | guardWord i => exact hadjusted IsWord.guardWord hp
  | boundAbove i => exact hadjusted IsWord.boundAbove hp
  | indexBefore i => exact hadjusted IsWord.indexBefore hp
  | indexBeforeClamped i => exact hadjusted IsWord.indexBeforeClamped hp
  | rangeStart i =>
    rw [Piece.flow] at hp
    split_ifs at hp with hstart
    have hfit := hfits i
    rw [hstart.1] at hfit
    rw [hstart.2, ← hp]
    exact (IsInline.rangeStart hfit).flow ends
  | procedureBody statements result stop noop =>
    rw [Piece.flow] at hp
    split_ifs at hp with hbody
    simp only [Bool.and_eq_true, Bool.not_eq_true', decide_eq_true_eq] at hbody
    obtain ⟨⟨⟨⟨⟨rfl, rfl⟩, hstatements⟩, hresult⟩, hstop⟩, hnoop⟩ := hbody
    have hrows := hfits statements
    have hgap := hfits result
    rw [hstatements] at hrows
    rw [hresult] at hgap
    rw [← hp]
    exact isRows_procedureBody hrows hgap hstop hnoop

theorem Piece.flow_renderAll (h : List.Forall₂ Texture.Fits textures texts) {pieces : List Piece}
    {ends begun after : Bool} (hp : Piece.flowAll textures ends begun pieces = some after) :
    Text.flow ends begun (renderAll texts pieces).toList = some after := by
  induction pieces generalizing begun with
  | nil => exact hp
  | cons piece rest ih =>
    rw [flowAll, List.foldlM_cons] at hp
    obtain ⟨between, hpiece, hrest⟩ := Option.bind_eq_some_iff.1 hp
    rw [renderAll, String.toList_append, Text.flow_append, flow_render h hpiece]
    exact ih hrest

theorem Shape.layout_isRowed {shape : Shape} {statement : Bool} (h : shape.isRowed textures statement)
    (texts : List String) : (shape.layout texts).isRowed textures statement := by
  cases shape with
  | always layout => exact h
  | ordered first second rising falling unknown =>
    simp only [isRowed, Bool.and_eq_true] at h
    exact layout_ordered (P := fun layout => layout.isRowed textures statement) h.1.1 h.1.2 h.2 texts

end

section

variable {language : Language} {form : Form} {texts : List String}

/-- **An expression is a word.** -/
theorem Template.isWord_render (hf : form.isStatement = false)
    (h : List.Forall₂ Texture.Fits ((language.template form).steps.flatMap Step.textures) texts) (bare : Bool) :
    IsWord ((language.template form).render texts bare) := by
  have hrowed := language.template_isRowed form
  rw [hf, isRowed, Bool.and_eq_true] at hrowed
  have hlayout := Shape.layout_isRowed hrowed.2 texts
  simp only [Layout.isRowed, Bool.false_eq_true, if_false, decide_eq_true_eq] at hlayout
  have hword : IsWord (Piece.renderAll texts ((language.template form).shape.layout texts).pieces) :=
    Text.isWord_iff_flow.2 (Piece.flow_renderAll h hlayout)
  unfold render Layout.render
  simp only
  split_ifs
  · exact hword.parenthesize bare
  · exact hword

/-- **A statement is made of rows.** -/
theorem Template.isRows_render (hf : form.isStatement = true)
    (h : List.Forall₂ Texture.Fits ((language.template form).steps.flatMap Step.textures) texts) (bare : Bool) :
    IsRows ((language.template form).render texts bare) := by
  have hrowed := language.template_isRowed form
  rw [hf, isRowed, Bool.and_eq_true] at hrowed
  have hlayout := Shape.layout_isRowed hrowed.2 texts
  simp only [Layout.isRowed, if_true, Bool.and_eq_true, Bool.not_eq_true', decide_eq_true_eq] at hlayout
  unfold render Layout.render
  simp only [hlayout.1, Bool.false_eq_true, if_false]
  exact Piece.flow_renderAll h hlayout.2

end

end Blockwork
