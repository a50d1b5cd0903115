/-
Delimiters balance in everything that a run generates.

- `Template.isNested`: a check on a template as data. With all places left out, its fixed texts have matching
  brackets; so they have with balanced code in every place (`Template.balanced_render`).
- `Language.template_isNested`: the templates of every target pass it, texts themselves apart.
- `AllBalanced.happens`: each event of a run keeps all texts and all definitions balanced, so every run does.
- `delimiters_balance`: the main statement, about programs, fragments and definitions.
-/
import Blockwork.Proofs.Brackets
import Blockwork.Proofs.Declared

namespace Blockwork

/-! ## Templates whose brackets match -/

/-- the brackets in the fixed text of a piece -/
def Piece.brackets : Piece → List Char
  | text code => Text.brackets code.toList
  | _ => []

/-- whether a piece that is no fixed text brings no brackets of its own -/
def Piece.isEven : Piece → Bool
  | procedureBody _ _ stop noop => (Text.brackets stop.toList).isEmpty && (Text.brackets noop.toList).isEmpty
  | _ => true

/-- whether pieces in a row have matching brackets when their places are left out -/
def Piece.areNested (pieces : List Piece) : Bool :=
  pieces.all isEven && Text.nest [] (pieces.flatMap brackets) == some []

def Helper.isNested (helper : Helper) : Bool :=
  Text.nest [] (Text.brackets helper.before.toList ++ (Text.brackets helper.after.toList ++
    helper.body.flatMap fun line => Text.brackets line.toList)) == some []

/-- whether the fixed texts of a step have matching brackets -/
def Step.isNested : Step → Bool
  | value _ _ absent => Text.nest [] (Text.brackets absent.toList) == some []
  | helper h => h.isNested
  | require library => Text.nest [] (Text.brackets library.source.toList) == some []
  | hoist _ _ source => Piece.areNested source
  | _ => true

def Shape.isNested : Shape → Bool
  | always layout => Piece.areNested layout.pieces
  | ordered _ _ rising falling unknown =>
    Piece.areNested rising.pieces && Piece.areNested falling.pieces && Piece.areNested unknown.pieces

def Template.isNested (template : Template) : Bool :=
  template.steps.all Step.isNested && template.shape.isNested

namespace Helper

theorem chars_cons {cs : List Char} {lines : List (List Char)} {body : List String}
    (h : body = lines.map String.ofList) : String.ofList cs :: body = (cs :: lines).map String.ofList := by
  rw [h, List.map_cons]

-- the lines are handed to the check as their characters: decoding them first is what takes time
theorem isNested_of_chars {before after : List Char} {lines : List (List Char)} {helper : Helper}
    (hb : helper.before = String.ofList before) (ha : helper.after = String.ofList after)
    (hl : helper.body = lines.map String.ofList)
    (h : Text.nest [] (Text.brackets before ++ (Text.brackets after ++ lines.flatMap Text.brackets)) == some []) :
    helper.isNested := by
  rw [isNested, hb, ha, hl, List.flatMap_map]
  simpa only [String.toList_ofList] using h

end Helper

theorem Target.JavaScript.helpers_isNested : mean.isNested ∧ median.isNested ∧ modes.isNested ∧ deviation.isNested ∧
    randomItem.isNested ∧ titleCase.isNested := by
  refine ⟨?_, ?_, ?_, ?_, ?_, ?_⟩ <;>
  · apply Helper.isNested_of_chars rfl rfl
    · repeat apply Helper.chars_cons
      exact (List.map_nil).symm
    · decide +kernel

theorem Target.Dart.helpers_isNested : mean.isNested ∧ median.isNested ∧ modes.isNested ∧ deviation.isNested ∧
    randomItem.isNested ∧ titleCase.isNested := by
  refine ⟨?_, ?_, ?_, ?_, ?_, ?_⟩ <;>
  · apply Helper.isNested_of_chars rfl rfl
    · repeat apply Helper.chars_cons
      exact (List.map_nil).symm
    · decide +kernel

theorem Target.Python.helpers_isNested : mean.isNested ∧ median.isNested ∧ modes.isNested ∧ deviation.isNested ∧
    titleCase.isNested := by
  refine ⟨?_, ?_, ?_, ?_, ?_⟩ <;>
  · apply Helper.isNested_of_chars rfl rfl
    · repeat apply Helper.chars_cons
      exact (List.map_nil).symm
    · decide +kernel

namespace Piece

theorem areNested_iff {pieces : List Piece} :
    areNested pieces ↔ pieces.all isEven ∧ Text.nest [] (pieces.flatMap brackets) = some [] := by
  simp [areNested]

theorem areNested_append {before after : List Piece} (hb : areNested before) (ha : areNested after) :
    areNested (before ++ after) := by
  rw [areNested_iff] at hb ha ⊢
  refine ⟨by rw [List.all_append, hb.1, ha.1]; rfl, ?_⟩
  rw [List.flatMap_append, Text.nest_append, hb.2]
  exact ha.2

theorem areNested_composes : Composes fun pieces => areNested pieces :=
  ⟨rfl, areNested_append⟩

/-- pieces with matching brackets between some that open and the rest that close -/
theorem areNested_between {before inner after : List Piece} (hi : areNested inner) (h : areNested (before ++ after)) :
    areNested (.flatten [before, inner, after]) := by
  rw [areNested_iff] at hi h ⊢
  simp only [List.all_append, Bool.and_eq_true] at h
  have hflatten : List.flatten [before, inner, after] = before ++ (inner ++ after) := by simp
  rw [hflatten]
  refine ⟨by simp only [List.all_append, h.1.1, hi.1, h.1.2, Bool.and_self], ?_⟩
  rw [List.flatMap_append, List.flatMap_append, Text.nest_insert hi.2, ← List.flatMap_append]
  exact h.2

end Piece

/-- a choice, whatever stands around its conditions and branches -/
theorem Template.choice_isNested {falsity : String} (hf : Text.nest [] (Text.brackets falsity.toList) = some [])
    (elseifs : Nat) (otherwise : Bool) {condition : Nat → List Piece} {rest : List (List Piece)}
    (hc : ∀ n, Piece.areNested (condition n)) (hr : Piece.areNested rest.flatten) :
    (tight (choiceSteps falsity elseifs otherwise)
      (.flatten ((List.range (elseifs + 1)).flatMap condition :: rest))).isNested := by
  have hsteps : (choiceSteps falsity elseifs otherwise).all Step.isNested :=
    List.all_eq_true.2 (choiceSteps_forall (fun _ => beq_iff_eq.2 hf) (fun _ => rfl) _ _)
  have hconditions : Piece.areNested ((List.range (elseifs + 1)).flatMap condition) :=
    Piece.areNested_composes.flatMap fun n _ => hc n
  have hpieces := Piece.areNested_append hconditions hr
  simp only [isNested, tight, hsteps, Shape.isNested, Layout.tight, List.flatten_cons, hpieces, Bool.and_self]

/-- a list of joined texts, whatever stands around each of them -/
theorem Template.list_isNested (items : Nat) {before after : List Piece} {place : Nat → List Piece}
    (h : Piece.areNested (before ++ after)) (hp : ∀ i, Piece.areNested (place i)) :
    (tight ((List.range items).map fun slot => string slot true)
      (.flatten [before, separated [", "] ((List.range items).map place), after])).isNested := by
  have hsteps : ((List.range items).map fun slot => string slot true).all Step.isNested :=
    List.all_eq_true.2 (strings_forall (fun _ => rfl) items)
  have hplaces : Piece.areNested (separated [", "] ((List.range items).map place)) :=
    Piece.areNested_composes.separated rfl fun i _ => hp i
  simp only [isNested, tight, hsteps, Shape.isNested, Layout.tight, Piece.areNested_between hplaces h, Bool.and_self]

/-- the template of every construct other than a text is nested -/
theorem Language.template_isNested (language : Language) (form : Form) (h : ∀ content, form ≠ .text content) :
    (language.template form).isNested := by
  cases form using Form.byData with
  | plain form hm =>
    have hplain : ∀ form ∈ Form.plain, (language.template form).isNested := by cases language <;> decide +kernel
    exact hplain form hm
  | number literal =>
    have hnested := (Balanced.numberLiteral language (Binary64.parsePrefix literal)).nested
    cases language <;>
      simpa [template, Target.JavaScript.template, Target.Dart.template, Target.Python.template, Template.isNested,
        Template.tight, Shape.isNested, Layout.tight, Piece.areNested, Piece.isEven, Piece.brackets] using hnested
  | text content => exact absurd rfl (h content)
  | list items => cases language <;> exact Template.list_isNested (items + 3) rfl fun _ => rfl
  | choice elseifs otherwise =>
    have hbrace : ∀ n, Piece.areNested (Target.Brace.conditionPieces n) := fun n => by cases n <;> rfl
    have hpython : ∀ n, Piece.areNested (Target.Python.conditionPieces n) := fun n => by cases n <;> rfl
    cases language with
    | javascript => exact Template.choice_isNested rfl elseifs otherwise hbrace (by cases otherwise <;> rfl)
    | dart => exact Template.choice_isNested rfl elseifs otherwise hbrace (by cases otherwise <;> rfl)
    | python => exact Template.choice_isNested rfl elseifs otherwise hpython (by cases otherwise <;> rfl)
  | onList op =>
    obtain ⟨j1, j2, j3, j4, j5, -⟩ := Target.JavaScript.helpers_isNested
    obtain ⟨d1, d2, d3, d4, d5, -⟩ := Target.Dart.helpers_isNested
    obtain ⟨p1, p2, p3, p4, -⟩ := Target.Python.helpers_isNested
    cases language <;> cases op <;>
      simp only [template, Target.JavaScript.template, Target.JavaScript.onList, Target.JavaScript.onListBy,
        Target.Dart.template, Target.Dart.onList, Target.Python.template, Target.Python.onList, Template.isNested,
        Template.tight, Template.list, List.all_cons, List.all_nil, Step.isNested, j1, j2, j3, j4, j5, d1, d2, d3, d4,
        d5, p1, p2, p3, p4, Bool.true_and] <;> rfl
  | changeCase style =>
    obtain ⟨-, -, -, -, -, jt⟩ := Target.JavaScript.helpers_isNested
    obtain ⟨-, -, -, -, -, dt⟩ := Target.Dart.helpers_isNested
    obtain ⟨-, -, -, -, pt⟩ := Target.Python.helpers_isNested
    cases language <;> cases style <;>
      simp only [template, Target.JavaScript.template, Target.JavaScript.changeCase, Target.Dart.template,
        Target.Dart.changeCase, Target.Python.template, Target.Python.changeCase, Template.isNested, Template.tight,
        Template.string, List.all_cons, List.all_nil, Step.isNested, jt, dt, pt, Bool.true_and] <;> rfl
  | _ => cases language <;> rfl

theorem Step.isSafe_of_mem {steps : List Step} {issued : List Bool} (h : Step.areSafe issued steps) {step : Step}
    (hm : step ∈ steps) : ∃ issued, step.isSafe issued := by
  induction steps generalizing issued with
  | nil => cases hm
  | cons first rest ih =>
    simp only [areSafe, Bool.and_eq_true] at h
    rcases List.mem_cons.1 hm with rfl | hm
    · exact ⟨issued, h.1⟩
    · exact ih h.2 hm

theorem Language.step_isNested {language : Language} {form : Form} {step : Step}
    (hm : step ∈ (language.template form).steps) : step.isNested ∧ ∃ issued, step.isSafe issued := by
  by_cases hform : ∃ content, form = .text content
  · obtain ⟨content, rfl⟩ := hform
    cases language <;> exact absurd hm List.not_mem_nil
  · have hother : ∀ content, form ≠ .text content := fun content hc => hform ⟨content, hc⟩
    have hsafe := language.template_isSafe form hother
    have hnested := language.template_isNested form hother
    simp only [Template.isSafe, Template.isNested, Bool.and_eq_true] at hsafe hnested
    exact ⟨List.all_eq_true.1 hnested.1 step hm, Step.isSafe_of_mem hsafe.1 hm⟩

/-! ## Rendering balanced texts -/

section

variable {texts : List String}

/-- what relates marks to texts one by one relates the mark in a place to the text there; where there is neither, the
empty text -/
theorem Piece.rel_textAt {α : Type} {rel : α → String → Prop} {absent : α} (hd : rel absent "") {marks : List α}
    (h : List.Forall₂ rel marks texts) (i : Nat) : rel (marks.getD i absent) (textAt texts i) := by
  unfold textAt
  induction h generalizing i with
  | nil =>
    rw [List.getD_nil, List.getD_nil]
    exact hd
  | cons hone _ ih =>
    cases i with
    | zero => exact hone
    | succ i => exact ih i

theorem Piece.rel_textAt_of_getElem? {α : Type} {rel : α → String → Prop} {marks : List α}
    (h : List.Forall₂ rel marks texts) {i : Nat} {mark : α} (hi : marks[i]? = some mark) :
    rel mark (textAt texts i) := by
  unfold textAt
  induction h generalizing i with
  | nil => cases hi
  | cons hone _ ih =>
    cases i with
    | zero =>
      obtain rfl := Option.some.inj hi
      exact hone
    | succ i => exact ih hi

theorem Piece.balanced_textAt (h : ∀ text ∈ texts, Balanced text) (i : Nat) : Balanced (textAt texts i) := by
  unfold textAt
  rw [List.getD_eq_getElem?_getD]
  cases hi : texts[i]? with
  | none => exact .empty
  | some text => exact h text (List.mem_of_getElem? hi)

/-- a piece that is no fixed text gives balanced code for balanced texts -/
theorem Piece.balanced_render (h : ∀ text ∈ texts, Balanced text) {piece : Piece} (hs : piece.isSafe)
    (he : piece.isEven) (ht : ∀ code, piece ≠ .text code) : Balanced (piece.render texts) := by
  have hat := balanced_textAt h
  cases piece with
  | text code => exact absurd rfl (ht code)
  | hole i => exact hat i
  | receiver i => exact (hat i).receiver
  | guardMinus i => exact (hat i).guardMinus
  | guardWord i => exact (hat i).guardWord
  | boundAbove i => exact (hat i).boundAbove
  | indexBefore i => exact (hat i).indexBefore
  | indexBeforeClamped i => exact (hat i).indexBeforeClamped
  | rangeStart i => exact (hat i).rangeStart
  | procedureBody statements result stop noop =>
    simp only [isSafe, Bool.and_eq_true] at hs
    simp only [isEven, Bool.and_eq_true, List.isEmpty_iff] at he
    refine (hat statements).procedureBody (hat result) ⟨hs.1, ?_⟩ ⟨hs.2, ?_⟩
    · rw [he.1]
      rfl
    · rw [he.2]
      rfl

/-- with balanced texts in their places, pieces have the brackets they have without -/
theorem Piece.nest_renderAll (h : ∀ text ∈ texts, Balanced text) {pieces : List Piece} (hs : pieces.all isSafe)
    (he : pieces.all isEven) :
    AlikeCode (renderAll texts pieces) (renderAll texts pieces) ∧ ∀ expected,
      Text.nest expected (Text.brackets (renderAll texts pieces).toList) =
        Text.nest expected (pieces.flatMap brackets) := by
  induction pieces with
  | nil => exact ⟨.empty, fun _ => rfl⟩
  | cons piece rest ih =>
    simp only [List.all_cons, Bool.and_eq_true] at hs he
    obtain ⟨hrest, hnest⟩ := ih hs.2 he.2
    -- a fixed text brings its own brackets, any other piece none that are left open
    have hpiece : AlikeCode (piece.render texts) (piece.render texts) ∧ ∀ expected,
        Text.nest expected (Text.brackets (piece.render texts).toList) = Text.nest expected piece.brackets := by
      by_cases ht : ∃ code, piece = .text code
      · obtain ⟨code, rfl⟩ := ht
        exact ⟨.of_isClosed hs.1, fun _ => rfl⟩
      · have hbalanced := balanced_render h hs.1 he.1 fun code hc => ht ⟨code, hc⟩
        have hnone : piece.brackets = [] := by
          cases piece with
          | text code => exact absurd ⟨code, rfl⟩ ht
          | _ => rfl
        refine ⟨hbalanced.alike, fun expected => ?_⟩
        rw [Text.nest_within hbalanced.nested, hnone]
        rfl
    refine ⟨hpiece.1.append hrest, fun expected => ?_⟩
    rw [renderAll, String.toList_append, hpiece.1.brackets_append, Text.nest_append, hpiece.2, List.flatMap_cons,
      Text.nest_append]
    congr 1
    funext between
    exact hnest between

theorem Piece.balanced_renderAll (h : ∀ text ∈ texts, Balanced text) {pieces : List Piece} (hs : pieces.all isSafe)
    (hn : areNested pieces) : Balanced (renderAll texts pieces) := by
  obtain ⟨heven, hnested⟩ := areNested_iff.1 hn
  obtain ⟨halike, hnest⟩ := nest_renderAll h hs heven
  exact ⟨halike.isClosed, (hnest []).trans hnested⟩

theorem Shape.layout_areNested {shape : Shape} (h : shape.isNested) (texts : List String) :
    Piece.areNested (shape.layout texts).pieces := by
  cases shape with
  | always layout => exact h
  | ordered first second rising falling unknown =>
    simp only [isNested, Bool.and_eq_true] at h
    exact layout_ordered (P := fun layout => Piece.areNested layout.pieces) h.1.1 h.1.2 h.2 texts

/-- **The code of a construct is balanced if the texts in its places are.** -/
theorem Template.balanced_render (language : Language) (form : Form) (h : ∀ text ∈ texts, Balanced text)
    (bare : Bool) : Balanced ((language.template form).render texts bare) := by
  by_cases hform : ∃ content, form = .text content
  · obtain ⟨content, rfl⟩ := hform
    have hcode : (language.template (.text content)).render texts bare = language.quote content ++ "" := by
      cases language <;> rfl
    rw [hcode]
    exact (Balanced.quote language content).append .empty
  · have hother : ∀ content, form ≠ .text content := fun content hc => hform ⟨content, hc⟩
    have hsafe := language.template_isSafe form hother
    have hnested := language.template_isNested form hother
    simp only [isSafe, isNested, Bool.and_eq_true] at hsafe hnested
    have hcode := Piece.balanced_renderAll h (Shape.layout_isSafe hsafe.2 texts)
      (Shape.layout_areNested hnested.2 texts)
    unfold render Layout.render
    simp only
    split_ifs
    · exact hcode.parenthesize bare
    · exact hcode

theorem Text.brackets_joinWith {lines : List String} (h : ∀ line ∈ lines, AlikeCode line line) :
    Text.brackets (Text.joinWith "\n" lines).toList = lines.flatMap fun line => Text.brackets line.toList := by
  induction lines with
  | nil => rfl
  | cons line rest ih =>
    obtain ⟨hline, hrest⟩ := List.forall_mem_cons.1 h
    cases rest with
    | nil => exact (List.append_nil _).symm
    | cons next rest =>
      have hend : AlikeCode "\n" "\n" := .of_isClosed rfl
      have hjoin : Text.joinWith "\n" (line :: next :: rest) = line ++ "\n" ++ Text.joinWith "\n" (next :: rest) := rfl
      rw [hjoin, String.toList_append, (hline.append hend).brackets_append, String.toList_append,
        hline.brackets_append, ih hrest, List.flatMap_cons, List.append_assoc]
      rfl

theorem Helper.balanced_source {helper : Helper} (hs : helper.isSafe) (hn : helper.isNested) {name : String}
    (hi : Names.IsIdentifier name) : Balanced (helper.source name) := by
  have hname := Balanced.identifier hi
  simp only [isSafe, Bool.and_eq_true, List.all_eq_true] at hs
  have hbefore : AlikeCode helper.before helper.before := .of_isClosed hs.1.1
  have hfirst := (hbefore.append hname.alike).append (.of_isClosed hs.1.2)
  have hlines : ∀ line ∈ (helper.before ++ name ++ helper.after) :: helper.body, AlikeCode line line :=
    List.forall_mem_cons.2 ⟨hfirst, fun line hm => .of_isClosed (hs.2 line hm)⟩
  constructor
  · exact (AlikeCode.joinWith rfl (List.forall₂_same.2 hlines)).isClosed
  · unfold source
    rw [Text.brackets_joinWith hlines, List.flatMap_cons, String.toList_append,
      (hbefore.append hname.alike).brackets_append, String.toList_append, hbefore.brackets_append,
      Text.brackets_of_isPlain hi.isPlain, List.append_nil, List.append_assoc]
    exact beq_iff_eq.1 hn

end

/-! ## Whole runs -/

def Event.text : Event → String
  | left _ _ text => text
  | code _ _ _ text => text
  | chain text => text

/-- everything generated so far is balanced -/
structure AllBalanced (log : List Event) (pass : Pass) : Prop where
  texts : ∀ event ∈ log, Balanced event.text
  definitions : ∀ definition ∈ pass.registry.entries, Balanced definition.source

namespace AllBalanced

variable {language : Language} {record : List (Names.Request × String)} {log log' : List Event}
  {pass pass' after : Pass} {form : Form} {step : Step} {steps : List Step} {texts left : List String}

theorem done (h : AllBalanced log pass) (hdone : Done log pass form steps texts) : ∀ text ∈ texts, Balanced text := by
  intro text hm
  obtain ⟨step, hleft⟩ := hdone.text_mem hm
  exact h.texts _ hleft

theorem request (h : AllBalanced log pass) {key source : String} {name : Option String} (hs : Balanced source) :
    ∀ definition ∈ (pass.registry.request key fun _ => (name, source)).2.entries, Balanced definition.source := by
  rw [Registry.entries_request]
  split_ifs
  · exact h.definitions
  · exact List.forall_mem_append.2 ⟨h.definitions, List.forall_mem_singleton.2 hs⟩

/-- **A step leaves and hoists balanced code.** -/
theorem does (h : AllBalanced log pass) (hmem : step ∈ (language.template form).steps)
    (hdone : Done log pass form steps texts) (hdoes : step.Does language log pass texts left after)
    (hname : ∀ text ∈ left, step.isName → Names.IsIdentifier text) :
    (∀ text ∈ left, Balanced text) ∧ ∀ definition ∈ after.registry.entries, Balanced definition.source := by
  obtain ⟨hnested, issued, hsafe⟩ := Language.step_isNested hmem
  have hidentifier : ∀ {text : String}, left = [text] → step.isName → Names.IsIdentifier text :=
    fun hl hn => hname _ (hl ▸ List.mem_cons_self) hn
  cases hdoes with
  | absent => exact ⟨List.forall_mem_singleton.2 ⟨hsafe, beq_iff_eq.1 hnested⟩, h.definitions⟩
  | value hcode _ => exact ⟨List.forall_mem_singleton.2 (h.texts _ hcode), h.definitions⟩
  | noop =>
    refine ⟨List.forall_mem_singleton.2 ?_, h.definitions⟩
    cases language <;> exact ⟨rfl, rfl⟩
  | branch hchain _ => exact ⟨List.forall_mem_singleton.2 (h.texts _ hchain).prefixLines, h.definitions⟩
  | nobody => exact ⟨List.forall_mem_singleton.2 .empty, h.definitions⟩
  | body hchain _ => exact ⟨List.forall_mem_singleton.2 (h.texts _ hchain).prefixLines, h.definitions⟩
  | @temporary base name _ =>
    have hi := hidentifier rfl rfl
    refine ⟨List.forall_mem_singleton.2 (.identifier hi), h.request ?_⟩
    exact (Balanced.append ⟨rfl, rfl⟩ (.identifier hi)).append ⟨rfl, rfl⟩
  | firstHelper _ _ =>
    have hi := hidentifier rfl rfl
    exact ⟨List.forall_mem_singleton.2 (.identifier hi), h.request (Helper.balanced_source hsafe hnested hi)⟩
  | require => exact ⟨List.forall_mem_nil _, h.request ⟨hsafe, beq_iff_eq.1 hnested⟩⟩
  | hoist =>
    simp only [Step.isSafe, Bool.and_eq_true] at hsafe
    exact ⟨List.forall_mem_nil _, h.request (Piece.balanced_renderAll (h.done hdone) hsafe.2 hnested)⟩
  | _ => exact ⟨List.forall_mem_singleton.2 (.identifier (hidentifier rfl rfl)), h.definitions⟩

theorem line {code : String} (h : Balanced code) (form : Form) (language : Language) :
    Balanced (form.line language code) := by
  unfold Form.line
  split_ifs
  · exact h
  · cases language <;> exact h.append ⟨rfl, rfl⟩

/-- **Each event keeps everything balanced.** -/
theorem happens (h : AllBalanced log pass) (horderly : Orderly language record log' pass')
    (hh : Happens language log pass log' pass') : AllBalanced log' pass' := by
  cases hh with
  | @step form before rest step texts left _ hsteps hdone hdoes =>
    have hmem : step ∈ (language.template form).steps := by
      rw [hsteps]
      exact List.mem_append_right _ List.mem_cons_self
    obtain ⟨hleft, hdefinitions⟩ := h.does hmem hdone hdoes fun text hm hstep =>
      (horderly.identifier (List.mem_append_right _ (List.mem_map_of_mem hm)) hstep).1
    refine ⟨List.forall_mem_append.2 ⟨h.texts, fun event hm => ?_⟩, hdefinitions⟩
    obtain ⟨text, ht, rfl⟩ := List.mem_map.1 hm
    exact hleft text ht
  | @code form texts bare hdone _ =>
    have hcode := Template.balanced_render language form (h.done hdone) bare
    exact ⟨List.forall_mem_append.2 ⟨h.texts, List.forall_mem_singleton.2 hcode⟩, h.definitions⟩
  | @chain form texts code rest hcode hrest =>
    have hline := line (h.texts _ hcode) form language
    have hbelow : Balanced rest := by
      rcases hrest with rfl | hchain
      · exact .empty
      · exact h.texts _ hchain
    exact ⟨List.forall_mem_append.2 ⟨h.texts, List.forall_mem_singleton.2 (hline.append hbelow)⟩, h.definitions⟩

end AllBalanced

namespace Pass

variable {pass : Pass}

theorem balanced_render (h : ∀ definition ∈ pass.registry.entries, Balanced definition.source) :
    Balanced pass.registry.render := by
  have hsources : ∀ select : Definition → Bool,
      ∀ source ∈ (pass.registry.entries.filter select).map Definition.source, Balanced source := by
    intro select source hm
    obtain ⟨definition, hd, rfl⟩ := List.mem_map.1 hm
    exact h definition (List.mem_filter.1 hd).1
  have himports : Balanced pass.registry.importBlock := Balanced.joinWith ⟨rfl, rfl⟩ (hsources _)
  refine Balanced.joinWith ⟨rfl, rfl⟩ ?_
  unfold Registry.sections
  split_ifs
  · exact hsources _
  · exact List.forall_mem_cons.2 ⟨himports, hsources _⟩

/-- a program is balanced if its definitions and its body are -/
theorem balanced_finish (hd : ∀ definition ∈ pass.registry.entries, Balanced definition.source)
    (hv : ∀ name ∈ pass.names.variableNames, Names.IsIdentifier name) {body : String} (hb : Balanced body) :
    Balanced (pass.finish body) := by
  have hdefinitions : ∀ part ∈ pass.definitionSections, Balanced part := by
    unfold definitionSections
    split_ifs
    · exact List.forall_mem_nil _
    · exact List.forall_mem_singleton.2 (balanced_render hd)
  have hvariables : ∀ part ∈ pass.variableSections, Balanced part := by
    have hnames : Balanced (Text.joinWith ", " pass.names.variableNames) :=
      Balanced.joinWith ⟨rfl, rfl⟩ fun name hm => .identifier (hv name hm)
    unfold variableSections
    split_ifs
    · exact List.forall_mem_singleton.2 ((Balanced.append ⟨rfl, rfl⟩ hnames).append ⟨rfl, rfl⟩)
    · exact List.forall_mem_nil _
  have hbody : ∀ part ∈ pass.bodySections body, Balanced part := by
    unfold bodySections
    split_ifs
    · exact List.forall_mem_singleton.2 (hb.prefixLines.between rfl rfl rfl)
    · exact List.forall_mem_nil _
    · exact List.forall_mem_singleton.2 hb.dropFinalNewlines
  have hall := List.forall_mem_append.2 ⟨List.forall_mem_append.2 ⟨hdefinitions, hvariables⟩, hbody⟩
  exact (Balanced.joinWith ⟨rfl, rfl⟩ hall).append ⟨rfl, rfl⟩

end Pass

/-- **Delimiters always balance.** In every program, in the code of every block and of every chain on the way to it,
and in everything hoisted, each literal is closed on its own line and each bracket outside literals is closed by its
match, in properly nested order. -/
theorem delimiters_balance (language : Language) (blocks : List Block) :
    (∀ program, generate language blocks = .ok program → Balanced program) ∧
    (∀ event ∈ programChronicle language blocks, Balanced event.text) ∧
    ∀ definition ∈ (programRun language blocks).2.registry.entries, Balanced definition.source := by
  obtain ⟨record, horderly, hall⟩ := programRun_keeps AllBalanced language blocks
    ⟨List.forall_mem_nil _, List.forall_mem_nil _⟩ fun horderly hh h => h.happens horderly hh
  refine ⟨fun program hg => ?_, hall.texts, hall.definitions⟩
  rw [generate_eq] at hg
  cases hr : (programRun language blocks).1 with
  | error cause =>
    rw [hr] at hg
    cases hg
  | ok body =>
    rw [hr] at hg
    cases hg
    obtain ⟨chains, hchains, rfl⟩ := (programRun_unfolds language blocks).2 body hr
    refine Pass.balanced_finish hall.definitions (fun name hm => ?_) (.concat fun text hm => ?_)
    · obtain ⟨user, hr⟩ := (horderly.settled.books.mem_variableNames _).1 hm
      exact horderly.settled.books.identifier _ hr
    · exact hall.texts _ (hchains text hm)

/-- a workspace with a printing block where a value is expected, and brackets and quotes in its text -/
def bracketWorkspace : List Block :=
  [.mk { Head.bare Kind.choice.name with otherwise := 1 }
    [(0, .mk (Head.bare Kind.print.name) [(0, .text "it's ](\n")] [] none)] [] none]

def bracketProgram : String :=
  "main() \x7b\n  if (print('it\\'s ](\\n');\n  ) \x7b\n    ;\n  \x7d else \x7b\n    ;\n  \x7d\n\x7d\n"

theorem bracketWorkspace_balances : generate .dart bracketWorkspace = .ok bracketProgram ∧ Balanced bracketProgram := by
  have hprogram : generate .dart bracketWorkspace = .ok bracketProgram := by rfl
  exact ⟨hprogram, (delimiters_balance .dart bracketWorkspace).1 _ hprogram⟩

end Blockwork
