/-
Receivers without a guard. JavaScript and Python put a member access or an index behind an operand as it stands,
relying on the brackets that were asked for around an operator; a number needs none and gets none.

- `IsExposed`: code that an access does not apply to as a whole, or that it makes unreadable: it starts with a
  minus sign, or is digits only.
- `Form.receiverSlot?`: the slot whose operand stands in front of an access (`Template.Receives.receivers`), and
  `Form.frontSlot?`: the slot whose operand the code of a construct starts with.
- `Block.LeadsMinus`, `Block.IsWholeNumber`: the blocks whose code is exposed (`Block.makes_tells`): numbers, and
  whatever starts with a negative one.
- `Block.Exposes`: a tree with such a block where a receiver is expected. `receivers_exposed_iff`: these trees, and
  no others, make the generator put an access behind exposed code.
-/
import Blockwork.Proofs.Receivers
import Blockwork.Proofs.Rows

namespace Blockwork

/-! ## Exposed code -/

/-- code that starts with a minus sign: an access binds tighter than the sign -/
def StartsMinus (code : String) : Prop :=
  code.toList.head? = some '-'

/-- code of decimal digits only: a point behind it is read as part of the number -/
def IsDigits (code : String) : Prop :=
  code ≠ "" ∧ ∀ c ∈ code.toList, c.isDigit

/-- code that an access behind it does not apply to as a whole -/
def IsExposed (code : String) : Prop :=
  StartsMinus code ∨ IsDigits code

instance : DecidablePred StartsMinus := fun _ => inferInstanceAs (Decidable (_ = _))

instance : DecidablePred IsDigits := fun code =>
  @instDecidableAnd _ _ inferInstance (List.decidableBAll (fun c => c.isDigit) code.toList)

instance : DecidablePred IsExposed := fun _ => inferInstanceAs (Decidable (_ ∨ _))

/-- code whose first character is neither a minus sign nor a digit -/
def IsCovered (code : String) : Prop :=
  ∃ c, code.toList.head? = some c ∧ c ≠ '-' ∧ ¬ c.isDigit

namespace IsCovered

variable {code : String}

theorem ne_empty (h : IsCovered code) : code ≠ "" := by
  rintro rfl
  obtain ⟨c, hc, -⟩ := h
  cases hc

theorem not_startsMinus (h : IsCovered code) : ¬ StartsMinus code := by
  intro hminus
  obtain ⟨c, hc, hne, -⟩ := h
  rw [StartsMinus, hc] at hminus
  exact hne (Option.some.inj hminus)

theorem not_isDigits (h : IsCovered code) : ¬ IsDigits code := by
  rintro ⟨-, hall⟩
  obtain ⟨c, hc, -, hdigit⟩ := h
  exact hdigit (hall c (List.mem_of_mem_head? hc))

theorem not_isExposed (h : IsCovered code) : ¬ IsExposed code :=
  not_or.2 ⟨h.not_startsMinus, h.not_isDigits⟩

theorem append (h : IsCovered code) (behind : String) : IsCovered (code ++ behind) := by
  obtain ⟨c, hc, hcovered⟩ := h
  refine ⟨c, ?_, hcovered⟩
  rw [String.toList_append, List.head?_append, hc]
  rfl

theorem bracketed (code : String) : IsCovered (bracketed code) := by
  refine ⟨'(', ?_, by decide, by decide⟩
  simp [Blockwork.bracketed]

theorem identifier (h : Names.IsIdentifier code) : IsCovered code := by
  obtain ⟨c, cs, hname, hc, hdigit, -⟩ := h
  refine ⟨c, by rw [hname]; rfl, ?_, hdigit⟩
  rintro rfl
  exact absurd hc (by decide)

theorem quote (language : Language) (text : String) : IsCovered (language.quote text) := by
  refine ⟨'\'', ?_, by decide, by decide⟩
  rw [Language.quote, String.toList_ofList, Text.quoteChars, List.head?_cons]

end IsCovered

/-- behind code that is not empty nothing changes how the whole starts -/
theorem startsMinus_append {code : String} (h : code ≠ "") (behind : String) :
    StartsMinus (code ++ behind) ↔ StartsMinus code := by
  have hne : code.toList ≠ [] := fun hnil => h (String.toList_eq_nil_iff.1 hnil)
  obtain ⟨c, cs, hcs⟩ := List.exists_cons_of_ne_nil hne
  rw [StartsMinus, StartsMinus, String.toList_append, hcs]
  rfl

theorem not_isDigits_append (code : String) {behind : String} (h : IsCovered behind) : ¬ IsDigits (code ++ behind) := by
  rintro ⟨-, hall⟩
  obtain ⟨c, hc, -, hdigit⟩ := h
  refine hdigit (hall c ?_)
  rw [String.toList_append]
  exact List.mem_append_right _ (List.mem_of_mem_head? hc)

/-! ## Where receivers stand -/

namespace Form

/-- the slot whose operand stands in front of a member access or an index, in a target without the guard -/
def receiverSlot? : Language → Form → Option Nat
  | .javascript, onList .sum => some 0
  | .javascript, length => some 0
  | .javascript, isEmpty => some 0
  | _, endString .first => some 1
  | _, indexOf _ => some 1
  | _, charAt => some 1
  | _, changeCase .upper => some 0
  | _, changeCase .lower => some 0
  | _, trim _ => some 0
  | _, _ => none

/-- the slot whose operand comes first in code that was asked for with brackets around an operator; a test and a
place in a text are in brackets then -/
def frontSlot? (language : Language) : Form → Option Nat
  | isEmpty => none
  | indexOf _ => none
  | form => form.receiverSlot? language

theorem receiverSlot?_of_frontSlot? {language : Language} {form : Form} {slot : Nat}
    (h : form.frontSlot? language = some slot) : form.receiverSlot? language = some slot := by
  unfold frontSlot? at h
  split at h
  · cases h
  · cases h
  · exact h

end Form

theorem Piece.receivers_of_noAccess (texts : List String) {pieces : List Piece} (h : noAccess pieces.tail) :
    receivers texts pieces = [] := by
  induction pieces with
  | nil => rfl
  | cons piece rest ih =>
    have hrest : noAccess rest.tail := by
      rw [noAccess, List.all_eq_true] at h ⊢
      exact fun other ho => h other (List.mem_of_mem_tail ho)
    have hhead : rest.head?.any isAccess = false := any_isAccess_head? h
    rw [receivers, ih hrest, hhead]
    rfl

/-- an operand with an access behind it, and neither before nor behind them another one -/
theorem Piece.receivers_of_isAccess (texts : List String) {before rest : List Piece} {code : String} (i : Nat)
    (hb : noAccess before) (ha : (text code).isAccess) (hr : noAccess rest) :
    receivers texts (before ++ hole i :: text code :: rest) = [textAt texts i] := by
  induction before with
  | nil =>
    have hbehind : receivers texts (text code :: rest) = [] := receivers_of_noAccess texts hr
    rw [List.nil_append, receivers, hbehind, List.head?_cons, Option.any_some, ha]
    rfl
  | cons piece before ih =>
    rw [noAccess, List.all_cons, Bool.and_eq_true] at hb
    have hnext : (before ++ hole i :: text code :: rest).head?.any isAccess = false := by
      cases before with
      | nil => rfl
      | cons next before =>
        rw [List.all_cons, Bool.and_eq_true, Bool.not_eq_true'] at hb
        simpa using hb.2.1
    rw [List.cons_append, receivers, hnext, ih hb.2]
    rfl

theorem IsCovered.of_isAccess {code : String} (h : (Piece.text code).isAccess) : IsCovered code := by
  rw [Piece.isAccess, Option.any_eq_true] at h
  obtain ⟨c, hc, hmark⟩ := h
  refine ⟨c, hc, ?_⟩
  rw [Bool.or_eq_true, beq_iff_eq, beq_iff_eq] at hmark
  rcases hmark with rfl | rfl
  · exact ⟨by decide, by decide⟩
  · exact ⟨by decide, by decide⟩

/-- what the template of a construct with a receiver slot is like: the operand is asked for with brackets around an
operator, and what stands in for none is not exposed; one access stands behind it; and at the front, the operand comes
first and nothing puts the whole into brackets -/
structure Template.Receives (template : Template) (slot : Nat) (front : Bool) : Prop where
  step : ∃ absent, (template.steps.filter Step.leavesText)[slot]? = some (.value slot false absent) ∧
    IsCovered absent
  shape : ∃ before code rest, template.shape = .always ⟨!front, before ++ .hole slot :: .text code :: rest⟩ ∧
    Piece.noAccess before ∧ (Piece.text code).isAccess ∧ Piece.noAccess rest ∧ (front → before = [])

theorem Language.template_receives {language : Language} (hl : language ≠ .dart) {form : Form} {slot : Nat}
    (h : form.receiverSlot? language = some slot) :
    (language.template form).Receives slot (form.frontSlot? language).isSome := by
  have hstring : IsCovered "''" := ⟨'\'', rfl, by decide, by decide⟩
  have hlist : IsCovered "[]" := ⟨'[', rfl, by decide, by decide⟩
  cases language with
  | dart => exact absurd rfl hl
  | javascript =>
    cases form with
    | onList op =>
      cases op <;> cases h
      exact ⟨⟨_, rfl, hlist⟩, [], _, _, rfl, rfl, rfl, rfl, fun _ => rfl⟩
    | endString part =>
      cases part <;> cases h
      exact ⟨⟨_, rfl, hstring⟩, [], _, _, rfl, rfl, rfl, rfl, fun _ => rfl⟩
    | changeCase style =>
      cases style <;> cases h <;> exact ⟨⟨_, rfl, hstring⟩, [], _, _, rfl, rfl, rfl, rfl, fun _ => rfl⟩
    | indexOf part => cases part <;> cases h <;> exact ⟨⟨_, rfl, hstring⟩, [], _, _, rfl, rfl, rfl, rfl, fun _ => rfl⟩
    | trim side => cases side <;> cases h <;> exact ⟨⟨_, rfl, hstring⟩, [], _, _, rfl, rfl, rfl, rfl, fun _ => rfl⟩
    | charAt =>
      cases h
      exact ⟨⟨_, rfl, hlist⟩, [], _, _, rfl, rfl, rfl, rfl, fun _ => rfl⟩
    | length =>
      cases h
      exact ⟨⟨_, rfl, hstring⟩, [], _, _, rfl, rfl, rfl, rfl, fun _ => rfl⟩
    | isEmpty =>
      cases h
      exact ⟨⟨_, rfl, hstring⟩, ["!"], _, _, rfl, rfl, rfl, rfl, fun h => nomatch h⟩
    | _ => cases h
  | python =>
    cases form with
    | endString part =>
      cases part <;> cases h
      exact ⟨⟨_, rfl, hstring⟩, [], _, _, rfl, rfl, rfl, rfl, fun _ => rfl⟩
    | changeCase style =>
      cases style <;> cases h <;> exact ⟨⟨_, rfl, hstring⟩, [], _, _, rfl, rfl, rfl, rfl, fun _ => rfl⟩
    | indexOf part => cases part <;> cases h <;> exact ⟨⟨_, rfl, hstring⟩, [], _, _, rfl, rfl, rfl, rfl, fun _ => rfl⟩
    | trim side => cases side <;> cases h <;> exact ⟨⟨_, rfl, hstring⟩, [], _, _, rfl, rfl, rfl, rfl, fun _ => rfl⟩
    | charAt =>
      cases h
      exact ⟨⟨_, rfl, hlist⟩, [], _, _, rfl, rfl, rfl, rfl, fun _ => rfl⟩
    | _ => cases h

namespace Template.Receives

variable {template : Template} {slot : Nat} {front : Bool}

theorem receivers (h : template.Receives slot front) (texts : List String) :
    template.receivers texts = [Piece.textAt texts slot] := by
  obtain ⟨before, code, rest, hshape, hb, ha, hr, -⟩ := h.shape
  rw [Template.receivers, hshape]
  exact Piece.receivers_of_isAccess texts slot hb ha hr

/-- the code starts with the operand, and an access stands behind it -/
theorem render (h : template.Receives slot true) (texts : List String) :
    ∃ behind, template.render texts false = Piece.textAt texts slot ++ behind ∧ IsCovered behind := by
  obtain ⟨before, code, rest, hshape, -, ha, -, hbefore⟩ := h.shape
  obtain rfl := hbefore rfl
  refine ⟨code ++ Piece.renderAll texts rest, ?_, (IsCovered.of_isAccess ha).append _⟩
  rw [Template.render, hshape]
  rfl

end Template.Receives

/-! ## All other templates -/

namespace Shape

def noReceiver : Shape → Bool
  | always layout => Piece.noAccess layout.pieces.tail
  | ordered _ _ rising falling unknown =>
    Piece.noAccess rising.pieces.tail && Piece.noAccess falling.pieces.tail && Piece.noAccess unknown.pieces.tail

theorem receivers_eq_nil {shape : Shape} (h : shape.noReceiver) (texts : List String) :
    Piece.receivers texts (shape.layout texts).pieces = [] := by
  cases shape with
  | always layout => exact Piece.receivers_of_noAccess texts h
  | ordered first second rising falling unknown =>
    simp only [noReceiver, Bool.and_eq_true] at h
    refine Piece.receivers_of_noAccess texts ?_
    exact layout_ordered (P := fun layout => Piece.noAccess layout.pieces.tail) h.1.1 h.1.2 h.2 texts

end Shape

namespace Piece

/-- whether pieces in a row start with fixed text that covers them; names in front of it do no harm -/
def startCovered (names : List Bool) : List Piece → Bool
  | text code :: _ => code.toList.head?.any fun c => c != '-' && !c.isDigit
  | hole i :: rest => names.getD i false && startCovered names rest
  | _ => false

theorem isCovered_renderAll {names : List Bool} {texts : List String} {pieces : List Piece}
    (h : List.Forall₂ (fun name text => name = true → text = "" ∨ Names.IsIdentifier text) names texts)
    (hp : startCovered names pieces) : IsCovered (renderAll texts pieces) := by
  induction pieces with
  | nil => cases hp
  | cons piece rest ih =>
    rw [renderAll]
    cases piece with
    | text code =>
      rw [startCovered, Option.any_eq_true] at hp
      obtain ⟨c, hc, hcovered⟩ := hp
      refine IsCovered.append ⟨c, hc, ?_⟩ _
      simpa using hcovered
    | hole i =>
      rw [startCovered, Bool.and_eq_true] at hp
      have htext : textAt texts i = "" ∨ Names.IsIdentifier (textAt texts i) :=
        rel_textAt (fun hfalse => Bool.noConfusion hfalse) h i hp.1
      rcases htext with htext | htext
      · rw [render, htext, String.empty_append]
        exact ih hp.2
      · exact (IsCovered.identifier htext).append _
    | _ => cases hp

end Piece

/-- whether the code of a layout is covered where brackets around an operator are asked for -/
def Layout.isCovered (names : List Bool) (layout : Layout) : Bool :=
  layout.isLoose || Piece.startCovered names layout.pieces

def Shape.isCovered (names : List Bool) : Shape → Bool
  | always layout => layout.isCovered names
  | ordered _ _ rising falling unknown =>
    rising.isCovered names && falling.isCovered names && unknown.isCovered names

theorem Layout.isCovered_render {names : List Bool} {texts : List String} {layout : Layout}
    (h : List.Forall₂ (fun name text => name = true → text = "" ∨ Names.IsIdentifier text) names texts)
    (hc : layout.isCovered names) : IsCovered (layout.render texts false) := by
  unfold Layout.render
  simp only
  split_ifs with hloose
  · exact .bracketed _
  · rw [Layout.isCovered, Bool.eq_false_iff.2 hloose, Bool.false_or] at hc
    exact Piece.isCovered_renderAll h hc

theorem Template.isCovered_render {template : Template} {names : List Bool} {texts : List String}
    (hc : template.shape.isCovered names)
    (h : List.Forall₂ (fun name text => name = true → text = "" ∨ Names.IsIdentifier text) names texts) :
    IsCovered (template.render texts false) := by
  unfold Template.render
  refine Layout.isCovered_render h ?_
  cases hshape : template.shape with
  | always layout =>
    rw [hshape] at hc
    exact hc
  | ordered first second rising falling unknown =>
    rw [hshape] at hc
    simp only [Shape.isCovered, Bool.and_eq_true] at hc
    exact Shape.layout_ordered (P := fun layout => layout.isCovered names) hc.1.1 hc.1.2 hc.2 texts

/-- an expression that is no number, text or name, and does not start with an operand, is covered -/
theorem Language.template_isCovered {language : Language} (hl : language ≠ .dart) {form : Form}
    (hs : form.isStatement = false) (hf : form.frontSlot? language = none) (hnumber : ∀ literal, form ≠ .number literal)
    (htext : ∀ content, form ≠ .text content) (hget : ∀ name, form ≠ .get name) :
    (language.template form).shape.isCovered (Step.names (language.template form).steps) := by
  cases form using Form.byData with
  | plain form hm =>
    have hplain : ∀ form ∈ Form.plain, form.isStatement = false → form.frontSlot? language = none →
        (language.template form).shape.isCovered (Step.names (language.template form).steps) := by
      cases language with
      | dart => exact absurd rfl hl
      | _ => decide +kernel
    exact hplain form hm hs hf
  | number literal => exact absurd rfl (hnumber literal)
  | text content => exact absurd rfl (htext content)
  | get name => exact absurd rfl (hget name)
  | list items => cases language <;> rfl
  | onList op => cases language <;> cases op <;> first | rfl | exact absurd rfl hl | cases hf
  | changeCase style => cases language <;> cases style <;> first | rfl | exact absurd rfl hl | cases hf
  | _ => cases hs

/-- an expression without a receiver slot has no receivers, unless it takes the end of a text -/
theorem Language.template_noReceiver {language : Language} (hl : language ≠ .dart) {form : Form}
    (hs : form.isStatement = false) (h : form.receiverSlot? language = none) (hlast : form ≠ .endString .last) :
    (language.template form).shape.noReceiver := by
  cases form using Form.byData with
  | plain form hm =>
    have hplain : ∀ form ∈ Form.plain, form.isStatement = false → form.receiverSlot? language = none →
        form ≠ .endString .last → (language.template form).shape.noReceiver := by
      cases language with
      | dart => exact absurd rfl hl
      | _ => decide +kernel
    exact hplain form hm hs h hlast
  | list items =>
    have hplaces (place : Nat → List Piece) (hp : ∀ i, Piece.noAccess (place i)) (close : Piece)
        (hc : Piece.noAccess [close]) : Piece.noAccess
          (.flatten [Template.separated [", "] ((List.range (items + 3)).map place), [close]]) :=
      Piece.noAccess_composes.append (Piece.noAccess_composes.separated rfl fun i _ => hp i) (by simpa using hc)
    cases language with
    | dart => exact absurd rfl hl
    | javascript => exact hplaces (fun i => [.hole i]) (fun _ => rfl) "].join('')" rfl
    | python => exact hplaces (fun i => ["str(", .hole i, ")"]) (fun _ => rfl) "])" rfl
  | onList op => cases language <;> cases op <;> first | rfl | exact absurd rfl hl | cases h
  | changeCase style => cases language <;> cases style <;> first | rfl | cases h
  | _ => first | (cases hs; done) | (cases language <;> rfl)

/-! ## Blocks whose code is exposed -/

/-- a block whose code starts with a minus sign: a number with one, or a construct that starts with such a block -/
inductive Block.LeadsMinus (language : Language) : Block → Prop
  | number {head : Head} {values statements : List (Nat × Block)} {next : Option Block} {literal : String} :
      head.form = .ok (.number literal) → StartsMinus (language.numberLiteral (.parsePrefix literal)) →
      LeadsMinus language (.mk head values statements next)
  | front {head : Head} {values statements : List (Nat × Block)} {next : Option Block} {form : Form} {slot : Nat}
      {child : Block} : head.form = .ok form → form.frontSlot? language = some slot →
      Slots.get? slot values = some child → LeadsMinus language child →
      LeadsMinus language (.mk head values statements next)

/-- a number that is written with digits only -/
inductive Block.IsWholeNumber (language : Language) : Block → Prop
  | mk {head : Head} {values statements : List (Nat × Block)} {next : Option Block} {literal : String} :
      head.form = .ok (.number literal) → IsDigits (language.numberLiteral (.parsePrefix literal)) →
      IsWholeNumber language (.mk head values statements next)

/-- an exposed block in the place of a receiver, anywhere in a tree -/
inductive Block.Exposes (language : Language) : Block → Prop
  | receiver {head : Head} {values statements : List (Nat × Block)} {next : Option Block} {form : Form} {slot : Nat}
      {child : Block} : head.form = .ok form → form.receiverSlot? language = some slot →
      Slots.get? slot values = some child → child.LeadsMinus language ∨ child.IsWholeNumber language →
      Exposes language (.mk head values statements next)
  | inner {head : Head} {values statements : List (Nat × Block)} {next : Option Block} {form : Form} {slot : Nat}
      {child : Block} : head.form = .ok form → .value slot ∈ form.visits → Slots.get? slot values = some child →
      Exposes language child → Exposes language (.mk head values statements next)

/-- code that tells whether its block is exposed -/
structure Block.Tells (language : Language) (block : Block) (code : String) : Prop where
  ne_empty : code ≠ ""
  minus : StartsMinus code ↔ block.LeadsMinus language
  digits : IsDigits code ↔ block.IsWholeNumber language

theorem Block.Tells.isExposed_iff {language : Language} {block : Block} {code : String} (h : block.Tells language code) :
    IsExposed code ↔ block.LeadsMinus language ∨ block.IsWholeNumber language :=
  or_congr h.minus h.digits

/-- what a step of an expression leaves: a value that was asked for with brackets around an operator tells about the
block in its slot, and is the text that stands in when there is none; a name is an identifier, that of a helper may be
missing -/
structure Step.Shows (language : Language) (values : List (Nat × Block)) (step : Step) (text : String) : Prop where
  operand : ∀ slot absent, step = .value slot false absent →
    match Slots.get? slot values with
    | none => text = absent
    | some child => child.Tells language text
  name : step.isName → text = "" ∨ Names.IsIdentifier text
  issued : step.isName → (∀ helper, step ≠ .helper helper) → Names.IsIdentifier text

theorem Step.Shows.of_identifier {language : Language} {values : List (Nat × Block)} {step : Step} {text : String}
    (hs : step.isName) (h : Names.IsIdentifier text) : step.Shows language values text := by
  refine ⟨?_, fun _ => .inr h, fun _ _ => h⟩
  rintro slot absent rfl
  cases hs

section Tells

variable {language : Language} {head : Head} {values statements : List (Nat × Block)} {next : Option Block}
  {form : Form} {texts : List String}

/-- covered code of a construct that is no number and does not start with an operand -/
theorem Block.Tells.of_isCovered {code : String} (hform : head.form = .ok form) (hf : form.frontSlot? language = none)
    (hnumber : ∀ literal, form ≠ .number literal) (h : IsCovered code) :
    (Block.mk head values statements next).Tells language code := by
  refine ⟨h.ne_empty, iff_of_false h.not_startsMinus ?_, iff_of_false h.not_isDigits ?_⟩
  · rintro (⟨hother, -⟩ | ⟨hother, hslot, -, -⟩)
    · exact hnumber _ (Except.ok.inj (hform.symm.trans hother))
    · cases hform.symm.trans hother
      rw [hf] at hslot
      cases hslot
  · rintro ⟨hother, -⟩
    exact hnumber _ (Except.ok.inj (hform.symm.trans hother))

theorem Block.Tells.of_number {literal : String} (hform : head.form = .ok (.number literal)) :
    (Block.mk head values statements next).Tells language (language.numberLiteral (.parsePrefix literal)) := by
  refine ⟨(IsWord.numberLiteral language _).ne_empty, ⟨.number hform, ?_⟩, ⟨.mk hform, ?_⟩⟩
  · rintro (⟨hother, hminus⟩ | ⟨hother, hslot, -, -⟩)
    · cases hform.symm.trans hother
      exact hminus
    · cases hform.symm.trans hother
      cases language <;> cases hslot
  · rintro ⟨hother, hdigits⟩
    cases hform.symm.trans hother
    exact hdigits

/-- code that starts with an operand starts with a minus sign as the operand does, and is never digits alone -/
theorem Block.Tells.of_front {code behind absent : String} {slot : Nat} (hform : head.form = .ok form)
    (hf : form.frontSlot? language = some slot) (hshows : (Step.value slot false absent).Shows language values code)
    (habsent : IsCovered absent) (hbehind : IsCovered behind) :
    (Block.mk head values statements next).Tells language (code ++ behind) := by
  have hoperand := hshows.operand slot absent rfl
  have hnumber : ∀ literal, form ≠ .number literal := by
    rintro literal rfl
    cases language <;> cases hf
  -- how the whole block starts is how the block in the front slot starts
  have hlead : (Block.mk head values statements next).LeadsMinus language ↔
      ∃ child, Slots.get? slot values = some child ∧ child.LeadsMinus language := by
    constructor
    · rintro (⟨hother, -⟩ | ⟨hother, hslot, hchild, hminus⟩)
      · exact absurd (Except.ok.inj (hform.symm.trans hother)) (hnumber _)
      · cases hform.symm.trans hother
        cases hf.symm.trans hslot
        exact ⟨_, hchild, hminus⟩
    · rintro ⟨child, hchild, hminus⟩
      exact .front hform hf hchild hminus
  have hcode : code ≠ "" ∧ (StartsMinus code ↔ (Block.mk head values statements next).LeadsMinus language) := by
    rw [hlead]
    cases hslot : Slots.get? slot values with
    | none =>
      rw [hslot] at hoperand
      rw [hoperand]
      exact ⟨habsent.ne_empty, iff_of_false habsent.not_startsMinus (by simp)⟩
    | some child =>
      rw [hslot] at hoperand
      exact ⟨hoperand.ne_empty, by simpa using hoperand.minus⟩
  refine ⟨?_, (startsMinus_append hcode.1 behind).trans hcode.2, iff_of_false (not_isDigits_append code hbehind) ?_⟩
  · intro hempty
    exact hcode.1 (String.append_eq_empty_iff.1 hempty).1
  · rintro ⟨hother, -⟩
    exact hnumber _ (Except.ok.inj (hform.symm.trans hother))

/-- **The code of an expression tells whether its block is exposed**, if the texts left by its steps do. -/
theorem Block.tells_render (hl : language ≠ .dart) (hform : head.form = .ok form) (hs : form.isStatement = false)
    (h : List.Forall₂ (Step.Shows language values) ((language.template form).steps.filter Step.leavesText) texts) :
    (Block.mk head values statements next).Tells language ((language.template form).render texts false) := by
  cases hfront : form.frontSlot? language with
  | some slot =>
    have hreceives := Language.template_receives hl (Form.receiverSlot?_of_frontSlot? hfront)
    rw [hfront] at hreceives
    obtain ⟨absent, hstep, habsent⟩ := hreceives.step
    obtain ⟨behind, hrender, hbehind⟩ := hreceives.render texts
    rw [hrender]
    exact .of_front hform hfront (Piece.rel_textAt_of_getElem? h hstep) habsent hbehind
  | none =>
    by_cases hnumber : ∃ literal, form = .number literal
    · obtain ⟨literal, rfl⟩ := hnumber
      have hcode : (language.template (.number literal)).render texts false =
          language.numberLiteral (.parsePrefix literal) ++ "" := by cases language <;> rfl
      rw [hcode, String.append_empty]
      exact .of_number hform
    · have hother : ∀ literal, form ≠ .number literal := fun literal hf => hnumber ⟨literal, hf⟩
      refine .of_isCovered hform hfront hother ?_
      by_cases htext : ∃ content, form = .text content
      · obtain ⟨content, rfl⟩ := htext
        have hcode : (language.template (.text content)).render texts false = language.quote content ++ "" := by
          cases language <;> rfl
        rw [hcode]
        exact (IsCovered.quote language content).append ""
      · by_cases hget : ∃ name, form = .get name
        · obtain ⟨name, rfl⟩ := hget
          have hcode : (language.template (.get name)).render texts false = Piece.textAt texts 0 ++ "" := by
            cases language <;> rfl
          have hstep : ((language.template (.get name)).steps.filter Step.leavesText)[0]? =
              some (.userVariable name) := by cases language <;> rfl
          have hname := (Piece.rel_textAt_of_getElem? h hstep).issued rfl fun _ hh => nomatch hh
          rw [hcode]
          exact (IsCovered.identifier hname).append ""
        · have hcovered := Language.template_isCovered hl hs hfront hother (fun content hf => htext ⟨content, hf⟩)
            fun name hf => hget ⟨name, hf⟩
          refine Template.isCovered_render hcovered ?_
          rw [Step.names, List.forall₂_map_left_iff]
          exact h.imp fun step text hshows => hshows.name

end Tells

/-! ## Runs -/

section Runs

variable {language : Language} {form : Form} {values statements : List (Nat × Block)}

/-- the blocks in the value slots that are visited tell whether they are exposed -/
def ToldBy (language : Language) (values : List (Nat × Block)) (visits : List Visit) : Prop :=
  ∀ slot, .value slot ∈ visits → ∀ child, Slots.get? slot values = some child →
    (child.code (.standard language) false).Makes (child.Tells language) ∧
      (child.code (.standard language) true).Makes fun _ => True

/-- a value slot gives what tells about the block in it -/
theorem Site.makes_shows {slot : Nat} {bare : Bool} {absent : String}
    (h : ∀ child, Slots.get? slot values = some child →
      (child.code (.standard language) false).Makes (child.Tells language) ∧
        (child.code (.standard language) true).Makes fun _ => True) :
    (Site.value ⟨Block.emissions (.standard language) values, Block.emissions (.standard language) statements⟩ slot bare
      absent).Makes ((Step.value slot bare absent).Shows language values) := by
  have hvalue : (Site.value? ⟨Block.emissions (.standard language) values,
      Block.emissions (.standard language) statements⟩ slot bare).Makes fun found => bare = false →
        match Slots.get? slot values with
        | none => found = none
        | some child => ∃ text, found = some text ∧ child.Tells language text := by
    unfold Site.value?
    simp only [Block.get?_emissions]
    cases hslot : Slots.get? slot values with
    | none => exact Gen.makes_pure fun _ => rfl
    | some child =>
      obtain ⟨hguarded, hbare⟩ := h child hslot
      cases bare with
      | true => exact hbare.bind fun code _ => Gen.makes_pure fun hfalse => nomatch hfalse
      | false =>
        refine hguarded.bind fun code hcode => Gen.makes_pure fun _ => ⟨code, ?_, hcode⟩
        rw [if_neg]
        simpa using hcode.ne_empty
  refine hvalue.bind fun found hfound => Gen.makes_pure ⟨?_, fun h => (nomatch h), fun h => (nomatch h)⟩
  rintro _ _ ⟨⟩
  have hfound := hfound rfl
  cases hslot : Slots.get? slot values with
  | none =>
    rw [hslot] at hfound
    rw [hfound]
    rfl
  | some child =>
    rw [hslot] at hfound
    obtain ⟨text, rfl, htells⟩ := hfound
    exact htells

/-- **One step of an expression** leaves what tells about the block it visits, or a name. -/
theorem Step.makes_shows {step : Step} (hm : step ∈ (language.template form).steps) (ho : step.isOperand)
    (h : ToldBy language values form.visits) (texts : List String) :
    (step.run ⟨Block.emissions (.standard language) values, Block.emissions (.standard language) statements⟩ texts).Makes
      (Appends (Step.Shows language values) [step] texts) := by
  cases step with
  | value slot bare absent =>
    exact yields_text rfl (Site.makes_shows (h slot (mem_visits_of_step hm List.mem_cons_self)))
  | userVariable user => exact yields_text rfl ((Gen.makes_nameOf _ user).imp fun _ => .of_identifier rfl)
  | fresh base => exact yields_text rfl ((Gen.makes_freshName base).imp fun _ => .of_identifier rfl)
  | temporary base => exact yields_text rfl ((Gen.makes_declareTemporary base).imp fun _ => .of_identifier rfl)
  | helper helper =>
    refine yields_text rfl ((Gen.makes_provide _ _ _).imp fun text htext => ⟨?_, fun _ => htext, ?_⟩)
    · exact fun _ _ h => nomatch h
    · exact fun _ hother => absurd rfl (hother helper)
  | require library => exact yields_none rfl (Gen.makes_require _ _)
  | _ => cases ho

/-- all steps of an expression leave what tells about the blocks they visit -/
theorem Step.makes_showsAll (hs : form.isStatement = false) (h : ToldBy language values form.visits) :
    (Step.runAll ⟨Block.emissions (.standard language) values, Block.emissions (.standard language) statements⟩ []
      (language.template form).steps).Makes fun texts =>
        List.Forall₂ (Step.Shows language values) ((language.template form).steps.filter leavesText) texts := by
  refine (makes_runAll_of (fun step hm => makes_shows hm (language.steps_isOperand hs step hm) h) []).imp ?_
  rintro _ ⟨left, rfl, hleft⟩
  exact hleft

end Runs

/-- **The code of an expression tells whether its block is exposed.** -/
theorem Block.makes_tells {language : Language} (hl : language ≠ .dart) {block : Block} (h : block.IsValue) :
    (block.code (.standard language) false).Makes (block.Tells language) := by
  induction block with
  | mk head values statements next ihv _ _ =>
    intro pass hp
    rw [perform_code]
    cases hf : head.form with
    | error cause => exact ⟨hp, fun _ h => nomatch h⟩
    | ok form =>
      obtain ⟨hform, hchildren⟩ := h.of_form hf
      have htold : ToldBy language values form.visits := by
        intro slot hvisit child hc
        have hchild := hchildren slot hvisit child hc
        obtain ⟨entry, he, rfl⟩ := Slots.mem_of_get? hc
        exact ⟨ihv entry he hchild, (Block.makes_code language hchild true).imp fun _ _ => trivial⟩
      exact (Step.makes_showsAll hform htold).bind (fun texts htexts =>
        Gen.makes_pure (Block.tells_render hl hf hform htexts)) pass hp

/-! ## Receivers in runs -/

/-- among the events there is code with an exposed receiver -/
def HasExposed (language : Language) (events : List Event) : Prop :=
  ∃ form bare texts code, .code form bare texts code ∈ events ∧
    ∃ text ∈ (language.template form).receivers texts, IsExposed text

namespace HasExposed

variable {language : Language}

theorem not_nil : ¬ HasExposed language [] := by
  rintro ⟨_, _, _, _, hm, -⟩
  cases hm

theorem append_iff {before after : List Event} :
    HasExposed language (before ++ after) ↔ HasExposed language before ∨ HasExposed language after := by
  simp only [HasExposed, List.mem_append, or_and_right, exists_or]

theorem not_left (form : Form) (step : Step) (texts : List String) :
    ¬ HasExposed language (texts.map (.left form step)) := by
  rintro ⟨_, _, _, _, hm, -⟩
  obtain ⟨text, -, h⟩ := List.mem_map.1 hm
  cases h

theorem code_iff {form : Form} {bare : Bool} {texts : List String} {code : String} :
    HasExposed language [.code form bare texts code] ↔
      ∃ text ∈ (language.template form).receivers texts, IsExposed text := by
  constructor
  · rintro ⟨_, _, _, _, hm, hexposed⟩
    cases List.mem_singleton.1 hm
    exact hexposed
  · exact fun h => ⟨form, bare, texts, code, List.mem_singleton.2 rfl, h⟩

end HasExposed

section

variable {language : Language} {form : Form} {values statements : List (Nat × Block)}

/-- **The receivers of one construct**: one is exposed just when the block in the receiver slot is. -/
theorem Template.exists_isExposed_iff (hl : language ≠ .dart) (hs : form.isStatement = false) {texts : List String}
    (h : List.Forall₂ (Step.Shows language values) ((language.template form).steps.filter Step.leavesText) texts) :
    (∃ text ∈ (language.template form).receivers texts, IsExposed text) ↔
      ∃ slot child, form.receiverSlot? language = some slot ∧ Slots.get? slot values = some child ∧
        (child.LeadsMinus language ∨ child.IsWholeNumber language) := by
  cases hreceiver : form.receiverSlot? language with
  | some slot =>
    have hreceives := Language.template_receives hl hreceiver
    obtain ⟨absent, hstep, habsent⟩ := hreceives.step
    have hoperand := (Piece.rel_textAt_of_getElem? h hstep).operand slot absent rfl
    simp only [hreceives.receivers texts, List.mem_singleton, exists_eq_left, Option.some.injEq, exists_and_left,
      exists_eq_left']
    cases hslot : Slots.get? slot values with
    | none =>
      rw [hslot] at hoperand
      rw [hoperand]
      exact iff_of_false habsent.not_isExposed (by simp)
    | some child =>
      rw [hslot] at hoperand
      simpa using hoperand.isExposed_iff
  | none =>
    refine iff_of_false ?_ (by simp)
    rintro ⟨text, hm, hexposed⟩
    by_cases hlast : form = .endString .last
    · -- the end of a text: what stands in front of the access is the name of a temporary
      subst hlast
      cases language with
      | dart => exact hl rfl
      | python => cases hm
      | javascript =>
        have hstep : ((Language.javascript.template (.endString .last)).steps.filter Step.leavesText)[2]? =
            some (.temporary "temp_text") := rfl
        have hname := (Piece.rel_textAt_of_getElem? h hstep).issued rfl fun _ hh => nomatch hh
        have htext : text = Piece.textAt texts 2 := by
          have hreceivers : (Language.javascript.template (.endString .last)).receivers texts =
              [Piece.textAt texts 2, Piece.textAt texts 2] := rfl
          rw [hreceivers] at hm
          simpa using hm
        rw [htext] at hexposed
        exact (IsCovered.identifier hname).not_isExposed hexposed
    · rw [Template.receivers, Shape.receivers_eq_nil (Language.template_noReceiver hl hs hreceiver hlast)] at hm
      cases hm

/-- the events of a block in a run that succeeds show whether it has an exposed receiver -/
def Block.Reveals (language : Language) (block : Block) : Prop :=
  ∀ (bare : Bool) (pass after : Pass) (code : String), pass.WellNamed →
    pass.perform (block.code (.standard language) bare) = (.ok code, after) →
      (HasExposed language ((block.chronicle language).code bare pass) ↔ block.Exposes language)

/-- **One step**: an exposed receiver appears in its events just when the block it visits has one. -/
theorem Step.hasExposed_inner {step : Step} (ho : step.isOperand) {texts texts' : List String} {pass after : Pass}
    (hv : ∀ slot, .value slot ∈ step.visits → ∀ child, Slots.get? slot values = some child → child.Reveals language)
    (hp : pass.WellNamed)
    (hr : pass.perform (step.run ⟨Block.emissions (.standard language) values,
      Block.emissions (.standard language) statements⟩ texts) = (.ok texts', after)) :
    HasExposed language
        (step.inner (Block.chronicles language values) (Block.chronicles language statements) pass) ↔
      ∃ slot child, .value slot ∈ step.visits ∧ Slots.get? slot values = some child ∧ child.Exposes language := by
  cases step with
  | value slot bare absent =>
    simp only [inner, visits, List.mem_singleton, Visit.value.injEq, exists_and_left, exists_eq_left,
      Block.chronicles_eq_map, Slots.get?_map, Option.map_map]
    cases hslot : Slots.get? slot values with
    | none => exact iff_of_false HasExposed.not_nil (by simp)
    | some child =>
      obtain ⟨text, between, htext, -⟩ := Pass.perform_bind_ok hr
      obtain ⟨found, between, hfound, -⟩ := Pass.perform_bind_ok htext
      rcases Site.perform_value?_ok hfound with ⟨hnone, -⟩ | ⟨other, code, hsome, hcode⟩
      · simp [hslot] at hnone
      · rw [Block.get?_emissions, hslot, Option.map_some] at hsome
        cases hsome
        simpa using hv slot (List.mem_singleton.2 rfl) child hslot bare pass between code hp hcode
  | _ => first | (cases ho; done) | exact iff_of_false HasExposed.not_nil (by simp [visits])

/-- **All steps in a row.** -/
theorem Step.hasExposed_chronicle (htold : ToldBy language values form.visits) {steps : List Step}
    (hm : ∀ step ∈ steps, step ∈ (language.template form).steps) (ho : ∀ step ∈ steps, step.isOperand)
    (hv : ∀ slot, .value slot ∈ form.visits → ∀ child, Slots.get? slot values = some child → child.Reveals language)
    {texts texts' : List String} {pass after : Pass} (hp : pass.WellNamed)
    (hr : pass.perform (Step.runAll ⟨Block.emissions (.standard language) values,
      Block.emissions (.standard language) statements⟩ texts steps) = (.ok texts', after)) :
    HasExposed language
        (Step.chronicle form ⟨Block.emissions (.standard language) values,
          Block.emissions (.standard language) statements⟩ (Block.chronicles language values)
          (Block.chronicles language statements) texts steps pass) ↔
      ∃ slot child, .value slot ∈ steps.flatMap Step.visits ∧ Slots.get? slot values = some child ∧
        child.Exposes language := by
  induction steps generalizing texts pass with
  | nil => exact iff_of_false HasExposed.not_nil (by simp)
  | cons step rest ih =>
    obtain ⟨hstep, hrest⟩ := List.forall_mem_cons.1 hm
    obtain ⟨hostep, horest⟩ := List.forall_mem_cons.1 ho
    obtain ⟨between, middle, hfirst, hothers⟩ := Pass.perform_bind_ok hr
    have hnamed : middle.WellNamed := by
      have hmakes : (step.run ⟨Block.emissions (.standard language) values,
        Block.emissions (.standard language) statements⟩ texts).Makes _ := Step.makes_shows hstep hostep htold texts
      have hafter := (hmakes pass hp).1
      rwa [hfirst] at hafter
    have hinner := Step.hasExposed_inner hostep (fun slot hvisit => hv slot (mem_visits_of_step hstep hvisit)) hp hfirst
    simp only [Step.chronicle, Pass.afterwards, hfirst, HasExposed.append_iff, hinner, HasExposed.not_left, false_or,
      ih hrest horest hnamed hothers, List.flatMap_cons, List.mem_append, or_and_right, exists_or]

end

/-- a block has an exposed receiver itself, or in a block that it visits -/
theorem Block.exposes_iff {language : Language} {head : Head} {values statements : List (Nat × Block)}
    {next : Option Block} {form : Form} (hform : head.form = .ok form) :
    (Block.mk head values statements next).Exposes language ↔
      (∃ slot child, .value slot ∈ form.visits ∧ Slots.get? slot values = some child ∧ child.Exposes language) ∨
      ∃ slot child, form.receiverSlot? language = some slot ∧ Slots.get? slot values = some child ∧
        (child.LeadsMinus language ∨ child.IsWholeNumber language) := by
  constructor
  · rintro (⟨hother, hslot, hchild, hexposed⟩ | ⟨hother, hvisit, hchild, hexposed⟩)
    · cases hform.symm.trans hother
      exact .inr ⟨_, _, hslot, hchild, hexposed⟩
    · cases hform.symm.trans hother
      exact .inl ⟨_, _, hvisit, hchild, hexposed⟩
  · rintro (⟨slot, child, hvisit, hchild, hexposed⟩ | ⟨slot, child, hslot, hchild, hexposed⟩)
    · exact .inner hform hvisit hchild hexposed
    · exact .receiver hform hslot hchild hexposed

/-- **The events of an expression** show whether it has an exposed receiver. -/
theorem Block.reveals {language : Language} (hl : language ≠ .dart) {block : Block} (h : block.IsValue) :
    block.Reveals language := by
  induction block with
  | mk head values statements next ihv _ _ =>
    intro bare pass after code hp hr
    rw [perform_code] at hr
    cases hf : head.form with
    | error cause =>
      rw [hf] at hr
      cases hr
    | ok form =>
      rw [hf] at hr
      obtain ⟨hform, hchildren⟩ := h.of_form hf
      obtain ⟨texts, middle, htexts, -⟩ := Pass.perform_bind_ok hr
      have htold : ToldBy language values form.visits := fun slot hvisit child hc =>
        ⟨Block.makes_tells hl (hchildren slot hvisit child hc),
          (Block.makes_code language (hchildren slot hvisit child hc) true).imp fun _ _ => trivial⟩
      have hshows : List.Forall₂ (Step.Shows language values) ((language.template form).steps.filter Step.leavesText)
          texts :=
        (Step.makes_showsAll hform htold pass hp).2 texts (by rw [htexts])
      have hinner := Step.hasExposed_chronicle htold (fun _ h => h) (language.steps_isOperand hform)
        (fun slot hvisit child hc => by
          have hchild := hchildren slot hvisit child hc
          obtain ⟨entry, he, rfl⟩ := Slots.mem_of_get? hc
          exact ihv entry he hchild) hp htexts
      rw [steps_visits] at hinner
      rw [chronicle_code next bare hf htexts, HasExposed.append_iff, HasExposed.code_iff, hinner, Template.exists_isExposed_iff hl hform hshows,
        Block.exposes_iff hf]

/-- **Where a receiver is exposed.** In JavaScript and Python, when an expression is generated from any state that a
run reaches, for either kind of place, then among all code generated on the way some receiver starts with a minus sign
or is digits alone just when the expression has a number of that kind, or code that starts with one, where a receiver
is expected. -/
theorem receivers_exposed_iff {language : Language} (hl : language ≠ .dart) {block : Block} (hv : block.IsValue)
    {pass after : Pass} (hp : pass.Reachable language) {bare : Bool} {code : String}
    (hr : pass.perform (block.code (.standard language) bare) = (.ok code, after)) :
    (∃ form place texts text, .code form place texts text ∈ (block.chronicle language).code bare pass ∧
      ∃ receiver ∈ (language.template form).receivers texts, StartsMinus receiver ∨ IsDigits receiver) ↔
    block.Exposes language :=
  Block.reveals hl hv bare pass after code hp.wellNamed.1 hr

def numberLength : Block :=
  .mk (Head.bare Kind.length.name) [(0, .number "5")] [] none

def numberUpper : Block :=
  .mk { Head.bare Kind.changeCase.name with labels := [(0, "UPPERCASE")] } [(0, .number "5")] [] none

def numberLetter : Block :=
  .mk (Head.bare Kind.charAt.name) [(0, .number "1"), (1, .number "-5")] [] none

theorem numberLength_exposed :
    Language.javascript ≠ .dart ∧ numberLength.IsValue ∧ (Pass.start .javascript).Reachable .javascript ∧
      (Pass.start .javascript).perform (numberLength.code (.standard .javascript) true) =
        (.ok "5.length", .start .javascript) ∧
      ∃ form place texts text,
        .code form place texts text ∈ (numberLength.chronicle .javascript).code true (.start .javascript) ∧
          ∃ receiver ∈ (Language.javascript.template form).receivers texts, StartsMinus receiver ∨ IsDigits receiver := by
  have hnumber : (Block.number "5").IsValue := .of_values .number rfl rfl (by simp)
  have hvalue : numberLength.IsValue := .of_values .length rfl rfl (by simpa using hnumber)
  have hcode : (Pass.start .javascript).perform (numberLength.code (.standard .javascript) true) =
      (.ok "5.length", .start .javascript) := by decide +kernel
  have hexposes : numberLength.Exposes .javascript :=
    .receiver rfl rfl rfl (.inr (.mk rfl (by decide +kernel)))
  exact ⟨by decide, hvalue, .start, hcode, (receivers_exposed_iff (by decide) hvalue .start hcode).2 hexposes⟩

/-- numbers in front of an access: two programs that cannot be read, and one that negates a letter -/
theorem number_receivers_exposed :
    generate .javascript [numberLength] = .ok "5.length;\n" ∧ generate .python [numberUpper] = .ok "5.upper()\n" ∧
      generate .javascript [numberLetter] = .ok "-5[0];\n" ∧
      .code .length true ["5"] "5.length" ∈ programChronicle .javascript [numberLength] ∧
      (Language.javascript.template .length).receivers ["5"] = ["5"] ∧ IsDigits "5" ∧
      .code (.changeCase .upper) true ["5"] "5.upper()" ∈ programChronicle .python [numberUpper] ∧
      (Language.python.template (.changeCase .upper)).receivers ["5"] = ["5"] ∧
      .code .charAt true ["1", "-5"] "-5[0]" ∈ programChronicle .javascript [numberLetter] ∧
      (Language.javascript.template .charAt).receivers ["1", "-5"] = ["-5"] ∧ StartsMinus "-5" := by
  decide +kernel

end Blockwork
