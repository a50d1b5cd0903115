/-
Where constructs put what their slots hold.

- `Piece.left_mem_segments`: a place keeps a text as it is, in brackets at most, unless it is a plain numeral.
- `Language.written`: the code of a construct; for a procedure in Dart, which leaves none, that of its function.
- `Template.placesAll`: a check on a statement as data. Each operand has a place, and each body one behind a line end of
  the template; `Language.pieces_placed`: all statements pass it.
- `Language.written_splices_value`, `Language.written_splices_body`: so operands with a line feed are kept in what is
  written, and bodies start on a new line.
-/
import Blockwork.Proofs.Fragments
import Blockwork.Proofs.Hoisting
import Blockwork.Proofs.Splices
import Blockwork.Proofs.Suites

namespace Blockwork

/-! ## Texts that are kept -/

theorem numericLiteral?_of_newline {code : String} (h : '\n' ∈ code.toList) : numericLiteral? code = none := by
  rw [← String.ofList_toList (s := code)]
  exact numericLiteral?_of_mem (by decide) (by decide) (by decide) h

theorem Segment.exists_joined_eq {texts : List String} {segment : Segment} {segments : List Segment}
    (h : segment ∈ segments) : ∃ front back, joined texts segments = front ++ segment.code texts ++ back := by
  obtain ⟨before, after, rfl⟩ := List.append_of_mem h
  exact ⟨joined texts before, joined texts after, by rw [joined_append, joined, String.append_assoc]⟩

namespace Piece

variable {texts : List String} {i : Nat}

/-- **A piece keeps the text that it is for**, unless that is empty or a plain numeral. -/
theorem left_mem_segments (h : numericLiteral? (textAt texts i) = none) (hne : textAt texts i ≠ "") {piece : Piece}
    (ht : piece.takes i) : .left i ∈ piece.segments texts := by
  by_cases hp : piece.isProcedureBody = false
  · refine List.count_pos_iff.1 ?_
    rw [count_segments_of_takes h ht hp]
    exact Nat.one_pos
  · cases piece with
    | procedureBody statements result stop noop =>
      have hne : (textAt texts i).isEmpty = false := by simpa using hne
      rw [takes, Bool.or_eq_true, decide_eq_true_eq, decide_eq_true_eq] at ht
      rw [segments]
      rcases ht with rfl | rfl
      · split_ifs <;> simp_all
      · simp [hne]
    | _ => exact absurd rfl hp

/-! ## Bodies on a new line -/

/-- whether a piece is text of the template that ends a line -/
def isEnded : Piece → Bool
  | text code => code.toList.getLast? = some '\n'
  | _ => false

/-- whether a piece starts with a text, if that is not empty -/
def startsWith (i : Nat) : Piece → Bool
  | hole j => j = i
  | procedureBody statements _ _ _ => statements = i
  | _ => false

/-- whether a text has a place behind a line end of the template -/
def opensLine (i : Nat) : List Piece → Bool
  | [] => false
  | piece :: rest => (piece.isEnded && rest.head?.any (startsWith i)) || opensLine i rest

theorem opensLine_append_left {pieces : List Piece} (h : opensLine i pieces) (back : List Piece) :
    opensLine i (pieces ++ back) := by
  induction pieces with
  | nil => cases h
  | cons piece rest ih =>
    rw [opensLine, Bool.or_eq_true] at h
    rw [List.cons_append, opensLine, Bool.or_eq_true]
    refine h.imp (fun hnext => ?_) ih
    cases rest with
    | nil => simp at hnext
    | cons next rest => exact hnext

theorem opensLine_append_right {pieces : List Piece} (h : opensLine i pieces) (front : List Piece) :
    opensLine i (front ++ pieces) := by
  induction front with
  | nil => exact h
  | cons piece rest ih =>
    rw [List.cons_append, opensLine, ih]
    exact Bool.or_true _

theorem endsLine_of_isEnded {piece : Piece} (h : piece.isEnded) (texts : List String) :
    EndsLine (piece.render texts) := by
  cases piece with
  | text code => exact of_decide_eq_true (p := code.toList.getLast? = some '\n') h
  | _ => cases h

theorem render_of_startsWith (hne : textAt texts i ≠ "") {piece : Piece} (h : piece.startsWith i) :
    ∃ back, piece.render texts = textAt texts i ++ back := by
  cases piece with
  | hole j =>
    obtain rfl : j = i := of_decide_eq_true h
    exact ⟨"", String.append_empty.symm⟩
  | procedureBody statements result stop noop =>
    obtain rfl : statements = i := of_decide_eq_true h
    have hwritten : (!(textAt texts statements).isEmpty) = true := by simpa using hne
    rw [render, Blockwork.procedureBody, if_pos hwritten]
    split_ifs
    · exact ⟨Text.indentation ++ "return " ++ textAt texts result ++ stop, by simp only [String.append_assoc]⟩
    · exact ⟨"", String.append_empty.symm⟩
  | _ => cases h

/-- **A text behind a line end starts a line.** -/
theorem renderAll_of_opensLine (hne : textAt texts i ≠ "") {pieces : List Piece} (h : opensLine i pieces) :
    ∃ front back, EndsLine front ∧ renderAll texts pieces = front ++ textAt texts i ++ back := by
  induction pieces with
  | nil => cases h
  | cons piece rest ih =>
    rw [opensLine, Bool.or_eq_true, Bool.and_eq_true] at h
    rcases h with ⟨hended, hnext⟩ | hrest
    · cases rest with
      | nil => cases hnext
      | cons next rest =>
        have hstarts : next.startsWith i := hnext
        obtain ⟨back, hback⟩ := render_of_startsWith hne hstarts
        refine ⟨piece.render texts, back ++ renderAll texts rest, endsLine_of_isEnded hended texts, ?_⟩
        rw [renderAll, renderAll, hback, String.append_assoc, String.append_assoc]
    · obtain ⟨front, back, hfront, hcode⟩ := ih hrest
      refine ⟨piece.render texts ++ front, back, hfront.behind, ?_⟩
      rw [renderAll, hcode, String.append_assoc, String.append_assoc, String.append_assoc]

/-- **A text with a place is kept**, if it has a line feed. -/
theorem renderAll_of_takes (h : '\n' ∈ (textAt texts i).toList) {pieces : List Piece} (ht : pieces.any (takes i)) :
    ∃ front back, renderAll texts pieces = front ++ textAt texts i ++ back := by
  obtain ⟨piece, hpiece, htakes⟩ := List.any_eq_true.1 ht
  have hne : textAt texts i ≠ "" := fun hempty => by rw [hempty] at h; cases h
  have hm := List.mem_flatMap.2 ⟨piece, hpiece, left_mem_segments (numericLiteral?_of_newline h) hne htakes⟩
  rw [← joined_flatMap]
  exact Segment.exists_joined_eq hm

end Piece

/-! ## What is written for a construct -/

/-- a procedure in Dart leaves no code where it stands, it is hoisted as a function -/
def Form.IsHoisted (language : Language) (form : Form) : Prop :=
  language = .dart ∧ ∃ user, form = .procedure user

namespace Language

/-- what is written for a construct: its code, or the function that it is hoisted as -/
def written (language : Language) (form : Form) (texts : List String) (bare : Bool) : String :=
  match language, form with
  | .dart, .procedure _ => (functionOf texts).source
  | _, _ => (language.template form).render texts bare

/-- the pieces of what is written for a statement -/
def pieces (language : Language) (form : Form) : List Piece :=
  match language, form with
  | .dart, .procedure _ => ["dynamic ", 0, "() \x7b\n", Target.Brace.procedureBody .dart, "\x7d"]
  | _, _ => (language.template form).shape.general.pieces

theorem written_of_not_isHoisted {language : Language} {form : Form} (h : ¬form.IsHoisted language)
    (texts : List String) (bare : Bool) :
    language.written form texts bare = (language.template form).render texts bare := by
  unfold written
  split
  next user => exact absurd ⟨rfl, user, rfl⟩ h
  next => rfl

theorem written_of_isStatement (language : Language) {form : Form} (hf : form.isStatement = true) (texts : List String)
    (bare : Bool) : language.written form texts bare = Piece.renderAll texts (language.pieces form) := by
  cases form with
  | loop mode => cases language <;> cases mode <;> rfl
  | _ => first | (cases hf; done) | (cases language <;> rfl)

end Language

/-! ## The places in statements -/

def Step.isBody : Step → Bool
  | branch _ => true
  | body _ => true
  | _ => false

/-- whether pieces have a place for the text of a step: any for an operand, and one on a new line for a body -/
def Step.isPlaced (pieces : List Piece) (i : Nat) (step : Step) : Bool :=
  (!step.isValue || pieces.any (Piece.takes i)) && (!step.isBody || Piece.opensLine i pieces)

/-- whether pieces have a place for each text that a template's steps leave -/
def Template.placesAll (template : Template) (pieces : List Piece) : Bool :=
  template.leaving.zipIdx.all fun step => step.1.isPlaced pieces step.2

theorem Template.isPlaced_of_getElem? {template : Template} {pieces : List Piece} (h : template.placesAll pieces)
    {i : Nat} {step : Step} (hi : template.leaving[i]? = some step) : step.isPlaced pieces i :=
  List.all_eq_true.1 h (step, i) (List.mem_zipIdx_iff_getElem?.2 hi)

@[simp]
theorem Step.isPlaced_value (pieces : List Piece) (i slot : Nat) (place : Bool) (absent : String) :
    (value slot place absent).isPlaced pieces i = pieces.any (Piece.takes i) := Bool.and_true _

@[simp]
theorem Step.isPlaced_branch (pieces : List Piece) (i slot : Nat) :
    (branch slot).isPlaced pieces i = Piece.opensLine i pieces := rfl

/-- a choice has a place for each condition and each branch, if each of its parts has -/
theorem Template.choice_placesAll (falsity : String) (elseifs : Nat) (otherwise : Bool) {condition : Nat → List Piece}
    {rest : List Piece} {shape : Shape}
    (hc : ∀ n, (condition n).any (Piece.takes (2 * n)) ∧ Piece.opensLine (2 * n + 1) (condition n))
    (hr : otherwise = true → Piece.opensLine (2 * (elseifs + 1)) rest) :
    Template.placesAll ⟨choiceSteps falsity elseifs otherwise, shape⟩
      ((List.range (elseifs + 1)).flatMap condition ++ rest) := by
  have hleaving : Template.leaving ⟨choiceSteps falsity elseifs otherwise, shape⟩ =
      choiceSteps falsity elseifs otherwise := choiceSteps_leaving falsity elseifs otherwise
  obtain ⟨hpairs, hlast⟩ := getElem?_choiceSteps falsity elseifs otherwise
  rw [placesAll, hleaving, List.all_eq_true]
  rintro ⟨step, i⟩ hm
  have hi : (choiceSteps falsity elseifs otherwise)[i]? = some step := List.mem_zipIdx_iff_getElem?.1 hm
  have hlt : i < (choiceSteps falsity elseifs otherwise).length := (List.getElem?_eq_some_iff.1 hi).1
  rw [length_choiceSteps] at hlt
  by_cases hcondition : i < 2 * (elseifs + 1)
  · -- each condition stands in front of its branch
    obtain ⟨n, hn, hparity⟩ : ∃ n ≤ elseifs, i = 2 * n ∨ i = 2 * n + 1 := ⟨i / 2, by omega, by omega⟩
    obtain ⟨before, behind, hrange⟩ := List.append_of_mem (List.mem_range.2 (Nat.lt_succ_of_le hn))
    rw [hrange, List.flatMap_append, List.flatMap_cons]
    rcases hparity with rfl | rfl
    · obtain rfl := Option.some.inj (hi.symm.trans (hpairs n hn).1)
      simp [(hc n).1]
    · obtain rfl := Option.some.inj (hi.symm.trans (hpairs n hn).2)
      exact Piece.opensLine_append_left
        (Piece.opensLine_append_right (Piece.opensLine_append_left (hc n).2 _) _) _
  · cases otherwise with
    | false => exact absurd hlt (by simpa using hcondition)
    | true =>
      rw [if_pos rfl] at hlt
      obtain rfl : i = 2 * (elseifs + 1) := by omega
      obtain rfl := Option.some.inj (hi.symm.trans (hlast rfl))
      exact Piece.opensLine_append_right (hr rfl) _

theorem Template.brace_choice_placesAll (language : Language) (elseifs : Nat) (otherwise : Bool) :
    (Target.Brace.choice language elseifs otherwise).placesAll
      (Target.Brace.choice language elseifs otherwise).shape.general.pieces := by
  have hcondition : ∀ n, (Target.Brace.conditionPieces n).any (Piece.takes (2 * n)) ∧
      Piece.opensLine (2 * n + 1) (Target.Brace.conditionPieces n) := by
    intro n
    unfold Target.Brace.conditionPieces
    split_ifs <;> simp [Piece.takes, Piece.opensLine, Piece.isEnded, Piece.startsWith]
  refine choice_placesAll _ elseifs otherwise hcondition ?_
  rintro rfl
  simp [Piece.opensLine, Piece.isEnded, Piece.startsWith]

theorem Template.python_choice_placesAll (elseifs : Nat) (otherwise : Bool) :
    (Target.Python.choice elseifs otherwise).placesAll
      (Target.Python.choice elseifs otherwise).shape.general.pieces := by
  have hcondition : ∀ n, (Target.Python.conditionPieces n).any (Piece.takes (2 * n)) ∧
      Piece.opensLine (2 * n + 1) (Target.Python.conditionPieces n) := by
    intro n
    unfold Target.Python.conditionPieces
    simp [Piece.takes, Piece.opensLine, Piece.isEnded, Piece.startsWith]
  refine choice_placesAll _ elseifs otherwise hcondition ?_
  rintro rfl
  simp [Piece.opensLine, Piece.isEnded, Piece.startsWith]

/-- **Every statement has a place for each operand, and one on a new line for each body.** -/
theorem Language.pieces_placed (language : Language) {form : Form} (hf : form.isStatement = true) :
    (language.template form).placesAll (language.pieces form) := by
  cases form with
  | choice elseifs otherwise =>
    cases language with
    | python => exact Template.python_choice_placesAll elseifs otherwise
    | _ => exact Template.brace_choice_placesAll _ elseifs otherwise
  | loop mode => cases language <;> cases mode <;> rfl
  | _ => first | (cases hf; done) | (cases language <;> rfl)

/-! ## Operands and bodies in what is written -/

namespace Language

variable {language : Language} {form : Form} {texts : List String} {i : Nat}

theorem isStatement_of_isBody {step : Step} (hm : step ∈ (language.template form).steps) (hb : step.isBody) :
    form.isStatement = true := by
  obtain ⟨slot, hslot⟩ : ∃ slot, .statement slot ∈ step.visits := by
    cases step with
    | branch slot => exact ⟨slot, List.mem_cons_self⟩
    | body slot => exact ⟨slot, List.mem_cons_self⟩
    | _ => cases hb
  have hvisit : .statement slot ∈ form.visits := mem_visits_of_step hm hslot
  exact Bool.of_not_eq_false fun hf => Form.no_statement_visited hf slot hvisit

/-- **An operand with a line feed is kept in what is written.** -/
theorem written_splices_value {slot : Nat} {place : Bool} {absent : String}
    (hi : (language.template form).leaving[i]? = some (.value slot place absent))
    (h : '\n' ∈ (Piece.textAt texts i).toList) (bare : Bool) :
    ∃ front back, language.written form texts bare = front ++ Piece.textAt texts i ++ back := by
  cases hf : form.isStatement with
  | true =>
    rw [language.written_of_isStatement hf]
    have hplaced := Template.isPlaced_of_getElem? (language.pieces_placed hf) hi
    rw [Step.isPlaced_value] at hplaced
    exact Piece.renderAll_of_takes h hplaced
  | false =>
    have hhoisted : ¬form.IsHoisted language := by
      rintro ⟨-, user, rfl⟩
      cases hf
    have hcount := Template.count_segments (language.template_takesEach hf) hi (numericLiteral?_of_newline h) bare
    have hm : .left i ∈ (language.template form).segments texts bare := by
      refine List.count_pos_iff.1 ?_
      rw [hcount]
      split_ifs <;> omega
    rw [written_of_not_isHoisted hhoisted, ← Template.joined_segments]
    exact Segment.exists_joined_eq hm

/-- **A body starts a line of what is written.** -/
theorem written_splices_body {step : Step} (hi : (language.template form).leaving[i]? = some step) (hb : step.isBody)
    (hne : Piece.textAt texts i ≠ "") (bare : Bool) :
    ∃ front back, EndsLine front ∧ language.written form texts bare = front ++ Piece.textAt texts i ++ back := by
  have hm : step ∈ (language.template form).steps := (List.mem_filter.1 (List.mem_of_getElem? hi)).1
  have hf := isStatement_of_isBody hm hb
  rw [language.written_of_isStatement hf]
  have hplaced := Template.isPlaced_of_getElem? (language.pieces_placed hf) hi
  rw [Step.isPlaced, hb, Bool.and_eq_true] at hplaced
  exact Piece.renderAll_of_opensLine hne hplaced.2

end Language

end Blockwork
