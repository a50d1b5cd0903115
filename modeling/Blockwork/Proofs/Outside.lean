/-
What stands outside all brackets and literals of a text, and code that no operator put beside it can split.

- `Text.outside`: the characters of a text outside its literals and brackets. Balanced code in brackets has none
  (`Balanced.outside_bracketed`), and balanced code leaves the depth of what stands behind it as it was
  (`Balanced.depthFrom`).
- `Atomic`: no blank stands outside. Names, numbers, literals, and whatever was made a receiver are atomic.
- `Template.isAtomic`: a check on a template as data. It scans the layouts with the depth of brackets, and asks at
  depth zero for operands that are atomic themselves.
- `Language.template_isAtomic`: every construct that makes an expression passes it in every target.
- `Template.atomic_render`: with atomic texts in those places, the code of a construct is atomic.
-/
import Blockwork.Proofs.Balance

namespace Blockwork

namespace Text

/-! ## Depth of brackets -/

/-- how many brackets are open behind a character -/
def depthAfter (depth : Nat) (c : Char) : Nat :=
  if (closing? c).isSome then depth + 1 else if isBracket c then depth - 1 else depth

def depthFrom (depth : Nat) (cs : List Char) : Nat :=
  cs.foldl depthAfter depth

/-- the characters that stand outside all brackets, `depth` of them being open at the start -/
def outsideFrom : Nat → List Char → List Char
  | _, [] => []
  | depth, c :: cs => (if depth = 0 ∧ !isBracket c then [c] else []) ++ outsideFrom (depthAfter depth c) cs

/-- the characters of a text outside its literals and its brackets -/
def outside (code : String) : List Char :=
  outsideFrom 0 (blankFrom false code.toList)

theorem outsideFrom_append (depth : Nat) (cs ds : List Char) :
    outsideFrom depth (cs ++ ds) = outsideFrom depth cs ++ outsideFrom (depthFrom depth cs) ds := by
  induction cs generalizing depth with
  | nil => rfl
  | cons c cs ih =>
    rw [List.cons_append, outsideFrom, outsideFrom, ih, List.append_assoc]
    rfl

theorem mem_of_mem_outsideFrom {depth : Nat} {c : Char} {cs : List Char} (h : c ∈ outsideFrom depth cs) : c ∈ cs := by
  induction cs generalizing depth with
  | nil => exact h
  | cons d cs ih =>
    rw [outsideFrom, List.mem_append] at h
    rcases h with h | h
    · split_ifs at h
      · exact List.mem_singleton.1 h ▸ List.mem_cons_self
      · cases h
    · exact List.mem_cons_of_mem _ (ih h)

theorem mem_of_mem_blankFrom {inside : Bool} {c : Char} {cs : List Char} (h : c ∈ blankFrom inside cs) : c ∈ cs := by
  induction inside, cs using blankFrom.induct with
  | case1 => exact h
  | case2 d cs ih =>
    rw [blankFrom, List.mem_cons] at h
    exact List.mem_cons.2 (h.imp_right ih)
  | case3 cs ih =>
    rw [blankFrom, List.mem_cons] at h
    exact List.mem_cons.2 (h.imp_right ih)
  | case4 d cs ih =>
    rw [blankFrom] at h
    exact List.mem_cons_of_mem _ (List.mem_cons_of_mem _ (ih h))
  | case5 d cs hquote hescape ih =>
    rw [blankFrom] at h
    · exact List.mem_cons_of_mem _ (ih h)
    · exact hquote
    · exact hescape

theorem depthAfter_of_meet {expected between : List Char} {c : Char} (hb : isBracket c)
    (h : meet expected c = some between) (depth : Nat) :
    depthAfter (expected.length + depth) c = between.length + depth := by
  unfold meet at h
  unfold depthAfter
  cases hc : closing? c with
  | some close =>
    rw [hc] at h
    cases h
    rw [Option.isSome_some, if_pos rfl, List.length_cons]
    omega
  | none =>
    rw [hc] at h
    cases expected with
    | nil => cases h
    | cons close rest =>
      simp only at h
      split_ifs at h
      cases h
      rw [Option.isSome_none, if_neg Bool.false_ne_true, if_pos hb, List.length_cons]
      omega

theorem depthAfter_of_not_isBracket {c : Char} (h : isBracket c = false) (depth : Nat) : depthAfter depth c = depth := by
  have hopening : closing? c = none := by
    unfold closing?
    split
    · cases h
    · cases h
    · cases h
    · rfl
  rw [depthAfter, hopening, Option.isSome_none, if_neg Bool.false_ne_true, h, if_neg Bool.false_ne_true]

/-- nested brackets change the depth as they change what is expected, and never come out of brackets that were open
before -/
theorem depthFrom_of_nest {expected after cs : List Char} (h : nest expected (cs.filter isBracket) = some after)
    (depth : Nat) :
    depthFrom (expected.length + depth) cs = after.length + depth ∧
      (0 < depth → outsideFrom (expected.length + depth) cs = []) := by
  induction cs generalizing expected with
  | nil =>
    cases h
    exact ⟨rfl, fun _ => rfl⟩
  | cons c cs ih =>
    have hhead : 0 < depth → ¬ (expected.length + depth = 0 ∧ (!isBracket c) = true) := by omega
    cases hb : isBracket c with
    | true =>
      rw [List.filter_cons_of_pos hb, nest_cons, Option.bind_eq_some_iff] at h
      obtain ⟨between, hmeet, hrest⟩ := h
      obtain ⟨hdepth, hnone⟩ := ih hrest
      have hafter := depthAfter_of_meet hb hmeet depth
      refine ⟨?_, fun hd => ?_⟩
      · rw [depthFrom, List.foldl_cons, hafter]
        exact hdepth
      · rw [outsideFrom, if_neg (hhead hd), hafter]
        exact hnone hd
    | false =>
      rw [List.filter_cons_of_neg (by simp [hb])] at h
      obtain ⟨hdepth, hnone⟩ := ih h
      have hafter := depthAfter_of_not_isBracket hb (expected.length + depth)
      refine ⟨?_, fun hd => ?_⟩
      · rw [depthFrom, List.foldl_cons, hafter]
        exact hdepth
      · rw [outsideFrom, if_neg (hhead hd), hafter]
        exact hnone hd

/-- one whole literal shows nothing but its quotes -/
theorem blankFrom_of_isLiteral {cs : List Char} (h : isLiteral cs) : blankFrom false cs = ['\'', '\''] := by
  have hclose : ∀ us : List Char, closesAtEnd us → blankFrom true us = ['\''] := by
    intro us hus
    induction us using closesAtEnd.induct with
    | case1 => cases hus
    | case2 => rfl
    | case3 us hne =>
      rw [closesAtEnd] at hus
      · cases hus
      · exact hne
    | case4 c us ih =>
      rw [closesAtEnd, Bool.and_eq_true] at hus
      rw [blankFrom]
      exact ih hus.2
    | case5 => cases hus
    | case6 c us h1 h2 h3 h4 ih =>
      rw [closesAtEnd] at hus
      · rw [blankFrom]
        · exact ih hus
        · exact h2
        · exact h3
      all_goals assumption
  cases cs with
  | nil => cases h
  | cons c cs =>
    unfold isLiteral at h
    split at h
    next us he =>
      cases he
      rw [blankFrom]
      exact congrArg _ (hclose _ h)
    next => cases h

end Text

/-! ## Atomic code -/

/-- code without a blank outside its literals and brackets: an operator beside it cannot split it -/
def Atomic (code : String) : Prop :=
  ' ' ∉ Text.outside code

instance : DecidablePred Atomic := fun _ => inferInstanceAs (Decidable (¬ _))

namespace Balanced

variable {a : String}

theorem depthFrom (h : Balanced a) (depth : Nat) : Text.depthFrom depth (Text.blankFrom false a.toList) = depth := by
  simpa using (Text.depthFrom_of_nest h.nested depth).1

/-- inside brackets, nothing of balanced code stands outside -/
theorem outsideFrom (h : Balanced a) {depth : Nat} (hd : 0 < depth) :
    Text.outsideFrom depth (Text.blankFrom false a.toList) = [] := by
  simpa using (Text.depthFrom_of_nest h.nested depth).2 hd

/-- **Balanced code in brackets shows nothing outside them.** -/
theorem outside_bracketed (h : Balanced a) : Text.outside (Blockwork.bracketed a) = [] := by
  have hopen : Text.Alike ['('] ['('] := .char '(' (by decide) .nil
  have hblank : Text.blankFrom false (Blockwork.bracketed a).toList =
      ['('] ++ (Text.blankFrom false a.toList ++ [')']) := by
    have hchars : (Blockwork.bracketed a).toList = ['('] ++ (a.toList ++ [')']) := by
      simp [Blockwork.bracketed]
    rw [hchars, hopen.blankFrom_append, Text.Alike.blankFrom_append h.alike]
    rfl
  rw [Text.outside, hblank, Text.outsideFrom_append, Text.outsideFrom_append]
  have hinner : Text.outsideFrom (Text.depthFrom 0 ['(']) (Text.blankFrom false a.toList) = [] :=
    h.outsideFrom (by decide)
  rw [hinner, h.depthFrom]
  rfl

end Balanced

namespace Atomic

variable {a : String}

theorem of_not_mem (h : ' ' ∉ a.toList) : Atomic a :=
  fun hm => h (Text.mem_of_mem_blankFrom (Text.mem_of_mem_outsideFrom hm))

theorem bracketed (h : Balanced a) : Atomic (bracketed a) := by
  rw [Atomic, h.outside_bracketed]
  exact List.not_mem_nil

example : ¬ Atomic "a + b" ∧ Atomic "(a + b)[0]" ∧ Atomic "'a + b'" := by decide

theorem guardMinus (ha : Atomic a) (h : Balanced a) : Atomic (guardMinus a) := by
  unfold Blockwork.guardMinus
  split_ifs
  · exact bracketed h
  · exact ha

/-- **Whatever is made a receiver is atomic.** -/
theorem receiver (h : Balanced a) : Atomic (receiver a) := by
  unfold Blockwork.receiver
  split_ifs with hr
  · rw [isReceiver, Bool.or_eq_true, Bool.and_eq_true, List.all_eq_true] at hr
    rcases hr with ⟨-, hword⟩ | hliteral
    · exact of_not_mem fun hm => absurd (hword _ hm) (by decide +kernel)
    · rw [Atomic, Text.outside, Text.blankFrom_of_isLiteral hliteral]
      decide
  · exact bracketed h

theorem identifier (h : Names.IsIdentifier a) : Atomic a := by
  obtain ⟨c, cs, hname, hc, -, hcs⟩ := h
  have hall : ∀ d ∈ a.toList, Names.isNameChar d := by
    rw [hname]
    exact List.forall_mem_cons.2 ⟨hc, hcs⟩
  exact of_not_mem fun hm => absurd (hall _ hm) (by decide)

theorem numberLiteral (language : Language) (x : Binary64) : Atomic (language.numberLiteral x) := by
  have hdigits : ∀ ds : List Char, (∀ c ∈ ds, c.isDigit) → ' ' ∉ ds := fun ds hd hm => absurd (hd _ hm) (by decide)
  have hnumeral : ∀ {cs : List Char}, IsNumeral cs → ' ' ∉ cs := by
    intro cs h hm
    cases h with
    | whole _ hd => exact hdigits _ hd hm
    | fraction _ hd _ he =>
      rcases List.mem_append.1 hm with hm | hm
      · exact hdigits _ hd hm
      · exact hdigits _ he ((List.mem_cons.1 hm).resolve_left (by decide))
  cases x with
  | nan => cases language <;> decide
  | infinite negative => cases language <;> cases negative <;> decide
  | finite negative m p =>
    by_cases hm : m = 0
    · subst hm
      rw [language.numberLiteral_zero]
      decide
    · refine of_not_mem fun hmem => ?_
      rw [language.numberLiteral_finite negative hm p] at hmem
      rcases List.mem_append.1 hmem with hmem | hmem
      · cases negative <;> exact absurd hmem (by decide)
      · exact hnumeral (language.isNumeral_magnitude m p) hmem

theorem quote (language : Language) (text : String) : Atomic (language.quote text) := by
  have hinterior := Text.interior_flatMap_escape language.interpolates text.toList
  rw [Atomic, Text.outside, Language.quote, String.toList_ofList, Text.quoteChars, Text.blankFrom]
  have hquote : ('\'' == '\'') = true := rfl
  rw [hquote, Text.blankFrom_interior hinterior]
  decide

end Atomic

/-! ## Templates of atomic code -/

/-- whether a step leaves atomic text: a name, or a value that was asked for with brackets around an operator -/
def Step.isAtom : Step → Bool
  | value _ bare absent => !bare && decide (Atomic absent)
  | branch _ => false
  | body _ => false
  | _ => true

/-- whether a step belongs to an expression: it visits no statements and hoists no procedure -/
def Step.isOperand : Step → Bool
  | branch _ => false
  | body _ => false
  | userProcedure _ => false
  | hoist _ _ _ => false
  | _ => true

/-- which of the texts that steps leave are atomic -/
def Step.atoms (steps : List Step) : List Bool :=
  (steps.filter leavesText).map isAtom

namespace Piece

/-- whether a piece that is no fixed text gives atomic code, `atoms` being the texts that are atomic -/
def isAtom (atoms : List Bool) : Piece → Bool
  | hole i => atoms.getD i true
  | receiver _ => true
  | guardMinus i => atoms.getD i true
  | _ => false

/-- the depth of brackets behind a piece -/
def depthAfter (depth : Nat) : Piece → Nat
  | text code => Text.depthFrom depth (Text.blankFrom false code.toList)
  | _ => depth

/-- whether a piece at a depth of brackets brings no blank outside them -/
def isTight (atoms : List Bool) (depth : Nat) : Piece → Bool
  | text code => !(Text.outsideFrom depth (Text.blankFrom false code.toList)).contains ' '
  | piece => depth != 0 || piece.isAtom atoms

def areTight (atoms : List Bool) : Nat → List Piece → Bool
  | _, [] => true
  | depth, piece :: rest => piece.isTight atoms depth && areTight atoms (piece.depthAfter depth) rest

/-- a piece that is no fixed text brings no brackets, and is judged as an operand -/
theorem of_not_text {piece : Piece} (h : ∀ code, piece ≠ .text code) :
    piece.brackets = [] ∧ (∀ depth, piece.depthAfter depth = depth) ∧
      ∀ atoms depth, piece.isTight atoms depth = (depth != 0 || piece.isAtom atoms) := by
  cases piece with
  | text code => exact absurd rfl (h code)
  | _ => exact ⟨rfl, fun _ => rfl, fun _ _ => rfl⟩

theorem areTight_append {atoms : List Bool} {depth : Nat} {before after : List Piece}
    (hb : areTight atoms depth before) (ha : areTight atoms (before.foldl depthAfter depth) after) :
    areTight atoms depth (before ++ after) := by
  induction before generalizing depth with
  | nil => exact ha
  | cons piece rest ih =>
    rw [areTight, Bool.and_eq_true] at hb
    rw [List.cons_append, areTight, hb.1, Bool.true_and]
    exact ih hb.2 ha

/-- pieces with matching brackets stay inside brackets that were open before them -/
theorem areTight_of_nest (atoms : List Bool) {expected after : List Char} {pieces : List Piece}
    (h : Text.nest expected (pieces.flatMap brackets) = some after) {depth : Nat} (hd : 0 < depth) :
    areTight atoms (expected.length + depth) pieces ∧
      pieces.foldl depthAfter (expected.length + depth) = after.length + depth := by
  induction pieces generalizing expected with
  | nil =>
    cases h
    exact ⟨rfl, rfl⟩
  | cons piece rest ih =>
    rw [List.flatMap_cons, Text.nest_append, Option.bind_eq_some_iff] at h
    obtain ⟨between, hpiece, hrest⟩ := h
    have hone : piece.isTight atoms (expected.length + depth) ∧
        piece.depthAfter (expected.length + depth) = between.length + depth := by
      by_cases ht : ∃ code, piece = .text code
      · obtain ⟨code, rfl⟩ := ht
        obtain ⟨hdepth, hnone⟩ := Text.depthFrom_of_nest hpiece depth
        refine ⟨?_, hdepth⟩
        rw [isTight, hnone hd]
        rfl
      · obtain ⟨hnone, hdepth, htight⟩ := of_not_text fun code hc => ht ⟨code, hc⟩
        rw [hnone] at hpiece
        cases hpiece
        rw [hdepth, htight]
        have hpositive : (expected.length + depth != 0) = true := bne_iff_ne.2 (by omega)
        exact ⟨by rw [hpositive, Bool.true_or], rfl⟩
    obtain ⟨htight, hdepth⟩ := ih hrest
    refine ⟨?_, ?_⟩
    · rw [areTight, hone.1, hone.2, htight]
      rfl
    · rw [List.foldl_cons, hone.2]
      exact hdepth

end Piece

/-- the check on a layout: an operator outside all brackets is put into brackets, anything else is atomic -/
def Layout.isAtomic (atoms : List Bool) (layout : Layout) : Bool :=
  layout.isLoose || Piece.areTight atoms 0 layout.pieces

def Shape.isAtomic (atoms : List Bool) : Shape → Bool
  | always layout => layout.isAtomic atoms
  | ordered _ _ rising falling unknown => rising.isAtomic atoms && falling.isAtomic atoms && unknown.isAtomic atoms

def Template.isAtomic (template : Template) : Bool :=
  template.steps.all Step.isOperand && template.shape.isAtomic (Step.atoms template.steps)

/-- a list of joined texts, whatever stands around each of them -/
theorem Template.list_isAtomic (items : Nat) {before after : List Piece} {place : Nat → List Piece}
    (hp : ∀ i, Piece.areNested (place i)) (hbefore : ∀ atoms, Piece.areTight atoms 0 before)
    (hdepth : 0 < before.foldl Piece.depthAfter 0)
    (hafter : ∀ atoms, Piece.areTight atoms (before.foldl Piece.depthAfter 0) after) :
    (tight ((List.range items).map fun slot => string slot true)
      (.flatten [before, separated [", "] ((List.range items).map place), after])).isAtomic := by
  have hsteps : ((List.range items).map fun slot => string slot true).all Step.isOperand :=
    List.all_eq_true.2 (strings_forall (fun _ => rfl) items)
  have hplaces : Piece.areNested (separated [", "] ((List.range items).map place)) :=
    Piece.areNested_composes.separated rfl fun i _ => hp i
  have hinner (atoms : List Bool) := Piece.areTight_of_nest atoms (Piece.areNested_iff.1 hplaces).2 hdepth
  simp only [List.length_nil, Nat.zero_add] at hinner
  have htight : ∀ atoms, Piece.areTight atoms 0
      (.flatten [before, separated [", "] ((List.range items).map place), after]) := by
    intro atoms
    have hflatten : List.flatten [before, separated [", "] ((List.range items).map place), after] =
        before ++ (separated [", "] ((List.range items).map place) ++ after) := by
      simp
    rw [hflatten]
    refine Piece.areTight_append (hbefore atoms) (Piece.areTight_append (hinner atoms).1 ?_)
    rw [(hinner atoms).2]
    exact hafter atoms
  simp only [isAtomic, tight, hsteps, Shape.isAtomic, Layout.isAtomic, Layout.tight, htight, Bool.or_true, Bool.and_self]

/-- **Every construct that makes an expression is written atomically**, texts themselves apart. -/
theorem Language.template_isAtomic (language : Language) (form : Form) (hs : form.isStatement = false)
    (h : ∀ content, form ≠ .text content) : (language.template form).isAtomic := by
  cases form using Form.byData with
  | plain form hm =>
    have hplain : ∀ form ∈ Form.plain, form.isStatement = false → (language.template form).isAtomic := by
      cases language <;> decide +kernel
    exact hplain form hm hs
  | number literal =>
    have hatomic := Atomic.numberLiteral language (Binary64.parsePrefix literal)
    cases language <;>
      simpa [template, Target.JavaScript.template, Target.Dart.template, Target.Python.template, Template.isAtomic,
        Template.tight, Shape.isAtomic, Layout.isAtomic, Layout.tight, Piece.areTight, Piece.isTight, Atomic,
        Text.outside] using hatomic
  | text content => exact absurd rfl (h content)
  | list items =>
    cases language <;> exact Template.list_isAtomic (items + 3) (fun _ => rfl) (fun _ => rfl) (by decide) fun _ => rfl
  | onList op => cases language <;> cases op <;> decide +kernel
  | changeCase style => cases language <;> cases style <;> decide +kernel
  | get name => cases language <;> rfl
  | _ => cases hs

/-- the steps of an expression visit no statements and hoist no procedure -/
theorem Language.steps_isOperand (language : Language) {form : Form} (hs : form.isStatement = false) :
    ∀ step ∈ (language.template form).steps, step.isOperand := by
  by_cases hform : ∃ content, form = .text content
  · obtain ⟨content, rfl⟩ := hform
    cases language <;> exact List.forall_mem_nil _
  · have hatomic := language.template_isAtomic form hs fun content hc => hform ⟨content, hc⟩
    rw [Template.isAtomic, Bool.and_eq_true] at hatomic
    exact List.all_eq_true.1 hatomic.1

/-! ## Rendering atomic texts -/

/-- a text in its place: balanced and, where the place asks for it, atomic -/
structure Operand (atom : Bool) (text : String) : Prop where
  balanced : Balanced text
  atomic : atom → Atomic text

section

variable {atoms : List Bool} {texts : List String}

theorem Operand.textAt (h : List.Forall₂ Operand atoms texts) (i : Nat) :
    Operand (atoms.getD i true) (Piece.textAt texts i) :=
  Piece.rel_textAt ⟨.empty, fun _ => by decide⟩ h i

theorem Operand.balanced_of_mem (h : List.Forall₂ Operand atoms texts) : ∀ text ∈ texts, Balanced text := by
  induction h with
  | nil => exact List.forall_mem_nil _
  | cons hone _ ih => exact List.forall_mem_cons.2 ⟨hone.balanced, ih⟩

/-- a piece that is no fixed text gives atomic code where it has to -/
theorem Piece.atomic_render (h : List.Forall₂ Operand atoms texts) {piece : Piece} (hp : piece.isAtom atoms) :
    Atomic (piece.render texts) := by
  have hat := Operand.textAt h
  cases piece with
  | hole i => exact (hat i).atomic hp
  | receiver i => exact .receiver (hat i).balanced
  | guardMinus i => exact ((hat i).atomic hp).guardMinus (hat i).balanced
  | _ => cases hp

/-- tight pieces bring no blank outside brackets, whatever depth they start at -/
theorem Piece.areTight_renderAll (h : List.Forall₂ Operand atoms texts) {pieces : List Piece}
    (hs : pieces.all isSafe) (he : pieces.all isEven) {depth : Nat} (ht : areTight atoms depth pieces) :
    ' ' ∉ Text.outsideFrom depth (Text.blankFrom false (renderAll texts pieces).toList) := by
  induction pieces generalizing depth with
  | nil => exact List.not_mem_nil
  | cons piece rest ih =>
    simp only [List.all_cons, Bool.and_eq_true] at hs he
    rw [areTight, Bool.and_eq_true] at ht
    have hrest := ih hs.2 he.2 ht.2
    -- what the piece itself brings, and the depth behind it
    have hpiece : AlikeCode (piece.render texts) (piece.render texts) ∧
        ' ' ∉ Text.outsideFrom depth (Text.blankFrom false (piece.render texts).toList) ∧
        Text.depthFrom depth (Text.blankFrom false (piece.render texts).toList) = piece.depthAfter depth := by
      by_cases hc : ∃ code, piece = .text code
      · obtain ⟨code, rfl⟩ := hc
        refine ⟨.of_isClosed hs.1, ?_, rfl⟩
        simpa [isTight, render] using ht.1
      · have hother : ∀ code, piece ≠ .text code := fun code he => hc ⟨code, he⟩
        have hbalanced := balanced_render (Operand.balanced_of_mem h) hs.1 he.1 hother
        obtain ⟨-, hdepth, htight⟩ := of_not_text hother
        refine ⟨hbalanced.alike, ?_, by rw [hbalanced.depthFrom, hdepth]⟩
        by_cases hd : depth = 0
        · subst hd
          have hatom : piece.isAtom atoms := by simpa [htight] using ht.1
          exact atomic_render h hatom
        · rw [hbalanced.outsideFrom (Nat.pos_of_ne_zero hd)]
          exact List.not_mem_nil
    rw [renderAll, String.toList_append, Text.Alike.blankFrom_append hpiece.1, Text.outsideFrom_append, hpiece.2.2,
      List.mem_append, not_or]
    exact ⟨hpiece.2.1, hrest⟩

theorem Shape.layout_isAtomic {shape : Shape} (h : shape.isAtomic atoms) (texts : List String) :
    (shape.layout texts).isAtomic atoms := by
  cases shape with
  | always layout => exact h
  | ordered first second rising falling unknown =>
    simp only [isAtomic, Bool.and_eq_true] at h
    exact layout_ordered (P := fun layout => layout.isAtomic atoms) h.1.1 h.1.2 h.2 texts

/-- **The code of an expression is atomic where brackets were asked for**, if the texts in its places are what its
steps leave. -/
theorem Template.atomic_render (language : Language) {form : Form} (hf : form.isStatement = false)
    (h : List.Forall₂ Operand (Step.atoms (language.template form).steps) texts) :
    Atomic ((language.template form).render texts false) := by
  by_cases hform : ∃ content, form = .text content
  · obtain ⟨content, rfl⟩ := hform
    have hcode : (language.template (.text content)).render texts false = language.quote content ++ "" := by
      cases language <;> rfl
    rw [hcode, String.append_empty]
    exact .quote language content
  · have hother : ∀ content, form ≠ .text content := fun content hc => hform ⟨content, hc⟩
    have hsafe := language.template_isSafe form hother
    have hnested := language.template_isNested form hother
    have hatomic := language.template_isAtomic form hf hother
    simp only [isSafe, isNested, isAtomic, Bool.and_eq_true] at hsafe hnested hatomic
    have hpieces := Shape.layout_isSafe hsafe.2 texts
    have heven := Shape.layout_areNested hnested.2 texts
    have hlayout := Shape.layout_isAtomic hatomic.2 texts
    unfold render Layout.render
    simp only
    split_ifs with hloose
    · exact .bracketed (Piece.balanced_renderAll (Operand.balanced_of_mem h) hpieces heven)
    · rw [Layout.isAtomic, Bool.eq_false_iff.2 hloose, Bool.false_or] at hlayout
      exact Piece.areTight_renderAll h hpieces (Piece.areNested_iff.1 heven).1 hlayout

end

end Blockwork
