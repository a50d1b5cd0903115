/-
Python expressions are phrases: within a line, with no white space in front and no colon at the end.

- `IsPhrase.between`: a phrase is closed by its two ends; names, numbers and literals are phrases.
- `Piece.opens`, `Piece.closes`, `Template.isPhrased`: a check on a template as data, on the two ends of its layouts.
- `Form.isPhrased_python`: every construct that makes an expression passes it in Python.
- `Template.isPhrase_render`: so its code is a phrase, if the operands are.
-/
import Blockwork.Proofs.Outlines
import Blockwork.Proofs.RowTemplates

namespace Blockwork

/-! ## Phrases -/

section

variable {a b c : String}

theorem isPhrase_iff : IsPhrase a ↔ IsInline a ∧ (∃ c, a.toList.head? = some c ∧ Text.isBlank c = false) ∧
    a.toList.getLast? ≠ some ':' := by
  refine ⟨fun h => ⟨h.inline, h.head?, h.2.2⟩, fun ⟨hinline, ⟨c, hc, hblank⟩, hlast⟩ => ⟨⟨fun hnil => ?_, hinline⟩, ?_, hlast⟩⟩
  · rw [hnil] at hc
    cases hc
  · rw [hc]
    exact hblank

/-- **What stands between two phrases on one line makes them one.** -/
theorem IsPhrase.between (ha : IsPhrase a) (hb : IsInline b) (hc : IsPhrase c) : IsPhrase (a ++ b ++ c) := by
  refine ⟨(ha.1.append hb).append hc.inline, ?_, ?_⟩
  · rw [String.toList_append, String.toList_append, List.append_assoc, List.head?_append_of_ne_nil _ ha.1.1]
    exact ha.2.1
  · rw [String.toList_append, List.getLast?_append_of_ne_nil _ hc.1.1]
    exact hc.2.2

theorem IsPhrase.append (ha : IsPhrase a) (hb : IsPhrase b) : IsPhrase (a ++ b) := by
  have hempty : IsInline "" := List.forall_mem_nil _
  have h := ha.between hempty hb
  rwa [String.append_empty] at h

theorem IsPhrase.bracketed (h : IsInline a) : IsPhrase (bracketed a) :=
  IsPhrase.between (by decide) h (by decide)

theorem isBlank_of_isNameChar {c : Char} (h : Names.isNameChar c) : Text.isBlank c = false := by
  rcases Names.toNat_of_isNameChar h with rfl | hcode
  · rfl
  · simp only [Text.isBlank, Bool.or_eq_false_iff, Bool.and_eq_false_iff, decide_eq_false_iff_not, beq_eq_false_iff_ne]
    omega

/-- letters, digits and underscores make a phrase -/
theorem IsPhrase.of_isNameChar (hne : a.toList ≠ []) (h : ∀ c ∈ a.toList, Names.isNameChar c) : IsPhrase a := by
  refine isPhrase_iff.2 ⟨isInline_of_isNameChar h, ?_, fun hlast => ?_⟩
  · obtain ⟨c, cs, hcs⟩ := List.exists_cons_of_ne_nil hne
    exact ⟨c, by rw [hcs]; rfl, isBlank_of_isNameChar (h c (hcs ▸ List.mem_cons_self))⟩
  · exact absurd (h ':' (List.mem_of_getLast? hlast)) (by decide)

theorem IsPhrase.identifier (h : Names.IsIdentifier a) : IsPhrase a := by
  obtain ⟨c, cs, hname, hc, -, hcs⟩ := h
  refine .of_isNameChar (by simp [hname]) ?_
  rw [hname]
  exact List.forall_mem_cons.2 ⟨hc, hcs⟩

theorem IsPhrase.quote (text : String) : IsPhrase (Language.python.quote text) := by
  refine isPhrase_iff.2 ⟨(IsWord.quote .python text).2, ⟨'\'', ?_, rfl⟩, ?_⟩
  · rw [Language.quote, String.toList_ofList, Text.quoteChars, List.head?_cons]
  · rw [Language.quote, String.toList_ofList, Text.quoteChars, List.getLast?_cons, List.getLast?_concat]
    decide

theorem IsNumeral.ends {cs : List Char} (h : IsNumeral cs) :
    (∃ c, cs.head? = some c ∧ c.isDigit) ∧ ∃ c, cs.getLast? = some c ∧ c.isDigit := by
  have hends : ∀ {digits : List Char}, digits ≠ [] → (∀ c ∈ digits, c.isDigit) →
      (∃ c, digits.head? = some c ∧ c.isDigit) ∧ ∃ c, digits.getLast? = some c ∧ c.isDigit := by
    intro digits hne hd
    refine ⟨⟨_, List.head?_eq_some_head hne, hd _ (List.head_mem hne)⟩, _, List.getLast?_eq_some_getLast hne,
      hd _ (List.getLast_mem hne)⟩
  cases h with
  | whole hne hd => exact hends hne hd
  | fraction hne hd hne' hd' =>
    rw [List.head?_append_of_ne_nil _ hne, List.getLast?_append_of_ne_nil _ (List.cons_ne_nil _ _),
      List.getLast?_cons_of_ne_nil hne']
    exact ⟨(hends hne hd).1, (hends hne' hd').2⟩

theorem IsPhrase.numberLiteral (x : Binary64) : IsPhrase (Language.python.numberLiteral x) := by
  cases x with
  | nan => decide
  | infinite negative => cases negative <;> decide
  | finite negative m p =>
    by_cases hm : m = 0
    · subst hm
      rw [Language.numberLiteral_zero]
      decide
    · have hword := IsWord.numberLiteral .python (.finite negative m p)
      obtain ⟨⟨c, hc, hdigit⟩, ⟨d, hd, hdigit'⟩⟩ := (Language.python.isNumeral_magnitude m p).ends
      have hne : Language.python.magnitude m p ≠ [] := fun hnil => by rw [hnil] at hc; cases hc
      refine isPhrase_iff.2 ⟨hword.2, ?_, ?_⟩
      · rw [Language.numberLiteral_finite _ negative hm p]
        cases negative with
        | true => exact ⟨'-', by rw [if_pos rfl, List.singleton_append, List.head?_cons], rfl⟩
        | false =>
          rw [if_neg Bool.false_ne_true, List.nil_append]
          exact ⟨c, hc, isBlank_of_isNameChar (Names.isNameChar_of_isDigit hdigit)⟩
      · rw [Language.numberLiteral_finite _ negative hm p, List.getLast?_append_of_ne_nil _ hne, hd]
        rintro ⟨⟩
        cases hdigit'

end

/-! ## Templates as data -/

/-- whether the text that a step leaves is a phrase for certain; the name of a helper may be missing -/
def Step.isSolid : Step → Bool
  | value _ _ absent => IsPhrase absent
  | helper _ => false
  | _ => true

/-- the check on a step: it takes no statements, and what stands in for a missing operand is a phrase -/
def Step.isPhrased : Step → Bool
  | value _ _ absent => IsPhrase absent
  | branch _ => false
  | body _ => false
  | _ => true

namespace Piece

def solidAt (solid : List Bool) (i : Nat) : Bool :=
  solid.getD i false

/-- the check on a piece: it stays within a line -/
def isInline (solid : List Bool) : Piece → Bool
  | text code => IsInline code
  | hole _ => true
  | receiver i => solidAt solid i
  | guardMinus i => solidAt solid i
  | guardWord i => solidAt solid i
  | boundAbove i => solidAt solid i
  | indexBefore i => solidAt solid i
  | indexBeforeClamped i => solidAt solid i
  | rangeStart i => solidAt solid i
  | procedureBody _ _ _ _ => false

/-- whether pieces in a row start with something that is no white space -/
def opens (solid : List Bool) : List Piece → Bool
  | [] => false
  | text code :: rest => if code = "" then opens solid rest else !code.toList.head?.any Text.isBlank
  | hole i :: rest => solidAt solid i || opens solid rest
  | guardMinus i :: _ => solidAt solid i
  | _ => false

/-- whether pieces in a row, given from the last to the first, end with something that is no colon -/
def closes (solid : List Bool) : List Piece → Bool
  | [] => true
  | text code :: rest => if code = "" then closes solid rest else code.toList.getLast? != some ':'
  | hole i :: rest => solidAt solid i || closes solid rest
  | _ => false

end Piece

def Layout.isPhrased (solid : List Bool) (layout : Layout) : Bool :=
  layout.pieces.all (Piece.isInline solid) && Piece.opens solid layout.pieces && Piece.closes solid layout.pieces.reverse

def Shape.isPhrased (solid : List Bool) : Shape → Bool
  | always layout => layout.isPhrased solid
  | ordered _ _ rising falling unknown => rising.isPhrased solid && falling.isPhrased solid && unknown.isPhrased solid

def Step.solids (steps : List Step) : List Bool :=
  (steps.filter Step.leavesText).map Step.isSolid

def Template.isPhrased (template : Template) : Bool :=
  template.steps.all Step.isPhrased && template.shape.isPhrased (Step.solids template.steps)

theorem Template.join_isPhrased (items : Nat) : (Target.Python.join (items + 3)).isPhrased := by
  have hsteps : ((List.range (items + 3)).map fun slot => string slot true).all Step.isPhrased :=
    List.all_eq_true.2 (strings_forall (fun _ => rfl) (items + 3))
  have hplaces : ∀ solid, (separated [", "] ((List.range (items + 3)).map fun i =>
      ["str(", .hole i, ")"])).all (Piece.isInline solid) :=
    fun solid => (Piece.composes_all (Piece.isInline solid)).separated rfl fun _ _ => rfl
  simp only [Target.Python.join, isPhrased, tight, hsteps, Shape.isPhrased, Layout.isPhrased, Layout.tight,
    List.flatten_cons, List.flatten_nil, List.append_nil, List.all_append, hplaces, List.reverse_append]
  rfl

theorem Template.literal_isPhrased {code : String} (h : IsPhrase code) : (tight [] [.text code]).isPhrased := by
  simp [isPhrased, tight, Shape.isPhrased, Layout.isPhrased, Layout.tight, Piece.isInline, Piece.opens, Piece.closes,
    h.inline, h.1.ne_empty, h.2.1, h.2.2]

/-- **Every construct that makes an expression passes the check.** -/
theorem Form.isPhrased_python {form : Form} (hf : form.isStatement = false) :
    (Language.python.template form).isPhrased := by
  cases form using Form.byData with
  | plain form hm =>
    have hplain : ∀ form ∈ Form.plain, form.isStatement = false → (Language.python.template form).isPhrased := by
      decide +kernel
    exact hplain form hm hf
  | number literal => exact Template.literal_isPhrased (.numberLiteral _)
  | text content => exact Template.literal_isPhrased (.quote content)
  | list items => exact Template.join_isPhrased items
  | onList op => cases op <;> decide +kernel
  | changeCase style => cases style <;> decide +kernel
  | get name => rfl
  | _ => cases hf

/-! ## Rendering -/

/-- a phrase, or nothing where that is not certain -/
def FitsSolid (solid : Bool) (text : String) : Prop :=
  IsPhrase text ∨ solid = false ∧ text = ""

namespace Piece

variable {solid : List Bool} {texts : List String}

theorem fits_textAt (h : List.Forall₂ FitsSolid solid texts) (i : Nat) :
    FitsSolid (solidAt solid i) (textAt texts i) :=
  rel_textAt (.inr ⟨rfl, rfl⟩) h i

theorem isPhrase_textAt (h : List.Forall₂ FitsSolid solid texts) {i : Nat} (hi : solidAt solid i) :
    IsPhrase (textAt texts i) := by
  rcases fits_textAt h i with hphrase | ⟨hsolid, -⟩
  · exact hphrase
  · rw [hsolid] at hi
    cases hi

theorem isInline_render (h : List.Forall₂ FitsSolid solid texts) {piece : Piece} (hp : piece.isInline solid) :
    Blockwork.IsInline (piece.render texts) := by
  cases piece with
  | text code => exact of_decide_eq_true hp
  | hole i =>
    rcases fits_textAt h i with hphrase | ⟨-, hempty⟩
    · exact hphrase.inline
    · rw [render, hempty]
      exact List.forall_mem_nil _
  | receiver i => exact (isPhrase_textAt h hp).1.receiver.2
  | guardMinus i => exact (isPhrase_textAt h hp).1.guardMinus.2
  | guardWord i => exact (isPhrase_textAt h hp).1.guardWord.2
  | boundAbove i => exact (isPhrase_textAt h hp).1.boundAbove.2
  | indexBefore i => exact (isPhrase_textAt h hp).1.indexBefore.2
  | indexBeforeClamped i => exact (isPhrase_textAt h hp).1.indexBeforeClamped.2
  | rangeStart i => exact .rangeStart (isPhrase_textAt h hp).1
  | procedureBody _ _ _ _ => cases hp

theorem isInline_renderAll (h : List.Forall₂ FitsSolid solid texts) {pieces : List Piece}
    (hp : pieces.all (isInline solid)) : Blockwork.IsInline (renderAll texts pieces) := by
  induction pieces with
  | nil => exact List.forall_mem_nil _
  | cons piece rest ih =>
    rw [List.all_cons, Bool.and_eq_true] at hp
    rw [renderAll, Blockwork.IsInline, String.toList_append]
    exact List.forall_mem_append.2 ⟨isInline_render h hp.1, ih hp.2⟩

theorem head?_renderAll (h : List.Forall₂ FitsSolid solid texts) {pieces : List Piece} (hp : opens solid pieces) :
    ∃ c, (renderAll texts pieces).toList.head? = some c ∧ Text.isBlank c = false := by
  -- the first piece that is not empty decides
  have hfirst : ∀ {text rest : String}, IsPhrase text →
      ∃ c, (text ++ rest).toList.head? = some c ∧ Text.isBlank c = false := by
    intro text rest ht
    rw [String.toList_append, List.head?_append_of_ne_nil _ ht.1.1]
    exact ht.head?
  induction pieces with
  | nil => cases hp
  | cons piece rest ih =>
    cases piece with
    | text code =>
      rw [opens] at hp
      split_ifs at hp with hempty
      · rw [renderAll, render, hempty, String.empty_append]
        exact ih hp
      · have hne : code.toList ≠ [] := mt String.toList_eq_nil_iff.1 hempty
        obtain ⟨c, cs, hcs⟩ := List.exists_cons_of_ne_nil hne
        refine ⟨c, by simp [renderAll, render, hcs], ?_⟩
        rw [hcs] at hp
        simpa using hp
    | hole i =>
      rw [opens, Bool.or_eq_true] at hp
      rcases fits_textAt h i with hphrase | ⟨hsolid, hempty⟩
      · exact hfirst hphrase
      · rw [renderAll, render, hempty, String.empty_append]
        exact ih (hp.resolve_left (by rw [hsolid]; exact Bool.false_ne_true))
    | guardMinus i =>
      have hphrase := isPhrase_textAt h hp
      refine hfirst ?_
      rw [render, Blockwork.guardMinus]
      split_ifs
      · exact .bracketed hphrase.inline
      · exact hphrase
    | _ => cases hp

theorem renderAll_append (texts : List String) (before behind : List Piece) :
    renderAll texts (before ++ behind) = renderAll texts before ++ renderAll texts behind := by
  induction before with
  | nil => simp [renderAll]
  | cons piece rest ih => rw [List.cons_append, renderAll, renderAll, ih, String.append_assoc]

theorem getLast?_renderAll (h : List.Forall₂ FitsSolid solid texts) {pieces : List Piece} (hp : closes solid pieces) :
    (renderAll texts pieces.reverse).toList.getLast? ≠ some ':' := by
  induction pieces with
  | nil => simp [renderAll]
  | cons piece rest ih =>
    rw [List.reverse_cons, renderAll_append, renderAll, renderAll, String.append_empty, String.toList_append]
    cases piece with
    | text code =>
      rw [closes] at hp
      split_ifs at hp with hempty
      · rw [render, hempty, String.toList_empty, List.append_nil]
        exact ih hp
      · rw [render, List.getLast?_append_of_ne_nil _ (mt String.toList_eq_nil_iff.1 hempty)]
        exact bne_iff_ne.1 hp
    | hole i =>
      rw [closes, Bool.or_eq_true] at hp
      rcases fits_textAt h i with hphrase | ⟨hsolid, hempty⟩
      · rw [render, List.getLast?_append_of_ne_nil _ hphrase.1.1]
        exact hphrase.2.2
      · rw [render, hempty, String.toList_empty, List.append_nil]
        exact ih (hp.resolve_left (by rw [hsolid]; exact Bool.false_ne_true))
    | _ => cases hp

end Piece

theorem Layout.isPhrase_render {solid : List Bool} {texts : List String} (h : List.Forall₂ FitsSolid solid texts)
    {layout : Layout} (hl : layout.isPhrased solid) (bare : Bool) : IsPhrase (layout.render texts bare) := by
  rw [isPhrased, Bool.and_eq_true, Bool.and_eq_true] at hl
  obtain ⟨⟨hinline, hopens⟩, hcloses⟩ := hl
  have hlast := Piece.getLast?_renderAll h hcloses
  rw [List.reverse_reverse] at hlast
  have hphrase : IsPhrase (Piece.renderAll texts layout.pieces) :=
    isPhrase_iff.2 ⟨Piece.isInline_renderAll h hinline, Piece.head?_renderAll h hopens, hlast⟩
  unfold render parenthesize
  simp only
  split_ifs
  · exact hphrase
  · exact .bracketed hphrase.inline
  · exact hphrase

/-- **The code of an expression is a phrase.** -/
theorem Template.isPhrase_render {form : Form} (hf : form.isStatement = false) {texts : List String}
    (h : List.Forall₂ FitsSolid (Step.solids (Language.python.template form).steps) texts) (bare : Bool) :
    IsPhrase ((Language.python.template form).render texts bare) := by
  have hphrased := Form.isPhrased_python hf
  rw [isPhrased, Bool.and_eq_true] at hphrased
  refine Layout.isPhrase_render h ?_ bare
  cases hshape : (Language.python.template form).shape with
  | always layout =>
    rw [hshape] at hphrased
    exact hphrased.2
  | ordered first second rising falling unknown =>
    rw [hshape, Shape.isPhrased, Bool.and_eq_true, Bool.and_eq_true] at hphrased
    exact Shape.layout_ordered (P := fun layout => layout.isPhrased _) hphrased.2.1.1 hphrased.2.1.2 hphrased.2.2 texts

end Blockwork
