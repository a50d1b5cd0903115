/-
What texts contain is in the program.

- `Mentions`: a character is in a text that is visited; `IsForeign`: a character beyond ASCII.
- `mentions_of_mem_program`: a foreign character of a program is in a text that is visited in it.
- `Piece.keeps`, `Template.keepsAll`: a check on a template as data. Each text that a step leaves has a place in every
  layout, and one in which it stays as it is but for brackets.
- `Language.template_keepsAll`: the templates of JavaScript pass it.
- `Block.carries_emission`: so foreign characters of texts are in the code of a block.
- `mem_program_iff_mentions`: a program in JavaScript has the foreign characters of the texts visited in it, and no
  others.
-/
import Blockwork.Proofs.Characters

namespace Blockwork

/-! ## Foreign characters -/

def IsForeign (c : Char) : Prop := 0x7F < c.toNat

/-- a text with the character is among the constructs -/
def Mentions (c : Char) (forms : List Form) : Prop :=
  ∃ content, .text content ∈ forms ∧ c ∈ content.toList

theorem not_mentions_nil {c : Char} : ¬Mentions c [] := by
  rintro ⟨content, hm, -⟩
  cases hm

theorem mentions_append_iff {c : Char} {forms others : List Form} :
    Mentions c (forms ++ others) ↔ Mentions c forms ∨ Mentions c others := by
  simp only [Mentions, List.mem_append, or_and_right, exists_or]

/-- every character but one that is not printable -/
def Alphabet.without (c : Char) (h : Text.isPrintable c = false) : Alphabet where
  mem d := d ≠ c
  printable d hd := by
    rintro rfl
    rw [h] at hd
    cases hd

namespace IsForeign

variable {c : Char}

theorem ne_of_le (h : IsForeign c) {d : Char} (hd : d.toNat ≤ 0x7F) : c ≠ d := by
  rintro rfl
  exact absurd h (Nat.not_lt.2 hd)

theorem not_printable (h : IsForeign c) : Text.isPrintable c = false := by
  simp only [IsForeign] at h
  simp only [Text.isPrintable, Bool.and_eq_false_iff, decide_eq_false_iff_not]
  omega

theorem not_digit (h : IsForeign c) : c.isDigit = false := by
  refine Bool.eq_false_iff.2 fun hd => ?_
  have hprintable := Text.isPrintable_of_isNameChar (Names.isNameChar_of_isDigit hd)
  rw [h.not_printable] at hprintable
  cases hprintable

/-- a foreign character is written in a literal as it is -/
theorem escapeChar (h : IsForeign c) (dollar : Bool) : Text.escapeChar dollar c = [c] := by
  unfold Text.escapeChar
  split
  all_goals first | rfl | exact absurd rfl (h.ne_of_le (by decide))

end IsForeign

/-- what is written for a character in a literal is the character or printable -/
theorem Text.eq_or_printable_of_mem_escapeChar {dollar : Bool} {c d : Char} (h : d ∈ escapeChar dollar c) :
    d = c ∨ isPrintable d := by
  have hprintable : ∀ {ds : List Char}, d ∈ ds → ds.all isPrintable → d = c ∨ isPrintable d :=
    fun hd hall => .inr (List.all_eq_true.1 hall d hd)
  unfold escapeChar at h
  split at h
  · exact hprintable h rfl
  · exact hprintable h rfl
  · exact hprintable h rfl
  · exact hprintable h rfl
  · exact hprintable h rfl
  · cases dollar <;> exact hprintable h rfl
  · exact .inl (List.mem_singleton.1 h)

/-- the foreign characters of a literal are those of the text -/
theorem IsForeign.mem_quote_iff {c : Char} (h : IsForeign c) (language : Language) (content : String) :
    c ∈ (language.quote content).toList ↔ c ∈ content.toList := by
  rw [Language.quote, String.toList_ofList, Text.quoteChars, List.mem_cons, List.mem_append, List.mem_singleton,
    List.mem_flatMap]
  have hquote : c ≠ '\'' := h.ne_of_le (by decide)
  constructor
  · rintro (hq | ⟨d, hd, hc⟩ | hq)
    · exact absurd hq hquote
    · rcases Text.eq_or_printable_of_mem_escapeChar hc with rfl | hprintable
      · exact hd
      · rw [h.not_printable] at hprintable
        cases hprintable
    · exact absurd hq hquote
  · intro hc
    refine .inr (.inl ⟨c, hc, ?_⟩)
    rw [h.escapeChar, List.mem_singleton]

/-- **Foreign characters come from texts.** -/
theorem mentions_of_mem_program {language : Language} {blocks : List Block} {program : String}
    (h : generate language blocks = .ok program) {c : Char} (hf : IsForeign c) (hc : c ∈ program.toList) :
    Mentions c (blocks.flatMap fun block => block.constructs.chain) := by
  by_contra hnone
  have hquotable : Quotable (.without c hf.not_printable) language
      (blocks.flatMap fun block => block.constructs.chain) := by
    rintro content hm _ hd rfl
    exact hnone ⟨content, hm, (hf.mem_quote_iff language content).1 hd⟩
  exact generate_madeOf (hf.ne_of_le (by decide)).symm hquotable h c hc rfl

/-! ## Adjusted operands -/

section

variable {c : Char} {a b : String}

theorem mem_toList_append : c ∈ (a ++ b).toList ↔ c ∈ a.toList ∨ c ∈ b.toList := by
  rw [String.toList_append, List.mem_append]

theorem isEmpty_of_mem (h : c ∈ a.toList) : a.isEmpty = false := by
  rw [String.isEmpty_eq_false_iff]
  rintro rfl
  cases h

theorem mem_bracketed (h : c ∈ a.toList) : c ∈ (bracketed a).toList :=
  mem_toList_append.2 (.inl (mem_toList_append.2 (.inr h)))

namespace IsForeign

theorem naturalBelow?_eq_none (hf : IsForeign c) (h : c ∈ a.toList) (limit : Nat) : naturalBelow? limit a = none := by
  rw [naturalBelow?, readNatural?_of_mem hf.not_digit h]
  rfl

theorem mem_receiver (h : c ∈ a.toList) : c ∈ (receiver a).toList := by
  unfold receiver
  split_ifs
  · exact h
  · exact mem_bracketed h

theorem mem_guardMinus (h : c ∈ a.toList) : c ∈ (guardMinus a).toList := by
  unfold guardMinus
  split_ifs
  · exact mem_bracketed h
  · exact h

theorem mem_guardWord (h : c ∈ a.toList) : c ∈ (guardWord a).toList := by
  unfold guardWord
  split_ifs
  · exact h
  · exact mem_bracketed h

theorem mem_boundAbove (hf : IsForeign c) (h : c ∈ a.toList) : c ∈ (boundAbove a).toList := by
  rw [boundAbove, hf.naturalBelow?_eq_none h]
  exact mem_toList_append.2 (.inl h)

theorem mem_indexBefore (hf : IsForeign c) (h : c ∈ a.toList) : c ∈ (indexBefore a).toList := by
  rw [indexBefore, hf.naturalBelow?_eq_none h]
  exact mem_toList_append.2 (.inl h)

theorem mem_indexBeforeClamped (hf : IsForeign c) (h : c ∈ a.toList) : c ∈ (indexBeforeClamped a).toList := by
  rw [indexBeforeClamped, hf.naturalBelow?_eq_none h]
  exact mem_toList_append.2 (.inl h)

theorem mem_procedureBody {stop noop : String} (h : c ∈ a.toList ∨ c ∈ b.toList) :
    c ∈ (procedureBody a b stop noop).toList := by
  have hnone : ∀ {text : String}, text.isEmpty → c ∉ text.toList := by
    intro text hempty hc
    rw [isEmpty_of_mem hc] at hempty
    cases hempty
  unfold procedureBody
  split_ifs with hresult hstatements
  · simp only [mem_toList_append]
    tauto
  · exact h.resolve_right (hnone (by simpa using hresult))
  · exact absurd h (not_or.2 ⟨hnone (by simpa using hstatements), hnone (by simpa using hresult)⟩)

end IsForeign

end

/-! ## Templates as data -/

/-- whether a piece keeps the text of a step, adjusted to its place at most -/
def Piece.keeps (i : Nat) : Piece → Bool
  | hole j => i = j
  | receiver j => i = j
  | guardMinus j => i = j
  | guardWord j => i = j
  | boundAbove j => i = j
  | indexBefore j => i = j
  | indexBeforeClamped j => i = j
  | procedureBody statements result _ _ => i = statements || i = result
  | rangeStart _ => false
  | text _ => false

def Shape.keeps (i : Nat) (shape : Shape) : Bool :=
  shape.every fun layout => layout.pieces.any (Piece.keeps i)

def Template.keepsAll (template : Template) : Bool :=
  (List.range (template.steps.filter Step.leavesText).length).all fun i => template.shape.keeps i

namespace Template

theorem keeps_of_hole {pieces : List Piece} {i : Nat} (h : .hole i ∈ pieces) : (Shape.always (.tight pieces)).keeps i :=
  List.any_eq_true.2 ⟨.hole i, h, decide_eq_true rfl⟩

/-- a choice keeps its conditions and its branches -/
theorem choice_keepsAll (elseifs : Nat) (otherwise : Bool) :
    (Target.Brace.choice .javascript elseifs otherwise).keepsAll := by
  have hcondition : ∀ n, .hole (2 * n) ∈ Target.Brace.conditionPieces n ∧
      .hole (2 * n + 1) ∈ Target.Brace.conditionPieces n := by
    intro n
    unfold Target.Brace.conditionPieces
    split_ifs <;> simp
  unfold keepsAll
  rw [Target.Brace.choice, tight, choiceSteps_leaving, length_choiceSteps, List.all_eq_true]
  intro i hi
  rw [List.mem_range] at hi
  refine keeps_of_hole ?_
  rw [List.mem_flatten]
  by_cases hlast : i < 2 * (elseifs + 1)
  · -- each condition has its own two places
    have hn : i / 2 < elseifs + 1 := by omega
    refine ⟨_, List.mem_cons_self, List.mem_flatMap.2 ⟨i / 2, List.mem_range.2 hn, ?_⟩⟩
    obtain ⟨heven, hodd⟩ := hcondition (i / 2)
    rcases Nat.mod_two_eq_zero_or_one i with hi | hi
    · rwa [show 2 * (i / 2) = i by omega] at heven
    · rwa [show 2 * (i / 2) + 1 = i by omega] at hodd
  · cases otherwise with
    | false => exact absurd hi (by simpa using hlast)
    | true =>
      rw [if_pos rfl] at hi
      obtain rfl : i = 2 * (elseifs + 1) := by omega
      exact ⟨_, List.mem_cons_of_mem _ List.mem_cons_self, by simp⟩

theorem mem_separated {separator place : List Piece} {places : List (List Piece)} {piece : Piece}
    (hplace : place ∈ places) (h : piece ∈ place) : piece ∈ separated separator places := by
  induction places with
  | nil => cases hplace
  | cons first rest ih =>
    cases rest with
    | nil => exact List.mem_singleton.1 hplace ▸ h
    | cons next rest =>
      change piece ∈ first ++ separator ++ separated separator (next :: rest)
      rcases List.mem_cons.1 hplace with rfl | hrest
      · exact List.mem_append_left _ (List.mem_append_left _ h)
      · exact List.mem_append_right _ (ih hrest)

theorem join_keepsAll (items : Nat) : (Target.JavaScript.join (items + 3)).keepsAll := by
  have hall : ((List.range (items + 3)).map fun slot => string slot true).filter Step.leavesText =
      (List.range (items + 3)).map fun slot => string slot true :=
    List.filter_eq_self.2 fun step hm => by
      obtain ⟨slot, -, rfl⟩ := List.mem_map.1 hm
      rfl
  have hjoin : Target.JavaScript.join (items + 3) = tight ((List.range (items + 3)).map fun slot => string slot true)
      (.flatten [["["], separated [", "] ((List.range (items + 3)).map fun i => [.hole i]), ["].join('')"]]) := rfl
  unfold keepsAll
  rw [hjoin, tight, hall, List.length_map, List.length_range, List.all_eq_true]
  intro i hi
  refine keeps_of_hole ?_
  rw [List.mem_flatten]
  refine ⟨_, List.mem_cons_of_mem _ List.mem_cons_self, ?_⟩
  exact mem_separated (List.mem_map.2 ⟨i, hi, rfl⟩) List.mem_cons_self

end Template

/-- **In JavaScript every construct keeps all its operands.** -/
theorem Language.template_keepsAll (form : Form) : (javascript.template form).keepsAll := by
  cases form using Form.byData with
  | plain form hm =>
    have hplain : ∀ form ∈ Form.plain, (javascript.template form).keepsAll := by decide +kernel
    exact hplain form hm
  | list items => exact Template.join_keepsAll items
  | choice elseifs otherwise => exact Template.choice_keepsAll elseifs otherwise
  | onList op => cases op <;> rfl
  | changeCase style => cases style <;> rfl
  | _ => rfl

/-! ## Rendering -/

section

variable {c : Char} {texts : List String} {i : Nat}

theorem Piece.mem_render (hf : IsForeign c) (h : c ∈ (textAt texts i).toList) {piece : Piece} (hp : piece.keeps i) :
    c ∈ (piece.render texts).toList := by
  have hat : ∀ {j : Nat}, decide (i = j) → c ∈ (textAt texts j).toList := by
    intro j hj
    obtain rfl := of_decide_eq_true hj
    exact h
  cases piece with
  | text code => cases hp
  | rangeStart j => cases hp
  | hole j => exact hat hp
  | receiver j => exact IsForeign.mem_receiver (hat hp)
  | guardMinus j => exact IsForeign.mem_guardMinus (hat hp)
  | guardWord j => exact IsForeign.mem_guardWord (hat hp)
  | boundAbove j => exact hf.mem_boundAbove (hat hp)
  | indexBefore j => exact hf.mem_indexBefore (hat hp)
  | indexBeforeClamped j => exact hf.mem_indexBeforeClamped (hat hp)
  | procedureBody statements result stop noop =>
    simp only [keeps, Bool.or_eq_true] at hp
    exact IsForeign.mem_procedureBody (hp.imp hat hat)

theorem Piece.mem_renderAll (hf : IsForeign c) (h : c ∈ (textAt texts i).toList) {pieces : List Piece}
    (hp : pieces.any (keeps i)) : c ∈ (renderAll texts pieces).toList := by
  induction pieces with
  | nil => cases hp
  | cons piece rest ih =>
    rw [List.any_cons, Bool.or_eq_true] at hp
    exact mem_toList_append.2 (hp.imp (mem_render hf h) ih)

/-- **A construct that keeps a text keeps the foreign characters of it.** -/
theorem Template.mem_render (hf : IsForeign c) (h : c ∈ (Piece.textAt texts i).toList) {template : Template}
    (hk : template.shape.keeps i) (bare : Bool) : c ∈ (template.render texts bare).toList := by
  have hcode := Piece.mem_renderAll hf h (Shape.check_layout hk texts)
  unfold render Layout.render
  simp only
  split_ifs
  · cases bare with
    | true => exact hcode
    | false => exact mem_bracketed hcode
  · exact hcode

end

/-! ## Lines -/

/-- every character of a text is in one of its lines, but for line ends -/
theorem Text.exists_mem_lines {cs : List Char} {c : Char} (h : c ∈ cs) (hn : c ≠ '\n') (hr : c ≠ '\r') :
    ∃ line ∈ lines cs, c ∈ line := by
  induction cs using lines.induct with
  | case1 => cases h
  | case2 cs ih =>
    obtain ⟨line, hline, hc⟩ := ih ((List.mem_cons.1 h).resolve_left hn)
    rw [lines]
    exact ⟨line, List.mem_cons_of_mem _ hline, hc⟩
  | case3 cs ih =>
    have hcs := (List.mem_cons.1 ((List.mem_cons.1 h).resolve_left hr)).resolve_left hn
    obtain ⟨line, hline, hc⟩ := ih hcs
    rw [lines]
    exact ⟨line, List.mem_cons_of_mem _ hline, hc⟩
  | case4 d cs hn' hr' hnone ih =>
    rw [lines, hnone]
    · rcases List.mem_cons.1 h with rfl | hcs
      · exact ⟨[c], List.mem_cons_self, List.mem_cons_self⟩
      · obtain ⟨line, hline, -⟩ := ih hcs
        rw [hnone] at hline
        cases hline
    · exact hn'
    · exact hr'
  | case5 d cs hn' hr' first rest hsome ih =>
    rw [lines, hsome]
    · rcases List.mem_cons.1 h with rfl | hcs
      · exact ⟨c :: first, List.mem_cons_self, List.mem_cons_self⟩
      · obtain ⟨line, hline, hc⟩ := ih hcs
        rw [hsome] at hline
        rcases List.mem_cons.1 hline with rfl | hline
        · exact ⟨d :: line, List.mem_cons_self, List.mem_cons_of_mem _ hc⟩
        · exact ⟨line, List.mem_cons_of_mem _ hline, hc⟩
    · exact hn'
    · exact hr'

namespace IsForeign

variable {c : Char} {code : String}

theorem mem_prefixLines (hf : IsForeign c) (h : c ∈ code.toList) (lead : String) :
    c ∈ (Text.prefixLines code lead).toList := by
  obtain ⟨line, hline, hc⟩ := Text.exists_mem_lines h (hf.ne_of_le (by decide)) (hf.ne_of_le (by decide))
  rw [Text.prefixLines, String.toList_ofList, Text.indentChars, List.mem_flatMap]
  have hne : line.isEmpty = false := by
    rw [List.isEmpty_eq_false_iff]
    exact List.ne_nil_of_mem hc
  refine ⟨line, hline, ?_⟩
  rw [Text.indentLine, hne]
  simp [hc]

theorem mem_dropFinalNewlines (hf : IsForeign c) (h : c ∈ code.toList) :
    c ∈ (Text.dropFinalNewlines code).toList := by
  rw [Text.dropFinalNewlines, String.toList_ofList, List.mem_reverse]
  have hsplit := List.takeWhile_append_dropWhile (p := (· == '\n')) (l := code.toList.reverse)
  rw [← List.mem_reverse, ← hsplit, List.mem_append] at h
  refine h.resolve_left fun htake => ?_
  have hnewline : (c == '\n') = true := List.mem_takeWhile_imp (p := (· == '\n')) htake
  exact hf.ne_of_le (by decide) (beq_iff_eq.1 hnewline)

theorem mem_joinWith {separator : String} {texts : List String} {text : String} (hm : text ∈ texts)
    (h : c ∈ text.toList) : c ∈ (Text.joinWith separator texts).toList := by
  induction texts with
  | nil => cases hm
  | cons first rest ih =>
    cases rest with
    | nil => exact List.mem_singleton.1 hm ▸ h
    | cons next rest =>
      refine mem_toList_append.2 ?_
      rcases List.mem_cons.1 hm with rfl | hrest
      · exact .inl (mem_toList_append.2 (.inl h))
      · exact .inr (ih hrest)

end IsForeign

/-! ## Steps -/

section

variable {c : Char} {values statements : List (Nat × Block)}

/-- the text of a step has a character, if a text with it is visited in the step -/
def Step.Carries (c : Char) (values statements : List (Nat × Block)) (step : Step) (text : String) : Prop :=
  ∀ visit ∈ step.visits, Mentions c (visit.constructs (Block.slotConstructs values) (Block.slotConstructs statements)) →
    c ∈ text.toList

/-- the code of each block in a slot has a character, if a text with it is visited in the block -/
structure Carried (c : Char) (values statements : List (Nat × Block)) : Prop where
  value : ∀ entry ∈ values, ∀ bare, (entry.2.code (.standard .javascript) bare).Yields (fun _ => True) fun code =>
    Mentions c entry.2.constructs.own → c ∈ code.toList
  statement : ∀ entry ∈ statements, (entry.2.chainCode (.standard .javascript)).Yields (fun _ => True) fun code =>
    Mentions c entry.2.constructs.chain → c ∈ code.toList

def javascriptSite (values statements : List (Nat × Block)) : Site :=
  ⟨Block.emissions (.standard .javascript) values, Block.emissions (.standard .javascript) statements⟩

theorem Carried.yields_value (h : Carried c values statements) (slot : Nat) (bare : Bool) (absent : String) :
    ((javascriptSite values statements).value slot bare absent).Yields (fun _ => True)
      (Step.Carries c values statements (.value slot bare absent)) := by
  unfold Site.value Site.value? javascriptSite Step.Carries
  simp only [Block.get?_emissions, Step.visits, List.forall_mem_singleton, Visit.constructs, Block.get?_slotConstructs]
  cases hc : Slots.get? slot values with
  | none => exact Gen.yields_pure fun hm => absurd hm not_mentions_nil
  | some child =>
    obtain ⟨entry, he, rfl⟩ := Slots.mem_of_get? hc
    simp only [Option.map_some, Option.getD_some, bind_assoc]
    refine (h.value entry he bare).bind fun code hcode => Gen.yields_pure fun hm => ?_
    rw [isEmpty_of_mem (hcode hm)]
    exact hcode hm

theorem Carried.yields_statement? (hf : IsForeign c) (h : Carried c values statements) (slot : Nat) :
    ((javascriptSite values statements).statement? slot).Yields (fun _ => True) fun found =>
      Mentions c (Visit.constructs (Block.slotConstructs values) (Block.slotConstructs statements) (.statement slot)) →
        ∃ text, found = some text ∧ c ∈ text.toList := by
  refine (Gen.yields_within _ _).bind fun _ _ => ?_
  unfold javascriptSite
  simp only [Block.get?_emissions, Visit.constructs, Block.get?_slotConstructs]
  cases hc : Slots.get? slot statements with
  | none => exact Gen.yields_pure fun hm => absurd hm not_mentions_nil
  | some first =>
    obtain ⟨entry, he, rfl⟩ := Slots.mem_of_get? hc
    simp only [Option.map_some, Option.getD_some]
    refine (h.statement entry he).bind fun code hcode => Gen.yields_pure fun hm => ?_
    rw [isEmpty_of_mem (hcode hm)]
    exact ⟨_, rfl, hf.mem_prefixLines (hcode hm) _⟩

theorem Carried.yields_branch (hf : IsForeign c) (h : Carried c values statements) (slot : Nat) :
    ((javascriptSite values statements).branch slot).Yields (fun _ => True)
      (Step.Carries c values statements (.branch slot)) := by
  refine Site.yields_branch (h.yields_statement? hf slot) (fun text htext => ?_) fun hnone pass _ => ?_
  · refine List.forall_mem_singleton.2 fun hm => ?_
    obtain ⟨text, ⟨⟩, hc⟩ := htext hm
    exact hc
  · refine List.forall_mem_singleton.2 fun hm => ?_
    obtain ⟨text, hfound, -⟩ := hnone hm
    cases hfound

/-- **One step** carries the foreign characters of what it visits into its text. -/
theorem Step.carries_run (hf : IsForeign c) (h : Carried c values statements) (step : Step) (texts : List String) :
    (step.run (javascriptSite values statements) texts).Yields (fun _ => True)
      (Appends (Step.Carries c values statements) [step] texts) := by
  -- a name or a helper visits no block
  have hname : ∀ {text : String}, (∀ visit ∈ step.visits, ∃ role user, visit = .name role user) →
      step.Carries c values statements text := by
    rintro text hnames visit hv ⟨content, hm, -⟩
    obtain ⟨role, user, rfl⟩ := hnames visit hv
    cases hm
  cases step with
  | value slot bare absent => exact yields_text rfl (h.yields_value slot bare absent)
  | branch slot => exact yields_text rfl (h.yields_branch hf slot)
  | body slot =>
    refine yields_text rfl ((h.yields_statement? hf slot).imp fun found hfound => ?_)
    refine List.forall_mem_singleton.2 fun hm => ?_
    obtain ⟨text, rfl, hc⟩ := hfound hm
    exact hc
  | userVariable user =>
    exact yields_text rfl ((Gen.yields_any _).imp fun _ _ => hname fun _ hv => ⟨_, _, List.mem_singleton.1 hv⟩)
  | userProcedure user =>
    exact yields_text rfl ((Gen.yields_any _).imp fun _ _ => hname fun _ hv => ⟨_, _, List.mem_singleton.1 hv⟩)
  | fresh base => exact yields_text rfl ((Gen.yields_any _).imp fun _ _ => hname fun _ hv => nomatch hv)
  | temporary base => exact yields_text rfl ((Gen.yields_any _).imp fun _ _ => hname fun _ hv => nomatch hv)
  | helper helper => exact yields_text rfl ((Gen.yields_any _).imp fun _ _ => hname fun _ hv => nomatch hv)
  | require library => exact yields_none rfl (Gen.yields_any _)
  | hoist key name source => exact yields_none rfl (Gen.yields_any _)

theorem Step.leavesText_of_visit {step : Step} {visit : Visit} (h : visit ∈ step.visits) : step.leavesText := by
  cases step with
  | require library => cases h
  | hoist key name source => cases h
  | _ => rfl

/-- **A construct carries the foreign characters of what it visits into its code.** -/
theorem Template.carries_runAll (hf : IsForeign c) (h : Carried c values statements) (form : Form) (bare : Bool) :
    (Step.runAll (javascriptSite values statements) [] (Language.javascript.template form).steps).Yields (fun _ => True)
      fun texts => Mentions c (form :: form.visits.flatMap
        (Visit.constructs (Block.slotConstructs values) (Block.slotConstructs statements))) →
          c ∈ ((Language.javascript.template form).render texts bare).toList := by
  refine (Step.yields_runAll_of (fun step _ texts => step.carries_run hf h texts) []).imp fun texts htexts hm => ?_
  obtain ⟨left, rfl, hleft⟩ := htexts
  obtain ⟨content, hcontent, hc⟩ := hm
  rcases List.mem_cons.1 hcontent with rfl | hcontent
  · rw [(Language.javascript.render_text content _ bare).2]
    exact (hf.mem_quote_iff .javascript content).2 hc
  · obtain ⟨visit, hvisit, hcontent⟩ := List.mem_flatMap.1 hcontent
    rw [← steps_visits .javascript form] at hvisit
    obtain ⟨step, hstep, hv⟩ := List.mem_flatMap.1 hvisit
    obtain ⟨i, hi, hget⟩ := List.getElem_of_mem (List.mem_filter.2 ⟨hstep, Step.leavesText_of_visit hv⟩)
    have hcarries := Piece.rel_textAt_of_getElem? hleft (List.getElem?_eq_some_iff.2 ⟨hi, hget⟩)
    have hkeeps := List.all_eq_true.1 (Language.template_keepsAll form) i (List.mem_range.2 hi)
    exact mem_render hf (hcarries visit hv ⟨content, hcontent, hc⟩) hkeeps bare

end

/-! ## Blocks and programs -/

namespace Block

variable {c : Char}

/-- **The code of a block carries the foreign characters of the texts visited in it**, and so does the code of the chain
below it. -/
theorem carries_emission (hf : IsForeign c) (block : Block) :
    (∀ bare, (block.code (.standard .javascript) bare).Yields (fun _ => True) fun code =>
      Mentions c block.constructs.own → c ∈ code.toList) ∧
    (block.chainCode (.standard .javascript)).Yields (fun _ => True) fun code =>
      Mentions c block.constructs.chain → c ∈ code.toList := by
  induction block with
  | mk head values statements next hv hs hn =>
    have hcarried : Carried c values statements :=
      ⟨fun entry he => (hv entry he).1, fun entry he => (hs entry he).2⟩
    have hcode : ∀ bare, ((mk head values statements next).code (.standard .javascript) bare).Yields (fun _ => True)
        fun code => Mentions c (head.constructs (slotConstructs values) (slotConstructs statements)) →
          c ∈ code.toList := by
      intro bare
      refine (yields_code_of (fun form code => Mentions c (form :: form.visits.flatMap
        (Visit.constructs (slotConstructs values) (slotConstructs statements))) → c ∈ code.toList) next
        fun form _ => Template.carries_runAll hf hcarried form bare).imp fun code hcode => ?_
      obtain ⟨form, hform, hcode⟩ := hcode
      rwa [Head.constructs, hform]
    refine ⟨hcode, ?_⟩
    have hlink : (head.link ((mk head values statements next).code (.standard .javascript))).Yields (fun _ => True)
        fun own => Mentions c (head.constructs (slotConstructs values) (slotConstructs statements)) →
          c ∈ own.toList := by
      refine (Gen.yields_ofExcept _).bind fun kind _ => (hcode true).bind fun own hown => ?_
      split
      · exact Gen.yields_pure hown
      · refine Gen.yields_get.bind fun pass _ => Gen.yields_pure fun hm => ?_
        cases pass.language <;> exact mem_toList_append.2 (.inl (hown hm))
    refine hlink.bind fun own hown => ?_
    have hbelow : (nextChain (.standard .javascript) next).Yields (fun _ => True) fun rest =>
        Mentions c (nextConstructs next) → c ∈ rest.toList := by
      cases next with
      | none => exact Gen.yields_pure fun hm => absurd hm not_mentions_nil
      | some below => exact (hn below rfl).2
    refine hbelow.bind fun rest hrest => Gen.yields_pure fun hm => ?_
    exact mem_toList_append.2 ((mentions_append_iff.1 hm).imp hown hrest)

theorem carries_chainsCode (hf : IsForeign c) (blocks : List Block) :
    (chainsCode (.standard .javascript) blocks).Yields (fun _ => True) fun code =>
      Mentions c (blocks.flatMap fun block => block.constructs.chain) → c ∈ code.toList := by
  induction blocks with
  | nil => exact Gen.yields_pure fun hm => absurd hm not_mentions_nil
  | cons block rest ih =>
    refine (carries_emission hf block).2.bind fun first hfirst => ih.bind fun others hothers =>
      Gen.yields_pure fun hm => ?_
    rw [List.flatMap_cons, mentions_append_iff] at hm
    exact mem_toList_append.2 (hm.imp hfirst hothers)

end Block

/-- **A program in JavaScript has the foreign characters of the texts visited in it**, and no others. -/
theorem mem_program_iff_mentions {blocks : List Block} {program : String}
    (h : generate .javascript blocks = .ok program) {c : Char} (hf : IsForeign c) :
    c ∈ program.toList ↔ Mentions c (blocks.flatMap fun block => block.constructs.chain) := by
  refine ⟨mentions_of_mem_program h hf, fun hm => ?_⟩
  obtain ⟨body, pass, hrun, rfl⟩ := generate_ok_iff.1 h
  have hbody : c ∈ body.toList := by
    obtain ⟨-, hcode⟩ := Block.carries_chainsCode hf blocks (.start .javascript) trivial
    rw [show (Pass.start .javascript).perform _ = (.ok body, pass) from hrun] at hcode
    exact hcode body rfl hm
  have hlanguage : pass.language = .javascript := by
    have hunfolds := (programRun_unfolds .javascript blocks).1
    rw [hrun] at hunfolds
    exact hunfolds.language_eq
  have hsections : pass.bodySections body = [Text.dropFinalNewlines body] := by
    rw [Pass.bodySections, hlanguage, isEmpty_of_mem hbody]
    rfl
  refine mem_toList_append.2 (.inl (IsForeign.mem_joinWith ?_ (hf.mem_dropFinalNewlines hbody)))
  rw [hsections]
  exact List.mem_append_right _ List.mem_cons_self

end Blockwork
