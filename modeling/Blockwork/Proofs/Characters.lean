/-
The characters that generated code is made of.

- `Alphabet`: a set of characters with all printable ones of ASCII among them; `MadeOf`: a text of its characters.
- `Piece.isBasic`, `Template.isBasic`: a check on a template as data. What it writes by itself is printable, and only
  statements end lines.
- `Language.template_isBasic`: the template of every construct other than a text passes it.
- `Template.madeOf_render`: so code is made of what its operands are made of.
- `Block.spelled_emission`: the code of a block is made of the characters of the literals in it, and so are the
  definitions that are hoisted.
- `generate_madeOf`: so is a whole program.
-/
import Blockwork.Proofs.Phrases
import Blockwork.Proofs.Regeneration
import Blockwork.Proofs.Sections

namespace Blockwork

/-! ## Alphabets -/

namespace Text

def isPrintable (c : Char) : Bool :=
  0x20 ≤ c.toNat && c.toNat ≤ 0x7E

/-- a character that needs no literal: a printable one of ASCII, or a line feed where lines may end -/
def isBasic (ends : Bool) (c : Char) : Bool :=
  isPrintable c || (ends && c == '\n')

theorem isPrintable_of_isNameChar {c : Char} (h : Names.isNameChar c) : isPrintable c := by
  rcases Names.toNat_of_isNameChar h with rfl | hcode
  · rfl
  · simp only [isPrintable, Bool.and_eq_true, decide_eq_true_eq]
    omega

/-- the characters of a text's lines are those of the text, without its line feeds -/
theorem mem_of_mem_lines {cs line : List Char} {c : Char} (hl : line ∈ lines cs) (hc : c ∈ line) :
    c ∈ cs ∧ c ≠ '\n' := by
  induction cs using lines.induct generalizing line with
  | case1 => cases hl
  | case2 cs ih =>
    rw [lines] at hl
    rcases List.mem_cons.1 hl with rfl | hl
    · cases hc
    · exact (ih hl hc).imp_left (List.mem_cons_of_mem _)
  | case3 cs ih =>
    rw [lines] at hl
    rcases List.mem_cons.1 hl with rfl | hl
    · cases hc
    · exact (ih hl hc).imp_left fun h => List.mem_cons_of_mem _ (List.mem_cons_of_mem _ h)
  | case4 d cs hn hr hnone ih =>
    rw [lines, hnone] at hl
    · rw [List.mem_singleton.1 hl, List.mem_singleton] at hc
      subst hc
      exact ⟨List.mem_cons_self, hn⟩
    · exact hn
    · exact hr
  | case5 d cs hn hr first rest hsome ih =>
    rw [lines, hsome] at hl
    · rcases List.mem_cons.1 hl with rfl | hl
      · rcases List.mem_cons.1 hc with rfl | hc
        · exact ⟨List.mem_cons_self, hn⟩
        · exact (ih (hsome ▸ List.mem_cons_self) hc).imp_left (List.mem_cons_of_mem _)
      · exact (ih (hsome ▸ List.mem_cons_of_mem _ hl) hc).imp_left (List.mem_cons_of_mem _)
    · exact hn
    · exact hr

end Text

/-- characters that code may be made of -/
structure Alphabet where
  mem : Char → Prop
  printable : ∀ c, Text.isPrintable c → mem c

def MadeOf (alphabet : Alphabet) (code : String) : Prop :=
  ∀ c ∈ code.toList, alphabet.mem c

namespace MadeOf

variable {alphabet : Alphabet} {a b : String}

theorem empty : MadeOf alphabet "" := List.forall_mem_nil _

theorem append (ha : MadeOf alphabet a) (hb : MadeOf alphabet b) : MadeOf alphabet (a ++ b) := by
  rw [MadeOf, String.toList_append]
  exact List.forall_mem_append.2 ⟨ha, hb⟩

theorem printable (h : a.toList.all Text.isPrintable) : MadeOf alphabet a :=
  fun c hc => alphabet.printable c (List.all_eq_true.1 h c hc)

theorem newline (h : alphabet.mem '\n') : MadeOf alphabet "\n" :=
  List.forall_mem_singleton.2 h

theorem basic {ends : Bool} (he : ends → alphabet.mem '\n') (h : a.toList.all (Text.isBasic ends)) :
    MadeOf alphabet a := by
  intro c hc
  have hbasic := List.all_eq_true.1 h c hc
  simp only [Text.isBasic, Bool.or_eq_true, Bool.and_eq_true, beq_iff_eq] at hbasic
  rcases hbasic with hprintable | ⟨hends, rfl⟩
  · exact alphabet.printable c hprintable
  · exact he hends

theorem identifier (h : Names.IsIdentifier a) : MadeOf alphabet a := by
  obtain ⟨first, rest, hname, hfirst, -, hrest⟩ := h
  rw [MadeOf, hname]
  have hall : ∀ c ∈ first :: rest, Names.isNameChar c := List.forall_mem_cons.2 ⟨hfirst, hrest⟩
  exact fun c hc => alphabet.printable c (Text.isPrintable_of_isNameChar (hall c hc))

theorem digits {cs : List Char} (h : ∀ c ∈ cs, c.isDigit) : ∀ c ∈ cs, alphabet.mem c :=
  fun c hc => alphabet.printable c (Text.isPrintable_of_isNameChar (Names.isNameChar_of_isDigit (h c hc)))

theorem natural (n : Nat) : MadeOf alphabet (toString n) := by
  rw [MadeOf, show (toString n).toList = Nat.toDigits 10 n from Nat.toList_repr]
  exact digits fun c hc => Nat.isDigit_of_mem_toDigits (by decide) (by decide) hc

theorem integer (n : Int) : MadeOf alphabet (toString n) := by
  cases n with
  | ofNat n => exact natural n
  | negSucc n => exact append (a := "-") (printable rfl) (natural (n + 1))

/-! ## Adjusted operands -/

theorem bracketed (h : MadeOf alphabet a) : MadeOf alphabet (bracketed a) :=
  ((printable rfl).append h).append (printable rfl)

theorem parenthesize (h : MadeOf alphabet a) (bare : Bool) : MadeOf alphabet (parenthesize a bare) := by
  cases bare with
  | true => exact h
  | false => exact h.bracketed

theorem receiver (h : MadeOf alphabet a) : MadeOf alphabet (receiver a) := by
  unfold Blockwork.receiver
  split_ifs
  · exact h
  · exact h.bracketed

theorem guardMinus (h : MadeOf alphabet a) : MadeOf alphabet (guardMinus a) := by
  unfold Blockwork.guardMinus
  split_ifs
  · exact h.bracketed
  · exact h

theorem guardWord (h : MadeOf alphabet a) : MadeOf alphabet (guardWord a) := by
  unfold Blockwork.guardWord
  split_ifs
  · exact h
  · exact h.bracketed

theorem boundAbove (h : MadeOf alphabet a) : MadeOf alphabet (boundAbove a) := by
  unfold Blockwork.boundAbove
  split
  · exact natural _
  · exact h.append (printable rfl)

theorem indexBefore (h : MadeOf alphabet a) : MadeOf alphabet (indexBefore a) := by
  unfold Blockwork.indexBefore
  split
  · exact integer _
  · exact h.append (printable rfl)

theorem indexBeforeClamped (h : MadeOf alphabet a) : MadeOf alphabet (indexBeforeClamped a) := by
  unfold Blockwork.indexBeforeClamped
  split
  · exact natural _
  · exact h.append (printable rfl)

theorem rangeStart (h : MadeOf alphabet a) : MadeOf alphabet (rangeStart a) := by
  unfold Blockwork.rangeStart
  split_ifs
  · exact empty
  · exact h.append (printable rfl)

theorem procedureBody {stop noop : String} (he : alphabet.mem '\n') (ha : MadeOf alphabet a) (hb : MadeOf alphabet b)
    (hs : MadeOf alphabet stop) (hn : MadeOf alphabet noop) : MadeOf alphabet (procedureBody a b stop noop) := by
  unfold Blockwork.procedureBody
  split_ifs
  · exact (((ha.append (printable rfl)).append (printable rfl)).append hb).append hs
  · exact ha
  · exact ((printable rfl).append hn).append (newline he)

/-! ## Lines -/

theorem joinWith {separator : String} {texts : List String} (hs : MadeOf alphabet separator)
    (h : ∀ text ∈ texts, MadeOf alphabet text) : MadeOf alphabet (Text.joinWith separator texts) := by
  induction texts with
  | nil => exact empty
  | cons text texts ih =>
    obtain ⟨htext, htexts⟩ := List.forall_mem_cons.1 h
    cases texts with
    | nil => exact htext
    | cons next rest => exact (htext.append hs).append (ih htexts)

theorem dropFinalNewlines (h : MadeOf alphabet a) : MadeOf alphabet (Text.dropFinalNewlines a) := by
  rw [MadeOf, Text.dropFinalNewlines, String.toList_ofList]
  intro c hc
  have hdropped := (List.dropWhile_suffix _).subset (List.mem_reverse.1 hc)
  exact h c (List.mem_reverse.1 hdropped)

theorem prefixLines (he : alphabet.mem '\n') (h : MadeOf alphabet a) {lead : String} (hl : MadeOf alphabet lead) :
    MadeOf alphabet (Text.prefixLines a lead) := by
  rw [MadeOf, Text.prefixLines, String.toList_ofList]
  intro c hc
  obtain ⟨line, hline, hc⟩ := List.mem_flatMap.1 hc
  unfold Text.indentLine at hc
  split_ifs at hc
  · exact List.mem_singleton.1 hc ▸ he
  · simp only [List.mem_append, List.mem_singleton] at hc
    rcases hc with (hc | hc) | rfl
    · exact hl c hc
    · exact h c (Text.mem_of_mem_lines hline hc).1
    · exact he

theorem numeral {cs : List Char} (h : IsNumeral cs) : ∀ c ∈ cs, alphabet.mem c := by
  cases h with
  | whole _ hd => exact digits hd
  | fraction _ hd _ he =>
    exact List.forall_mem_append.2 ⟨digits hd, List.forall_mem_cons.2 ⟨alphabet.printable _ rfl, digits he⟩⟩

theorem numberLiteral (language : Language) (x : Binary64) : MadeOf alphabet (language.numberLiteral x) := by
  cases x with
  | nan => cases language <;> exact printable rfl
  | infinite negative => cases language <;> cases negative <;> exact printable rfl
  | finite negative m p =>
    by_cases hm : m = 0
    · subst hm
      rw [language.numberLiteral_zero]
      exact printable rfl
    · have hsign : ∀ c ∈ (if negative then ['-'] else []), alphabet.mem c := by
        cases negative with
        | true => exact List.forall_mem_singleton.2 (alphabet.printable _ rfl)
        | false => exact List.forall_mem_nil _
      rw [MadeOf, language.numberLiteral_finite negative hm p]
      exact List.forall_mem_append.2 ⟨hsign, numeral (language.isNumeral_magnitude m p)⟩

end MadeOf

/-! ## Templates as data -/

/-- the check on a piece: what it writes by itself needs no literal, `ends` telling whether it may end lines -/
def Piece.isBasic (ends : Bool) : Piece → Bool
  | text code => code.toList.all (Text.isBasic ends)
  | procedureBody _ _ stop noop => ends && stop.toList.all (Text.isBasic true) && noop.toList.all Text.isPrintable
  | _ => true

def Helper.isBasic (helper : Helper) : Bool :=
  helper.before.toList.all Text.isPrintable && helper.after.toList.all Text.isPrintable &&
    helper.body.all fun line => line.toList.all Text.isPrintable

def Step.isBasic : Step → Bool
  | value _ _ absent => absent.toList.all Text.isPrintable
  | helper h => h.isBasic
  | require library => library.source.toList.all Text.isPrintable
  | hoist _ _ source => source.all (Piece.isBasic true)
  | _ => true

def Template.isBasic (ends : Bool) (template : Template) : Bool :=
  template.steps.all Step.isBasic && template.shape.every fun layout => layout.pieces.all (Piece.isBasic ends)

/-! ## Helpers -/

-- the lines are handed to the check as their characters, as for brackets
theorem Helper.isBasic_of_chars {before after : List Char} {lines : List (List Char)} {helper : Helper}
    (hb : helper.before = String.ofList before) (ha : helper.after = String.ofList after)
    (hl : helper.body = lines.map String.ofList)
    (h : (before.all Text.isPrintable && after.all Text.isPrintable &&
      lines.all fun line => line.all Text.isPrintable) = true) : helper.isBasic := by
  rw [isBasic, hb, ha, hl, List.all_map]
  simpa only [Function.comp_def, String.toList_ofList] using h

theorem Target.JavaScript.helpers_isBasic : mean.isBasic ∧ median.isBasic ∧ modes.isBasic ∧ deviation.isBasic ∧
    randomItem.isBasic ∧ titleCase.isBasic := by
  refine ⟨?_, ?_, ?_, ?_, ?_, ?_⟩ <;>
  · apply Helper.isBasic_of_chars rfl rfl
    · repeat apply Helper.chars_cons
      exact (List.map_nil).symm
    · decide +kernel

theorem Target.Dart.helpers_isBasic : mean.isBasic ∧ median.isBasic ∧ modes.isBasic ∧ deviation.isBasic ∧
    randomItem.isBasic ∧ titleCase.isBasic := by
  refine ⟨?_, ?_, ?_, ?_, ?_, ?_⟩ <;>
  · apply Helper.isBasic_of_chars rfl rfl
    · repeat apply Helper.chars_cons
      exact (List.map_nil).symm
    · decide +kernel

theorem Target.Python.helpers_isBasic : mean.isBasic ∧ median.isBasic ∧ modes.isBasic ∧ deviation.isBasic ∧
    titleCase.isBasic := by
  refine ⟨?_, ?_, ?_, ?_, ?_⟩ <;>
  · apply Helper.isBasic_of_chars rfl rfl
    · repeat apply Helper.chars_cons
      exact (List.map_nil).symm
    · decide +kernel

/-! ## Templates -/

namespace Template

/-- a choice, whatever stands around its conditions and branches -/
theorem choice_isBasic {falsity : String} (hf : falsity.toList.all Text.isPrintable) (elseifs : Nat)
    (otherwise : Bool) {condition : Nat → List Piece} {rest : List (List Piece)}
    (hc : ∀ n, (condition n).all (Piece.isBasic true)) (hr : rest.flatten.all (Piece.isBasic true)) :
    (tight (choiceSteps falsity elseifs otherwise)
      (.flatten ((List.range (elseifs + 1)).flatMap condition :: rest))).isBasic true := by
  have hsteps : (choiceSteps falsity elseifs otherwise).all Step.isBasic :=
    List.all_eq_true.2 (choiceSteps_forall (fun _ => hf) (fun _ => rfl) elseifs otherwise)
  have hconditions : ((List.range (elseifs + 1)).flatMap condition).all (Piece.isBasic true) :=
    (Piece.composes_all (Piece.isBasic true)).flatMap fun n _ => hc n
  simp only [isBasic, tight, hsteps, Shape.every, Layout.tight, List.flatten_cons, List.all_append, hconditions, hr,
    Bool.and_self]

/-- a list of joined texts, whatever stands around each of them -/
theorem list_isBasic (items : Nat) {before after : List Piece} {place : Nat → List Piece}
    (hb : before.all (Piece.isBasic false)) (ha : after.all (Piece.isBasic false))
    (hp : ∀ i, (place i).all (Piece.isBasic false)) :
    (tight ((List.range items).map fun slot => string slot true)
      (.flatten [before, separated [", "] ((List.range items).map place), after])).isBasic false := by
  have hsteps : ((List.range items).map fun slot => string slot true).all Step.isBasic :=
    List.all_eq_true.2 (strings_forall (fun _ => rfl) items)
  have hplaces : (separated [", "] ((List.range items).map place)).all (Piece.isBasic false) :=
    (Piece.composes_all (Piece.isBasic false)).separated rfl fun i _ => hp i
  simp only [isBasic, tight, hsteps, Shape.every, Layout.tight, List.flatten_cons, List.flatten_nil, List.append_nil,
    List.all_append, hb, hplaces, ha, Bool.and_self]

end Template

/-- **Every construct other than a text is written in basic characters**, and only statements end lines. -/
theorem Language.template_isBasic (language : Language) (form : Form) (h : ∀ content, form ≠ .text content) :
    (language.template form).isBasic form.isStatement := by
  cases form using Form.byData with
  | plain form hm =>
    have hplain : ∀ form ∈ Form.plain, (language.template form).isBasic form.isStatement := by
      cases language <;> decide +kernel
    exact hplain form hm
  | number literal =>
    have hprintable : MadeOf ⟨fun c => Text.isPrintable c, fun _ h => h⟩
      (language.numberLiteral (Binary64.parsePrefix literal)) := .numberLiteral language _
    have hbasic : ∀ c ∈ (language.numberLiteral (Binary64.parsePrefix literal)).toList, Text.isBasic false c :=
      fun c hc => by simpa [Text.isBasic] using hprintable c hc
    have hall := List.all_eq_true.2 hbasic
    cases language <;>
      simpa [template, Target.JavaScript.template, Target.Dart.template, Target.Python.template, Template.isBasic,
        Template.tight, Form.isStatement, Shape.every, Layout.tight, Piece.isBasic] using hall
  | text content => exact absurd rfl (h content)
  | list items => cases language <;> exact Template.list_isBasic (items + 3) rfl rfl fun _ => rfl
  | choice elseifs otherwise =>
    have hbrace : ∀ n, (Target.Brace.conditionPieces n).all (Piece.isBasic true) := fun n => by cases n <;> rfl
    have hpython : ∀ n, (Target.Python.conditionPieces n).all (Piece.isBasic true) := fun n => by cases n <;> rfl
    cases language with
    | javascript => exact Template.choice_isBasic rfl elseifs otherwise hbrace (by cases otherwise <;> rfl)
    | dart => exact Template.choice_isBasic rfl elseifs otherwise hbrace (by cases otherwise <;> rfl)
    | python => exact Template.choice_isBasic rfl elseifs otherwise hpython (by cases otherwise <;> rfl)
  | onList op =>
    obtain ⟨j1, j2, j3, j4, j5, -⟩ := Target.JavaScript.helpers_isBasic
    obtain ⟨d1, d2, d3, d4, d5, -⟩ := Target.Dart.helpers_isBasic
    obtain ⟨p1, p2, p3, p4, -⟩ := Target.Python.helpers_isBasic
    cases language <;> cases op <;>
      simp only [template, Target.JavaScript.template, Target.JavaScript.onList, Target.JavaScript.onListBy,
        Target.Dart.template, Target.Dart.onList, Target.Python.template, Target.Python.onList, Template.isBasic,
        Template.tight, Template.list, List.all_cons, Step.isBasic, j1, j2, j3, j4, j5, d1, d2, d3, d4, d5, p1, p2, p3,
        p4, Bool.true_and] <;> rfl
  | changeCase style =>
    obtain ⟨-, -, -, -, -, jt⟩ := Target.JavaScript.helpers_isBasic
    obtain ⟨-, -, -, -, -, dt⟩ := Target.Dart.helpers_isBasic
    obtain ⟨-, -, -, -, pt⟩ := Target.Python.helpers_isBasic
    cases language <;> cases style <;>
      simp only [template, Target.JavaScript.template, Target.JavaScript.changeCase, Target.Dart.template,
        Target.Dart.changeCase, Target.Python.template, Target.Python.changeCase, Template.isBasic, Template.tight,
        Template.string, List.all_cons, Step.isBasic, jt, dt, pt, Bool.true_and] <;> rfl
  | _ => cases language <;> rfl

/-! ## Rendering -/

section

variable {alphabet : Alphabet} {texts : List String} {ends : Bool}

theorem MadeOf.textAt (h : ∀ text ∈ texts, MadeOf alphabet text) (i : Nat) :
    MadeOf alphabet (Piece.textAt texts i) := by
  unfold Piece.textAt
  rw [List.getD_eq_getElem?_getD]
  cases hi : texts[i]? with
  | none => exact .empty
  | some text => exact h text (List.mem_of_getElem? hi)

theorem Piece.madeOf_render (he : ends → alphabet.mem '\n') (h : ∀ text ∈ texts, MadeOf alphabet text) {piece : Piece}
    (hp : piece.isBasic ends) : MadeOf alphabet (piece.render texts) := by
  have hat := MadeOf.textAt h
  cases piece with
  | text code => exact .basic he hp
  | hole i => exact hat i
  | receiver i => exact (hat i).receiver
  | guardMinus i => exact (hat i).guardMinus
  | guardWord i => exact (hat i).guardWord
  | boundAbove i => exact (hat i).boundAbove
  | indexBefore i => exact (hat i).indexBefore
  | indexBeforeClamped i => exact (hat i).indexBeforeClamped
  | rangeStart i => exact (hat i).rangeStart
  | procedureBody statements result stop noop =>
    simp only [isBasic, Bool.and_eq_true] at hp
    obtain ⟨⟨hends, hstop⟩, hnoop⟩ := hp
    exact .procedureBody (he hends) (hat statements) (hat result) (.basic (fun _ => he hends) hstop) (.printable hnoop)

theorem Piece.madeOf_renderAll (he : ends → alphabet.mem '\n') (h : ∀ text ∈ texts, MadeOf alphabet text)
    {pieces : List Piece} (hp : pieces.all (isBasic ends)) : MadeOf alphabet (renderAll texts pieces) := by
  induction pieces with
  | nil => exact .empty
  | cons piece rest ih =>
    rw [List.all_cons, Bool.and_eq_true] at hp
    exact (madeOf_render he h hp.1).append (ih hp.2)

/-- **Code is made of what the texts in its places are made of.** -/
theorem Template.madeOf_render {template : Template} (ht : template.isBasic ends) (he : ends → alphabet.mem '\n')
    (h : ∀ text ∈ texts, MadeOf alphabet text) (bare : Bool) : MadeOf alphabet (template.render texts bare) := by
  rw [isBasic, Bool.and_eq_true] at ht
  have hcode := Piece.madeOf_renderAll he h (Shape.check_layout ht.2 texts)
  unfold render Layout.render
  simp only
  split_ifs
  · exact hcode.parenthesize bare
  · exact hcode

end

/-! ## States -/

/-- an alphabet for definitions: it has line feeds, and all characters that operands are made of -/
structure Alphabet.Within (alphabet wide : Alphabet) : Prop where
  newline : wide.mem '\n'
  subset : ∀ c, alphabet.mem c → wide.mem c

theorem MadeOf.widen {alphabet wide : Alphabet} (hw : alphabet.Within wide) {code : String} (h : MadeOf alphabet code) :
    MadeOf wide code :=
  fun c hc => hw.subset c (h c hc)

/-- a state with identifiers for names, and with definitions made of the characters of two alphabets -/
structure Pass.Spelled (alphabet wide : Alphabet) (pass : Pass) : Prop where
  names : pass.names.WellFormed
  titles : ∀ definition ∈ pass.registry.entries, ∀ name ∈ definition.name, MadeOf alphabet name
  sources : ∀ definition ∈ pass.registry.entries, MadeOf wide definition.source

theorem Pass.spelled_start (alphabet wide : Alphabet) (language : Language) :
    (Pass.start language).Spelled alphabet wide :=
  ⟨Names.wellFormed_start _, List.forall_mem_nil _, List.forall_mem_nil _⟩

namespace Gen

variable {alphabet wide : Alphabet}

theorem spelled_nameOf (role : Role) (user : String) :
    Yields (Pass.Spelled alphabet wide) (nameOf role user) (MadeOf alphabet) := by
  refine fun pass hp => ⟨⟨(hp.names.bind role user).2, hp.titles, hp.sources⟩, ?_⟩
  rintro _ ⟨⟩
  exact .identifier (hp.names.bind role user).1

theorem spelled_freshName (base : String) :
    Yields (Pass.Spelled alphabet wide) (freshName base) (MadeOf alphabet) := by
  refine fun pass hp => ⟨⟨hp.names.distinct base, hp.titles, hp.sources⟩, ?_⟩
  rintro _ ⟨⟩
  exact .identifier (Names.isIdentifier_distinct pass.names base)

theorem spelled_define {key source : String} {name : Option String} (hn : ∀ n ∈ name, MadeOf alphabet n)
    (hs : MadeOf wide source) : Yields (Pass.Spelled alphabet wide) (define key name source) fun _ => True := by
  refine fun pass hp => ⟨?_, fun _ _ => trivial⟩
  rw [Pass.perform_define]
  refine ⟨hp.names, ?_, ?_⟩
  all_goals
    simp only [Registry.entries_request]
    split_ifs
  · exact hp.titles
  · exact List.forall_mem_append.2 ⟨hp.titles, List.forall_mem_singleton.2 hn⟩
  · exact hp.sources
  · exact List.forall_mem_append.2 ⟨hp.sources, List.forall_mem_singleton.2 hs⟩

theorem spelled_defineNamed {key name source : String} (hn : MadeOf alphabet name) (hs : MadeOf wide source) :
    Yields (Pass.Spelled alphabet wide) (define key (some name) source) fun _ => True := by
  refine spelled_define (fun n hm => ?_) hs
  exact Option.mem_some_iff.1 hm ▸ hn

/-- the name of a helper may be missing, when its key was taken by something without a name -/
theorem spelled_provide (key base : String) {source : String → String}
    (hs : ∀ name, MadeOf alphabet name → MadeOf wide (source name)) :
    Yields (Pass.Spelled alphabet wide) (provide key base source) (MadeOf alphabet) := by
  intro pass hp
  simp only [provide, Pass.perform_bind, Pass.perform_get]
  cases hf : pass.registry.find? key with
  | some definition =>
    refine yields_pure ?_ pass hp
    cases hname : definition.name with
    | none => exact .empty
    | some name => exact hp.titles definition (Registry.mem_of_find? hf) name hname
  | none =>
    refine (spelled_freshName base).bind (fun name hname => ?_) pass hp
    exact (spelled_defineNamed hname (hs name hname)).bind fun _ _ => yields_pure hname

theorem spelled_declareTemporary (hw : alphabet.Within wide) (base : String) :
    Yields (Pass.Spelled alphabet wide) (declareTemporary base) (MadeOf alphabet) := by
  refine (spelled_freshName base).bind fun name hname => ?_
  have hline : MadeOf wide ("var " ++ name ++ ";") :=
    ((MadeOf.printable rfl).append (hname.widen hw)).append (.printable rfl)
  exact (spelled_defineNamed hname hline).bind fun _ _ => yields_pure hname

end Gen

/-! ## Steps -/

theorem Helper.madeOf_source {alphabet wide : Alphabet} (hw : alphabet.Within wide) {helper : Helper}
    (h : helper.isBasic) {name : String} (hn : MadeOf alphabet name) : MadeOf wide (helper.source name) := by
  simp only [isBasic, Bool.and_eq_true, List.all_eq_true (l := helper.body)] at h
  obtain ⟨⟨hbefore, hafter⟩, hbody⟩ := h
  refine .joinWith (.newline hw.newline) (List.forall_mem_cons.2 ⟨?_, fun line hm => .printable (hbody line hm)⟩)
  exact ((MadeOf.printable hbefore).append (hn.widen hw)).append (.printable hafter)

/-- the blocks in the slots that are visited give code of the characters of an alphabet -/
structure Site.Spelled (alphabet wide : Alphabet) (site : Site) (visits : List Visit) : Prop where
  value : ∀ slot, .value slot ∈ visits → ∀ child, Slots.get? slot site.values = some child → ∀ bare,
    (child.code bare).Yields (Pass.Spelled alphabet wide) (MadeOf alphabet)
  statement : ∀ slot, .statement slot ∈ visits → ∀ first, Slots.get? slot site.statements = some first →
    first.chain.Yields (Pass.Spelled alphabet wide) (MadeOf alphabet)

namespace Site.Spelled

variable {alphabet wide : Alphabet} {site : Site} {visits : List Visit} {slot : Nat}

theorem valueOr (hs : site.Spelled alphabet wide visits) (hv : .value slot ∈ visits) (bare : Bool) {absent : String}
    (ha : MadeOf alphabet absent) :
    (site.value slot bare absent).Yields (Pass.Spelled alphabet wide) (MadeOf alphabet) := by
  have hfound := Site.yields_found fun child hc => hs.value slot hv child hc bare
  exact Site.yields_value hfound (fun text htext => htext text rfl) fun _ => ha

theorem statement? (hs : site.Spelled alphabet wide visits) (hv : .statement slot ∈ visits) (he : alphabet.mem '\n') :
    (site.statement? slot).Yields (Pass.Spelled alphabet wide) fun found => ∀ text ∈ found, MadeOf alphabet text := by
  exact Site.yields_foundLines (fun first hc => hs.statement slot hv first hc) fun _ _ hcode =>
    hcode.prefixLines he (.printable rfl)

theorem branch (hs : site.Spelled alphabet wide visits) (hv : .statement slot ∈ visits) (he : alphabet.mem '\n') :
    (site.branch slot).Yields (Pass.Spelled alphabet wide) (MadeOf alphabet) := by
  refine Site.yields_branch (hs.statement? hv he) (fun text htext => htext text rfl) fun _ pass _ => ?_
  have hnoop : MadeOf alphabet pass.language.noop := by cases pass.language <;> exact .printable rfl
  exact ((MadeOf.printable rfl).append hnoop).append (.newline he)

end Site.Spelled

section

variable {alphabet wide : Alphabet} {language : Language} {form : Form} {site : Site}

/-- **One step** leaves a text of the characters of the alphabet. -/
theorem Step.spelled_run (hw : alphabet.Within wide) (he : form.isStatement → alphabet.mem '\n') {step : Step}
    (hm : step ∈ (language.template form).steps) (hb : step.isBasic) (hs : site.Spelled alphabet wide form.visits)
    {texts : List String} (ht : ∀ text ∈ texts, MadeOf alphabet text) :
    (step.run site texts).Yields (Pass.Spelled alphabet wide) fun texts' => ∀ text ∈ texts', MadeOf alphabet text := by
  have hvisit : ∀ visit ∈ step.visits, visit ∈ form.visits := fun _ => mem_visits_of_step hm
  -- only statements visit statement slots
  have hends : ∀ {slot : Nat}, .statement slot ∈ form.visits → alphabet.mem '\n' := by
    intro slot hv
    refine he (Bool.of_not_eq_false fun hf => ?_)
    exact Form.no_statement_visited hf slot hv
  have hone : ∀ {text : String}, MadeOf alphabet text → ∀ text' ∈ texts ++ [text], MadeOf alphabet text' :=
    fun h => List.forall_mem_append.2 ⟨ht, List.forall_mem_singleton.2 h⟩
  cases step with
  | value slot bare absent =>
    exact (hs.valueOr (hvisit _ List.mem_cons_self) bare (.printable hb)).bind fun _ h => Gen.yields_pure (hone h)
  | branch slot =>
    have hv := hvisit _ List.mem_cons_self
    exact (hs.branch hv (hends hv)).bind fun _ h => Gen.yields_pure (hone h)
  | body slot =>
    have hv := hvisit _ List.mem_cons_self
    refine (hs.statement? hv (hends hv)).bind fun found hfound => Gen.yields_pure (hone ?_)
    cases found with
    | none => exact .empty
    | some text => exact hfound text rfl
  | userVariable user => exact (Gen.spelled_nameOf _ user).bind fun _ h => Gen.yields_pure (hone h)
  | userProcedure user => exact (Gen.spelled_nameOf _ user).bind fun _ h => Gen.yields_pure (hone h)
  | fresh base => exact (Gen.spelled_freshName base).bind fun _ h => Gen.yields_pure (hone h)
  | temporary base => exact (Gen.spelled_declareTemporary hw base).bind fun _ h => Gen.yields_pure (hone h)
  | helper helper =>
    exact (Gen.spelled_provide _ _ fun name hn => Helper.madeOf_source hw hb hn).bind fun _ h =>
      Gen.yields_pure (hone h)
  | require library =>
    exact (Gen.spelled_define (by simp) (.printable hb)).bind fun _ _ => Gen.yields_pure ht
  | hoist key name source =>
    have hwide : ∀ text ∈ texts, MadeOf wide text := fun text hm => (ht text hm).widen hw
    exact (Gen.spelled_defineNamed (MadeOf.textAt ht name)
      (Piece.madeOf_renderAll (fun _ => hw.newline) hwide hb)).bind fun _ _ => Gen.yields_pure ht

/-- **All steps in a row.** -/
theorem Step.spelled_runAll (hw : alphabet.Within wide) (he : form.isStatement → alphabet.mem '\n') {steps : List Step}
    (hm : ∀ step ∈ steps, step ∈ (language.template form).steps) (hb : ∀ step ∈ steps, step.isBasic)
    (hs : site.Spelled alphabet wide form.visits) {texts : List String} (ht : ∀ text ∈ texts, MadeOf alphabet text) :
    (Step.runAll site texts steps).Yields (Pass.Spelled alphabet wide) fun texts' =>
      ∀ text ∈ texts', MadeOf alphabet text := by
  induction steps generalizing texts with
  | nil => exact Gen.yields_pure ht
  | cons step rest ih =>
    obtain ⟨hstep, hrest⟩ := List.forall_mem_cons.1 hm
    obtain ⟨hfirst, hothers⟩ := List.forall_mem_cons.1 hb
    exact (Step.spelled_run hw he hstep hfirst hs ht).bind fun between hbetween => ih hrest hothers hbetween

/-- the literals of texts are made of the characters of an alphabet -/
def Quotable (alphabet : Alphabet) (language : Language) (forms : List Form) : Prop :=
  ∀ content, .text content ∈ forms → MadeOf alphabet (language.quote content)

theorem Language.render_text (language : Language) (content : String) (texts : List String) (bare : Bool) :
    (language.template (.text content)).steps = [] ∧
      (language.template (.text content)).render texts bare = language.quote content := by
  cases language <;> exact ⟨rfl, String.append_empty⟩

/-- **A construct** is written in the characters of its operands and of its literal, if it is one. -/
theorem Template.spelled_runAll (hw : alphabet.Within wide) (he : form.isStatement → alphabet.mem '\n')
    (hq : Quotable alphabet language [form]) (hs : site.Spelled alphabet wide form.visits) (bare : Bool) :
    (Step.runAll site [] (language.template form).steps).Yields (Pass.Spelled alphabet wide) fun texts =>
      MadeOf alphabet ((language.template form).render texts bare) := by
  by_cases htext : ∃ content, form = .text content
  · obtain ⟨content, rfl⟩ := htext
    rw [(language.render_text content [] bare).1]
    refine Gen.yields_pure ?_
    rw [(language.render_text content [] bare).2]
    exact hq content (List.mem_singleton.2 rfl)
  · have hbasic := language.template_isBasic form fun content hc => htext ⟨content, hc⟩
    have hsteps : ∀ step ∈ (language.template form).steps, step.isBasic := by
      rw [isBasic, Bool.and_eq_true] at hbasic
      exact List.all_eq_true.1 hbasic.1
    exact (Step.spelled_runAll hw he (fun _ h => h) hsteps hs (List.forall_mem_nil _)).imp fun texts ht =>
      madeOf_render hbasic he ht bare

end

/-! ## Blocks -/

theorem Quotable.mono {alphabet : Alphabet} {language : Language} {forms fewer : List Form}
    (h : Quotable alphabet language forms) (hsub : ∀ form ∈ fewer, form ∈ forms) :
    Quotable alphabet language fewer :=
  fun content hm => h content (hsub _ hm)

/-- what is visited in a slot is visited in the block -/
theorem Head.mem_constructs {head : Head} {form : Form} (hf : head.form = .ok form)
    {values statements : List (Nat × Constructs)} {other : Form} :
    other ∈ head.constructs values statements ↔
      other = form ∨ ∃ visit ∈ form.visits, other ∈ visit.constructs values statements := by
  rw [constructs, hf, List.mem_cons, List.mem_flatMap]

namespace Block

variable {alphabet wide : Alphabet} {language : Language}

/-- the blocks in the slots that are visited are spelled, if they are when their literals can be quoted -/
theorem site_spelled {head : Head} {form : Form} {values statements : List (Nat × Block)} (hf : head.form = .ok form)
    (hv : ∀ entry ∈ values, Quotable alphabet language entry.2.constructs.own → ∀ bare,
      (entry.2.code (.standard language) bare).Yields (Pass.Spelled alphabet wide) (MadeOf alphabet))
    (hs : ∀ entry ∈ statements, Quotable alphabet language entry.2.constructs.chain →
      (entry.2.chainCode (.standard language)).Yields (Pass.Spelled alphabet wide) (MadeOf alphabet))
    (hq : Quotable alphabet language (head.constructs (slotConstructs values) (slotConstructs statements))) :
    Site.Spelled alphabet wide ⟨emissions (.standard language) values, emissions (.standard language) statements⟩
      form.visits := by
  constructor
  · intro slot hvisit child hc bare
    obtain ⟨block, hblock, rfl⟩ := exists_of_get?_emissions hc
    obtain ⟨entry, he, rfl⟩ := Slots.mem_of_get? hblock
    refine hv entry he (hq.mono fun other ho => (Head.mem_constructs hf).2 (.inr ⟨_, hvisit, ?_⟩)) bare
    rw [Visit.constructs, get?_slotConstructs, hblock]
    exact ho
  · intro slot hvisit child hc
    obtain ⟨block, hblock, rfl⟩ := exists_of_get?_emissions hc
    obtain ⟨entry, he, rfl⟩ := Slots.mem_of_get? hblock
    refine hs entry he (hq.mono fun other ho => (Head.mem_constructs hf).2 (.inr ⟨_, hvisit, ?_⟩))
    rw [Visit.constructs, get?_slotConstructs, hblock]
    exact ho

theorem spelled_link (he : alphabet.mem '\n') {head : Head} {code : Bool → Gen String}
    (h : (code true).Yields (Pass.Spelled alphabet wide) (MadeOf alphabet)) :
    (head.link code).Yields (Pass.Spelled alphabet wide) (MadeOf alphabet) := by
  refine (Gen.yields_ofExcept _).bind fun kind _ => h.bind fun text htext => ?_
  split
  · exact Gen.yields_pure htext
  · refine Gen.yields_get.bind fun pass _ => Gen.yields_pure ?_
    cases pass.language with
    | python => exact htext.append (.newline he)
    | javascript => exact htext.append ((MadeOf.printable (a := ";") rfl).append (.newline he))
    | dart => exact htext.append ((MadeOf.printable (a := ";") rfl).append (.newline he))

/-- **The code of a block** and of the chain below it is made of the characters of an alphabet with line feeds, if the
literals in them are. -/
theorem spelled_emission (hw : alphabet.Within wide) (he : alphabet.mem '\n') (block : Block) :
    (Quotable alphabet language block.constructs.own → ∀ bare,
      (block.code (.standard language) bare).Yields (Pass.Spelled alphabet wide) (MadeOf alphabet)) ∧
    (Quotable alphabet language block.constructs.chain →
      (block.chainCode (.standard language)).Yields (Pass.Spelled alphabet wide) (MadeOf alphabet)) := by
  induction block with
  | mk head values statements next hv hs hn =>
    have hcode : Quotable alphabet language (head.constructs (slotConstructs values) (slotConstructs statements)) →
        ∀ bare, ((mk head values statements next).code (.standard language) bare).Yields (Pass.Spelled alphabet wide)
          (MadeOf alphabet) := by
      intro hq bare
      refine yields_code_forall next fun form hf => ?_
      have hsite := site_spelled hf (fun entry he => (hv entry he).1) (fun entry he => (hs entry he).2) hq
      have hown : Quotable alphabet language [form] :=
        hq.mono fun other ho => (Head.mem_constructs hf).2 (.inl (List.mem_singleton.1 ho))
      exact Template.spelled_runAll hw (fun _ => he) hown hsite bare
    refine ⟨hcode, fun hq => ?_⟩
    have hown : (head.link ((mk head values statements next).code (.standard language))).Yields
        (Pass.Spelled alphabet wide) (MadeOf alphabet) :=
      spelled_link he (hcode (hq.mono fun _ h => List.mem_append_left _ h) true)
    refine hown.bind fun own ho => ?_
    have hbelow : (nextChain (.standard language) next).Yields (Pass.Spelled alphabet wide) (MadeOf alphabet) := by
      cases next with
      | none => exact Gen.yields_pure .empty
      | some below => exact (hn below rfl).2 (hq.mono fun _ h => List.mem_append_right _ h)
    exact hbelow.bind fun rest hr => Gen.yields_pure (ho.append hr)

theorem spelled_chainsCode (hw : alphabet.Within wide) (he : alphabet.mem '\n') {blocks : List Block}
    (hq : Quotable alphabet language (blocks.flatMap fun block => block.constructs.chain)) :
    (chainsCode (.standard language) blocks).Yields (Pass.Spelled alphabet wide) (MadeOf alphabet) := by
  induction blocks with
  | nil => exact Gen.yields_pure .empty
  | cons block rest ih =>
    rw [List.flatMap_cons] at hq
    have hfirst := (block.spelled_emission hw he).2 (hq.mono fun _ h => List.mem_append_left _ h)
    have hothers := ih (hq.mono fun _ h => List.mem_append_right _ h)
    exact hfirst.bind fun first hf => hothers.bind fun others ho => Gen.yields_pure (hf.append ho)

end Block

/-! ## Programs -/

theorem Pass.Spelled.finish {alphabet : Alphabet} {pass : Pass} (h : pass.Spelled alphabet alphabet)
    (he : alphabet.mem '\n') {body : String} (hb : MadeOf alphabet body) : MadeOf alphabet (pass.finish body) := by
  have hblank : MadeOf alphabet "\n\n" := .basic (fun _ : true => he) rfl
  have hsource : ∀ keep, ∀ source ∈ (pass.registry.entries.filter keep).map Definition.source,
      MadeOf alphabet source := by
    intro keep source hm
    obtain ⟨definition, hd, rfl⟩ := List.mem_map.1 hm
    exact h.sources definition (List.mem_filter.1 hd).1
  have hdefinitions : ∀ text ∈ pass.definitionSections, MadeOf alphabet text := by
    unfold definitionSections
    split_ifs
    · exact List.forall_mem_nil _
    · refine List.forall_mem_singleton.2 (.joinWith hblank ?_)
      unfold Registry.sections
      simp only
      split_ifs
      · exact hsource _
      · exact List.forall_mem_cons.2 ⟨.joinWith (.newline he) (hsource _), hsource _⟩
  have hvariables : ∀ text ∈ pass.variableSections, MadeOf alphabet text := by
    unfold variableSections
    split_ifs
    · have hnames : MadeOf alphabet (Text.joinWith ", " pass.names.variableNames) :=
        .joinWith (.printable rfl) fun name hm => .identifier (h.names.variableNames name hm)
      exact List.forall_mem_singleton.2 (((MadeOf.printable rfl).append hnames).append (.printable rfl))
    · exact List.forall_mem_nil _
  have hbody : ∀ text ∈ pass.bodySections body, MadeOf alphabet text := by
    unfold bodySections
    split_ifs
    · have hopen : MadeOf alphabet "main() \x7b\n" := .basic (fun _ : true => he) rfl
      exact List.forall_mem_singleton.2 ((hopen.append (hb.prefixLines he (.printable rfl))).append (.printable rfl))
    · exact List.forall_mem_nil _
    · exact List.forall_mem_singleton.2 hb.dropFinalNewlines
  refine (MadeOf.joinWith hblank ?_).append (.newline he)
  exact List.forall_mem_append.2 ⟨List.forall_mem_append.2 ⟨hdefinitions, hvariables⟩, hbody⟩

/-- **A program is made of the characters of an alphabet with line feeds**, if the literals of the texts visited in it
are. -/
theorem generate_madeOf {alphabet : Alphabet} (he : alphabet.mem '\n') {language : Language} {blocks : List Block}
    (hq : Quotable alphabet language (blocks.flatMap fun block => block.constructs.chain)) {program : String}
    (h : generate language blocks = .ok program) : MadeOf alphabet program := by
  obtain ⟨body, pass, hrun, rfl⟩ := generate_ok_iff.1 h
  have hwithin : alphabet.Within alphabet := ⟨he, fun _ hc => hc⟩
  obtain ⟨hpass, hbody⟩ := Block.spelled_chainsCode hwithin he hq (.start language) (Pass.spelled_start _ _ language)
  rw [show (Pass.start language).perform _ = (.ok body, pass) from hrun] at hpass hbody
  exact hpass.finish he (hbody body rfl)

end Blockwork
