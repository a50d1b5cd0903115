/-
Code comes in fragments: a statement is whole lines, an expression stays within a line.

- `EndsLine`, `Indented`: a text whose last line is ended, and one whose lines are indented besides.
  `indented_prefixLines`: what is put into a body is indented, whatever it is.
- `Template.endsLine_render`: the code of a statement ends its last line, because `Template.isRowed` follows its lines
  and the texts of its branches end theirs. Nothing is asked of the operands.
- `Language.shape_isWritten`: no code is empty, but for procedures in Dart, which are hoisted.
- `Block.spelled_value`: the code of an expression stays within a line, if it is built of expressions.
- `fragments_keep_convention`: the main statement.
-/
import Blockwork.Proofs.Characters

namespace Blockwork

/-! ## Ended and indented text -/

/-- a text whose last line is ended -/
def EndsLine (code : String) : Prop := code.toList.getLast? = some '\n'

/-- a text whose last line is ended, with two blanks in front of every line that is not empty -/
structure Indented (code : String) : Prop where
  ended : EndsLine code
  lead : ∀ line ∈ code.toList.splitOn '\n', line ≠ [] → "  ".toList <+: line

theorem EndsLine.behind {a b : String} (h : EndsLine b) : EndsLine (a ++ b) := by
  have hne : b.toList ≠ [] := fun hnil => by rw [EndsLine, hnil] at h; cases h
  rw [EndsLine, String.toList_append, List.getLast?_append_of_ne_nil _ hne]
  exact h

namespace Text

/-- a line with `lead` in front, unless it is empty -/
def leadLine (lead line : List Char) : List Char :=
  if line.isEmpty then [] else lead ++ line

theorem indentChars_eq_ended (lead cs : List Char) : indentChars lead cs = ended ((lines cs).map (leadLine lead)) := by
  rw [indentChars, ended, List.flatMap_map]
  refine List.flatMap_congr fun line _ => ?_
  unfold indentLine leadLine
  split_ifs <;> rfl

theorem lines_ne_nil {cs : List Char} (h : cs ≠ []) : lines cs ≠ [] := by
  unfold lines
  split
  · exact absurd rfl h
  · exact List.cons_ne_nil _ _
  · exact List.cons_ne_nil _ _
  · split <;> exact List.cons_ne_nil _ _

theorem getLast?_ended {rows : List (List Char)} (h : rows ≠ []) : (ended rows).getLast? = some '\n' := by
  obtain ⟨front, last, rfl⟩ := (List.eq_nil_or_concat rows).resolve_left h
  rw [List.concat_eq_append, ended_concat, ← List.append_assoc, List.getLast?_concat]

end Text

/-- **What is put into a body is indented**, whatever it is. -/
theorem indented_prefixLines {code : String} (h : code ≠ "") : Indented (Text.prefixLines code Text.indentation) := by
  have hlines : Text.lines code.toList ≠ [] := Text.lines_ne_nil (mt String.toList_eq_nil_iff.1 h)
  have hrows : ∀ row ∈ (Text.lines code.toList).map (Text.leadLine Text.indentation.toList), '\n' ∉ row := by
    intro row hm hn
    obtain ⟨line, hline, rfl⟩ := List.mem_map.1 hm
    unfold Text.leadLine at hn
    split_ifs at hn
    · cases hn
    · rcases List.mem_append.1 hn with hn | hn
      · exact absurd hn (by decide)
      · exact (Text.mem_of_mem_lines hline hn).2 rfl
  have hchars : (Text.prefixLines code Text.indentation).toList =
      Text.ended ((Text.lines code.toList).map (Text.leadLine Text.indentation.toList)) := by
    rw [Text.prefixLines, String.toList_ofList, Text.indentChars_eq_ended]
  constructor
  · rw [EndsLine, hchars]
    exact Text.getLast?_ended (by simpa using hlines)
  · intro line hm hne
    rw [hchars, Text.splitOn_ended hrows, List.mem_append, List.mem_singleton] at hm
    obtain ⟨own, -, rfl⟩ := List.mem_map.1 (hm.resolve_right hne)
    unfold Text.leadLine at hne ⊢
    split_ifs at hne ⊢
    · exact absurd rfl hne
    · exact List.prefix_append _ _

/-! ## Ends of statements -/

/-- what is certain about the end of a text that a step leaves -/
def Texture.Ends : Texture → String → Prop
  | rows, text => text = "" ∨ EndsLine text
  | _, _ => True

/-- where no line has begun behind a text, its last line is ended, or there is nothing of it -/
theorem Text.endsLine_of_flow {begun : Bool} {cs : List Char} (h : flow true begun cs = some false) :
    cs.getLast? = some '\n' ∨ cs = [] ∧ begun = false := by
  rcases List.eq_nil_or_concat cs with rfl | ⟨front, last, rfl⟩
  · exact .inr ⟨rfl, Option.some.inj h⟩
  · rw [List.concat_eq_append, flow_concat, Option.bind_eq_some_iff] at h
    obtain ⟨between, -, hlast⟩ := h
    rcases advance_eq_some hlast with ⟨rfl, -⟩ | ⟨-, -, hfalse⟩
    · exact .inl (by simp)
    · cases hfalse

section

variable {textures : List Texture} {texts : List String}

theorem Texture.ends_textAt (h : List.Forall₂ Texture.Ends textures texts) (i : Nat) :
    (Piece.texture textures i).Ends (Piece.textAt texts i) :=
  Piece.rel_textAt trivial h i

theorem endsLine_procedureBody {statements result stop noop : String} (h : statements = "" ∨ EndsLine statements)
    (hs : EndsLine stop) : EndsLine (procedureBody statements result stop noop) := by
  unfold procedureBody
  split_ifs with hresult hstatements
  · exact hs.behind
  · exact h.resolve_left (by simpa using hstatements)
  · exact EndsLine.behind (b := "\n") rfl

/-- a piece behind which no line has begun ends the last line, or writes nothing -/
theorem Piece.endsLine_render (h : List.Forall₂ Texture.Ends textures texts) {piece : Piece} {begun : Bool}
    (hp : piece.flow textures true begun = some false) :
    EndsLine (piece.render texts) ∨ piece.render texts = "" ∧ begun = false := by
  have hends := Texture.ends_textAt h
  -- behind the place of an expression a line has begun
  have hword : ∀ {p : Prop} [Decidable p], (if p then some true else none) ≠ some false := by
    intro p _ hfalse
    split_ifs at hfalse
    cases hfalse
  cases piece with
  | text code => exact (Text.endsLine_of_flow hp).imp_right fun he => ⟨String.toList_eq_nil_iff.1 he.1, he.2⟩
  | hole i =>
    have hend := hends i
    rw [flow] at hp
    cases hi : texture textures i with
    | word => rw [hi] at hp; cases hp
    | gap => rw [hi] at hp; cases hp
    | rows =>
      rw [hi] at hp hend
      cases begun with
      | true => cases hp
      | false => exact hend.symm.imp_right fun he => ⟨he, rfl⟩
  | procedureBody statements result stop noop =>
    rw [flow] at hp
    split_ifs at hp with hbody
    simp only [Bool.and_eq_true, decide_eq_true_eq] at hbody
    obtain ⟨⟨⟨⟨-, hstatements⟩, -⟩, hstop⟩, -⟩ := hbody
    have hrows := hends statements
    rw [hstatements] at hrows
    have hend : EndsLine stop := (Text.endsLine_of_flow hstop).resolve_right fun he => Bool.noConfusion he.2
    exact .inl (endsLine_procedureBody hrows hend)
  | _ => exact absurd hp hword

theorem Piece.endsLine_renderAll (h : List.Forall₂ Texture.Ends textures texts) {pieces : List Piece} {begun : Bool}
    (hp : flowAll textures true begun pieces = some false) :
    EndsLine (renderAll texts pieces) ∨ renderAll texts pieces = "" ∧ begun = false := by
  induction pieces using List.reverseRecOn with
  | nil => exact .inr ⟨rfl, Option.some.inj hp⟩
  | append_singleton front last ih =>
    rw [flowAll_append, Option.bind_eq_some_iff] at hp
    obtain ⟨between, hfront, hlast⟩ := hp
    have hlast : last.flow textures true between = some false := by simpa [flowAll] using hlast
    rw [renderAll_append, renderAll, renderAll, String.append_empty]
    rcases endsLine_render h hlast with hend | ⟨hempty, rfl⟩
    · exact .inl hend.behind
    · rw [hempty, String.append_empty]
      exact ih hfront

/-- **The code of a statement ends its last line**, if it is not empty. -/
theorem Template.endsLine_render {language : Language} {form : Form} (hf : form.isStatement = true)
    (h : List.Forall₂ Texture.Ends ((language.template form).steps.flatMap Step.textures) texts) (bare : Bool) :
    EndsLine ((language.template form).render texts bare) ∨ (language.template form).render texts bare = "" := by
  have hrowed := language.template_isRowed form
  rw [hf, isRowed, Bool.and_eq_true] at hrowed
  have hlayout := Shape.layout_isRowed hrowed.2 texts
  simp only [Layout.isRowed, if_true, Bool.and_eq_true, Bool.not_eq_true', decide_eq_true_eq] at hlayout
  unfold render Layout.render
  simp only [hlayout.1, Bool.false_eq_true, if_false]
  exact (Piece.endsLine_renderAll h hlayout.2).imp_right And.left

end

/-! ## Empty code -/

/-- whether a piece writes something, whatever the texts in its places -/
def Piece.isWritten : Piece → Bool
  | text code => code ≠ ""
  | _ => false

/-- whether every layout of a shape writes something by itself -/
def Shape.isWritten (shape : Shape) : Bool :=
  shape.every fun layout => layout.pieces.any Piece.isWritten

theorem Shape.text_isWritten {code : String} (h : code ≠ "") : (always (.tight [.text code])).isWritten := by
  simp [isWritten, every, Layout.tight, Piece.isWritten, h]

theorem Template.choice_isWritten (steps : List Step) (elseifs : Nat) {condition : Nat → List Piece}
    (rest : List (List Piece)) (h : (condition 0).any Piece.isWritten) :
    (tight steps (.flatten ((List.range (elseifs + 1)).flatMap condition :: rest))).shape.isWritten := by
  simp only [tight, Shape.isWritten, Shape.every, Layout.tight, List.flatten_cons, List.any_append, List.range_succ_eq_map,
    List.flatMap_cons, h, Bool.true_or]

/-- **A construct writes something by itself**, unless it is a variable, or a procedure in Dart. -/
theorem Language.shape_isWritten (language : Language) {form : Form} (hg : ∀ name, form ≠ .get name)
    (hp : language = .dart → ∀ name, form ≠ .procedure name) : (language.template form).shape.isWritten := by
  cases form using Form.byData with
  | plain form hm =>
    have hplain : ∀ form ∈ Form.plain, (language.template form).shape.isWritten := by cases language <;> decide +kernel
    exact hplain form hm
  | number literal =>
    have hword := IsWord.numberLiteral language (Binary64.parsePrefix literal)
    cases language <;> exact Shape.text_isWritten hword.ne_empty
  | text content =>
    have hword := IsWord.quote language content
    cases language <;> exact Shape.text_isWritten hword.ne_empty
  | list items => cases language <;> rfl
  | choice elseifs otherwise => cases language <;> exact Template.choice_isWritten _ _ _ rfl
  | get name => exact absurd rfl (hg name)
  | procedure name =>
    cases language with
    | dart => exact absurd rfl (hp rfl name)
    | javascript => rfl
    | python => rfl
  | onList op => cases language <;> cases op <;> rfl
  | changeCase style => cases language <;> cases style <;> rfl
  | _ => cases language <;> rfl

theorem append_ne_empty {a b : String} (h : a ≠ "" ∨ b ≠ "") : a ++ b ≠ "" := by
  rw [Ne, ← String.toList_eq_nil_iff, String.toList_append, List.append_eq_nil_iff, String.toList_eq_nil_iff,
    String.toList_eq_nil_iff]
  exact fun hboth => h.elim (fun ha => ha hboth.1) fun hb => hb hboth.2

theorem Piece.renderAll_ne_empty {pieces : List Piece} (h : pieces.any isWritten) (texts : List String) :
    renderAll texts pieces ≠ "" := by
  induction pieces with
  | nil => cases h
  | cons piece rest ih =>
    rw [List.any_cons, Bool.or_eq_true] at h
    refine append_ne_empty (h.imp (fun hp => ?_) ih)
    cases piece with
    | text code => exact of_decide_eq_true hp
    | _ => cases hp

theorem Template.render_ne_empty {template : Template} (h : template.shape.isWritten) (texts : List String)
    (bare : Bool) : template.render texts bare ≠ "" := by
  have hcode := Piece.renderAll_ne_empty (Shape.check_layout h texts) texts
  unfold render Layout.render
  simp only
  split_ifs
  · cases bare with
    | true => exact hcode
    | false => exact append_ne_empty (.inl (append_ne_empty (.inr hcode)))
  · exact hcode

/-! ## Steps in any state -/

section

variable {language : Language} {form : Form} {site : Site}

theorem Site.indented_statement? (site : Site) (slot : Nat) :
    (site.statement? slot).Yields (fun _ => True) fun found => ∀ text ∈ found, Indented text := by
  exact Site.yields_foundLines (fun first _ => Gen.yields_any first.chain) fun _ hne _ => indented_prefixLines hne

/-- the statement that fills an empty body is a line of its own -/
theorem Language.indented_noop (language : Language) : Indented (Text.indentation ++ language.noop ++ "\n") := by
  have hline : Text.prefixLines language.noop Text.indentation = Text.indentation ++ language.noop ++ "\n" := by
    cases language <;> decide +kernel
  have hne : language.noop ≠ "" := by cases language <;> decide
  exact hline ▸ indented_prefixLines hne

theorem Site.indented_branch (site : Site) (slot : Nat) : (site.branch slot).Yields (fun _ => True) Indented := by
  exact Site.yields_branch (site.indented_statement? slot) (fun text htext => htext text rfl) fun _ pass _ =>
    pass.language.indented_noop

/-- **One step**: the text of a statement slot is empty or ends its last line. -/
theorem Step.ends_run (step : Step) {textures : List Texture} {texts : List String}
    (h : List.Forall₂ Texture.Ends textures texts) :
    (step.run site texts).Yields (fun _ => True) (List.Forall₂ Texture.Ends (textures ++ step.textures)) := by
  have hone : ∀ {texture : Texture} {text : String}, step.textures = [texture] → texture.Ends text →
      List.Forall₂ Texture.Ends (textures ++ step.textures) (texts ++ [text]) := by
    intro texture text ht hend
    rw [ht]
    exact List.rel_append h (.cons hend .nil)
  have hnone : step.textures = [] → List.Forall₂ Texture.Ends (textures ++ step.textures) texts := by
    intro ht
    rw [ht, List.append_nil]
    exact h
  cases step with
  | branch slot =>
    exact (site.indented_branch slot).bind fun text ht => Gen.yields_pure (hone rfl (.inr ht.ended))
  | body slot =>
    refine (site.indented_statement? slot).bind fun found hfound => Gen.yields_pure (hone rfl ?_)
    cases found with
    | none => exact .inl rfl
    | some text => exact .inr (hfound text rfl).ended
  | value slot bare absent =>
    refine (Gen.yields_any _).bind fun text _ => Gen.yields_pure (hone rfl ?_)
    split_ifs <;> trivial
  | require library => exact (Gen.yields_any _).bind fun _ _ => Gen.yields_pure (hnone rfl)
  | hoist key name source => exact (Gen.yields_any _).bind fun _ _ => Gen.yields_pure (hnone rfl)
  | _ => exact (Gen.yields_any _).bind fun _ _ => Gen.yields_pure (hone rfl trivial)

theorem Step.ends_runAll (steps : List Step) {textures : List Texture} {texts : List String}
    (h : List.Forall₂ Texture.Ends textures texts) :
    (Step.runAll site texts steps).Yields (fun _ => True)
      (List.Forall₂ Texture.Ends (textures ++ steps.flatMap Step.textures)) := by
  induction steps generalizing textures texts with
  | nil =>
    rw [List.flatMap_nil, List.append_nil]
    exact Gen.yields_pure h
  | cons step rest ih =>
    rw [List.flatMap_cons, ← List.append_assoc]
    exact (step.ends_run h).bind fun between hbetween => ih hbetween

end

/-! ## Blocks in any state -/

theorem Language.endsLine_expressionStatement (language : Language) (code : String) :
    EndsLine (language.expressionStatement code) := by
  cases language with
  | python => exact EndsLine.behind (b := "\n") rfl
  | javascript => exact EndsLine.behind (b := ";\n") rfl
  | dart => exact EndsLine.behind (b := ";\n") rfl

namespace Block

variable {language : Language}

/-- **A statement ends its last line**, in any state and with any operands, and the code of a construct is empty for a
procedure in Dart only, or for a variable. -/
theorem yields_fragment (block : Block) (bare : Bool) :
    (block.code (.standard language) bare).Yields (fun _ => True) fun code => ∃ form, block.head.form = .ok form ∧
      (form.isStatement = true → EndsLine code ∨ code = "") ∧
      ((∀ name, form ≠ .get name) → (language = .dart → ∀ name, form ≠ .procedure name) → code ≠ "") ∧
      (language = .dart → (∃ name, form = .procedure name) → code = "") := by
  obtain ⟨head, values, statements, next⟩ := block
  refine yields_code_of (fun form code => (form.isStatement = true → EndsLine code ∨ code = "") ∧
    ((∀ name, form ≠ .get name) → (language = .dart → ∀ name, form ≠ .procedure name) → code ≠ "") ∧
    (language = .dart → (∃ name, form = .procedure name) → code = "")) next fun form _ => ?_
  refine (Step.ends_runAll _ .nil).imp fun texts htexts => ⟨fun hs => ?_, fun hg hp => ?_, ?_⟩
  · exact Template.endsLine_render hs htexts bare
  · exact Template.render_ne_empty (language.shape_isWritten hg hp) texts bare
  · rintro rfl ⟨name, rfl⟩
    rfl

/-- what a block adds to its chain ends its last line, if it is not empty -/
theorem ends_link (head : Head) (values statements : List (Nat × Block)) (next : Option Block) :
    (head.link ((mk head values statements next).code (.standard language))).Yields (fun _ => True)
      fun own => own = "" ∨ EndsLine own := by
  refine (Gen.yields_ofExcept _).bind fun kind hkind => (yields_fragment _ true).bind fun code hcode => ?_
  obtain ⟨form, hform, hends, -, -⟩ := hcode
  obtain ⟨own, hown, hread⟩ := Head.exists_kind hform
  obtain rfl : own = kind := Except.ok.inj (hown.symm.trans (Stop.refusing_eq_ok_iff.1 hkind))
  rw [Form.isStatement_read hread] at hends
  split_ifs with hstays
  · rw [Bool.or_eq_true, String.isEmpty_iff] at hstays
    exact Gen.yields_pure (hstays.elim (fun hs => (hends hs).symm) .inl)
  · exact Gen.yields_get.bind fun pass _ => Gen.yields_pure (.inr (pass.language.endsLine_expressionStatement code))

/-- **A chain ends its last line**, in any state, if it is not empty. -/
theorem ends_chain (block : Block) :
    (block.chainCode (.standard language)).Yields (fun _ => True) fun code => code = "" ∨ EndsLine code := by
  induction block with
  | mk head values statements next _ _ ihn =>
    refine (ends_link head values statements next).bind fun own hown => ?_
    have hbelow : (nextChain (.standard language) next).Yields (fun _ => True) fun rest =>
        rest = "" ∨ EndsLine rest := by
      cases next with
      | none => exact Gen.yields_pure (.inl rfl)
      | some below => exact ihn below rfl
    refine hbelow.bind fun rest hrest => Gen.yields_pure ?_
    rcases hrest with rfl | hrest
    · rwa [String.append_empty]
    · exact .inr hrest.behind

end Block

/-! ## Expressions -/

/-- characters that end no line -/
def Alphabet.inline : Alphabet where
  mem c := c ≠ '\n' ∧ c ≠ '\r'
  printable c h := by constructor <;> (rintro rfl; cases h)

/-- all characters -/
def Alphabet.full : Alphabet where
  mem _ := True
  printable _ _ := trivial

theorem Alphabet.inline_within_full : inline.Within full := ⟨trivial, fun _ _ => trivial⟩

/-- where all names are identifiers, no name ends a line -/
theorem Pass.WellNamed.spelled {pass : Pass} (h : pass.WellNamed) : pass.Spelled .inline .full :=
  ⟨h.names, fun definition hd name hn => .identifier (h.definitions definition hd name hn), fun _ _ _ _ => trivial⟩

namespace Block

variable {language : Language}

/-- **The code of an expression stays within a line.** -/
theorem spelled_value {block : Block} (h : block.IsValue) (bare : Bool) :
    (block.code (.standard language) bare).Yields (Pass.Spelled .inline .full) IsInline := by
  induction block generalizing bare with
  | mk head values statements next ihv _ _ =>
    refine yields_code_forall next fun form hf => ?_
    obtain ⟨hform, hchildren⟩ := h.of_form hf
    have hquotable : Quotable .inline language [form] := fun content _ => (IsWord.quote language content).2
    refine Template.spelled_runAll Alphabet.inline_within_full (fun hs => ?_) hquotable ⟨?_, ?_⟩ bare
    · rw [hform] at hs
      cases hs
    · intro slot hv child hc bare
      obtain ⟨plugged, hp, rfl⟩ := exists_of_get?_emissions hc
      obtain ⟨entry, he, rfl⟩ := Slots.mem_of_get? hp
      exact ihv entry he (hchildren slot hv entry.2 hp) bare
    · exact fun slot hv => absurd hv (Form.no_statement_visited hform slot)

theorem makes_get {head : Head} {values statements : List (Nat × Block)} {next : Option Block} {name : String}
    (hf : head.form = .ok (.get name)) (bare : Bool) :
    ((mk head values statements next).code (.standard language) bare).Makes Names.IsIdentifier := by
  refine yields_code_forall next fun form hform => ?_
  obtain rfl : Form.get name = form := Except.ok.inj (hf.symm.trans hform)
  have hsteps : (language.template (.get name)).steps = [.userVariable name] := by cases language <;> rfl
  have hrender : ∀ text, (language.template (.get name)).render [text] bare = text := by
    intro text
    cases language <;> exact String.append_empty
  have hsingle : ∀ text, Names.IsIdentifier text → Gen.Makes (pure [text]) fun texts =>
      ∃ text, texts = [text] ∧ Names.IsIdentifier text := fun text ht => Gen.makes_pure ⟨text, rfl, ht⟩
  rw [hsteps]
  refine Gen.Yields.bind ((Gen.makes_nameOf .variable name).bind hsingle) fun texts ht => Gen.yields_pure ?_
  obtain ⟨text, rfl, hid⟩ := ht
  rw [hrender]
  exact hid

end Block

/-! ## Kinds -/

def Kind.isProcedure : Kind → Bool
  | procedureResult => true
  | procedure => true
  | _ => false

/-- a procedure is read from blocks of these kinds only -/
theorem Kind.isProcedure_iff_read {kind : Kind} {head : Head} {form : Form} (h : Form.read kind head = .ok form) :
    kind.isProcedure ↔ ∃ name, form = .procedure name := by
  cases kind <;> simp only [Form.read, Functor.map, Except.map] at h <;> grind [Kind.isProcedure]

/-! ## The convention -/

/-- **Fragments keep the convention.** Generate a block in any state. If it is of a statement kind, its code ends with a
line feed or is empty, and it is empty exactly for procedures in Dart. If it is of a value kind, in a state whose names
are identifiers, its code is not empty, and no character of it ends a line if the blocks in all value slots visited below
it are of value kinds too. So the code of a chain is empty or ends with a line feed, and what a statement slot puts into a
body ends with a line feed and has two blanks in front of every line that is not empty. All names are identifiers in
every state that a run reaches. -/
theorem fragments_keep_convention (language : Language) (pass : Pass) (block : Block) :
    (∀ bare code after, pass.perform (block.code (.standard language) bare) = (.ok code, after) →
      ∃ kind, Kind.read block.head.kind = .ok kind ∧
        (kind.isStatement = true → (EndsLine code ∨ code = "") ∧ (code = "" ↔ language = .dart ∧ kind.isProcedure)) ∧
        (kind.isStatement = false → pass.WellNamed → code ≠ "" ∧ (block.IsValue → IsInline code))) ∧
    (∀ code after, pass.perform (block.chainCode (.standard language)) = (.ok code, after) →
      code = "" ∨ EndsLine code) ∧
    (∀ slot text after, pass.perform ((block.site (.standard language)).statement? slot) = (.ok (some text), after) →
      Indented text) ∧
    (∀ slot text after, pass.perform ((block.site (.standard language)).branch slot) = (.ok text, after) →
      Indented text) ∧
    (pass.Reachable language → pass.WellNamed) := by
  refine ⟨fun bare code after hr => ?_, fun code after hr => ?_, fun slot text after hr => ?_,
    fun slot text after hr => ?_, fun h => h.wellNamed.1⟩
  · obtain ⟨form, hf, hends, hwritten, hhoisted⟩ :=
      (block.yields_fragment bare pass trivial).2 code (congrArg Prod.fst hr)
    obtain ⟨kind, hkind, hread⟩ := Head.exists_kind hf
    have hstatement := Form.isStatement_read hread
    have hprocedure := Kind.isProcedure_iff_read hread
    refine ⟨kind, hkind, fun hs => ⟨hends (hstatement.trans hs), fun hempty => ?_, fun ⟨hd, hk⟩ => ?_⟩,
      fun hs hp => ⟨?_, fun hv => ?_⟩⟩
    · by_contra hnone
      refine hwritten (fun name hget => ?_) (fun hd name hn => hnone ⟨hd, hprocedure.2 ⟨name, hn⟩⟩) hempty
      subst hget
      cases hstatement.trans hs
    · exact hhoisted hd (hprocedure.1 hk)
    · by_cases hget : ∃ name, form = .get name
      · obtain ⟨name, rfl⟩ := hget
        obtain ⟨head, values, statements, next⟩ := block
        have hid := (Block.makes_get hf bare pass hp).2 code (congrArg Prod.fst hr)
        exact (IsWord.identifier hid).ne_empty
      · refine hwritten (fun name hn => hget ⟨name, hn⟩) fun _ name hn => ?_
        subst hn
        cases hstatement.trans hs
    · exact (Block.spelled_value hv bare pass hp.spelled).2 code (congrArg Prod.fst hr)
  · exact (block.ends_chain pass trivial).2 code (congrArg Prod.fst hr)
  · exact ((Site.indented_statement? _ slot) pass trivial).2 (some text) (congrArg Prod.fst hr) text rfl
  · exact ((Site.indented_branch _ slot) pass trivial).2 text (congrArg Prod.fst hr)

def printedLines : Block :=
  .mk (Head.bare Kind.print.name) [(0, .text "a\nb")] [] none

theorem printedLines_keep_convention :
    (Block.text "a\nb").IsValue ∧
      (Pass.start .javascript).perform ((Block.text "a\nb").code (.standard .javascript) true) =
        (.ok "'a\\nb'", .start .javascript) ∧ IsInline "'a\\nb'" ∧
      (Pass.start .javascript).perform (printedLines.code (.standard .javascript) true) =
        (.ok "console.log('a\\nb');\n", .start .javascript) ∧ EndsLine "console.log('a\\nb');\n" := by
  have hvalue : (Block.text "a\nb").IsValue := .of_values .text rfl rfl (by simp)
  have htext : (Pass.start .javascript).perform ((Block.text "a\nb").code (.standard .javascript) true) =
      (.ok "'a\\nb'", .start .javascript) := by rfl
  have hprint : (Pass.start .javascript).perform (printedLines.code (.standard .javascript) true) =
      (.ok "console.log('a\\nb');\n", .start .javascript) := by rfl
  obtain ⟨hcode, -, -, -, hnamed⟩ := fragments_keep_convention .javascript (.start .javascript) (.text "a\nb")
  obtain ⟨kind, hkind, -, hexpression⟩ := hcode true _ _ htext
  obtain ⟨other, hother, hstatement, -⟩ :=
    (fragments_keep_convention .javascript (.start .javascript) printedLines).1 true _ _ hprint
  cases hkind
  cases hother
  obtain ⟨hends, hempty⟩ := hstatement rfl
  have hwritten : "console.log('a\\nb');\n" ≠ "" := fun h => Language.noConfusion (hempty.1 h).1
  exact ⟨hvalue, htext, (hexpression rfl (hnamed .start)).2 hvalue, hprint, hends.resolve_right hwritten⟩

end Blockwork
