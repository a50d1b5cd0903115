/-
The layout of Python code is the structure of its blocks.

- `Block.Laid`: the outline that a chain stands for. A simple statement and a value are a line each, a compound
  statement is a header with the outlines of its statement slots under it.
- `Step.Leaves`, `Step.yields_leaves`: what the steps of a template leave, from any state that a run reaches: phrases for
  values and names, the text of an outline one level in for statements.
- `Template.lays_render`: a construct lays these out as its outline says.
- `Block.yields_outline`: the code of a chain is the text of its outline.
- `layout_reflects_blocks`: the main statement.
-/
import Blockwork.Proofs.Phrases
import Blockwork.Proofs.Sections

namespace Blockwork

/-! ## The outline of a chain -/

/-- what stands under a header: a statement that does nothing if there is nothing else -/
def Outline.filled : Outline → Outline
  | done => single Language.python.noop
  | line text suite below => line text suite below

/-- the lines of a construct: what stands in its statement slots is given, and whether it has a value in its first
slot -/
def Form.Lays (suites : Nat → Outline) (result : Bool) (own : Outline) : Form → Prop
  | choice elseifs otherwise => ∃ condition : Nat → String, own = .ofSuites
      (((List.range (elseifs + 1)).map fun n =>
        ((if n = 0 then "if " else "elif ") ++ condition n ++ ":", (suites n).filled)) ++
      if otherwise then [("else:", (suites (elseifs + 1)).filled)] else [])
  | loop _ => ∃ condition, own = .line ("while " ++ condition ++ ":") (suites 0).filled .done
  | count _ => ∃ range, own = .line ("for " ++ range ++ ":") (suites 0).filled .done
  | forEach _ => ∃ range, own = .line ("for " ++ range ++ ":") (suites 0).filled .done
  | procedure _ => ∃ name value, own = .line ("def " ++ name ++ "():")
      (if result then suites 0 ++ .single ("return " ++ value) else (suites 0).filled) .done
  | _ => ∃ text, IsPhrase text ∧ own = .single text

/-- an outline is that of a chain: block after block the lines of its construct, with the outlines of the chains in its
statement slots in their places -/
inductive Block.Laid : Block → Outline → Prop
  | mk {head : Head} {values statements : List (Nat × Block)} {next : Option Block} {form : Form}
      {suites : Nat → Outline} {own rest : Outline} : head.form = .ok form →
      (∀ slot, .statement slot ∈ form.visits → slot < Slots.limit) →
      (∀ slot, .statement slot ∈ form.visits → ∀ first, Slots.get? slot statements = some first →
        Laid first (suites slot)) →
      (∀ slot, .statement slot ∈ form.visits → Slots.get? slot statements = none → suites slot = .done) →
      form.Lays suites (Slots.get? 0 values).isSome own →
      (∀ below, next = some below → Laid below rest) → (next = none → rest = .done) →
      Laid (.mk head values statements next) (own ++ rest)

namespace Outline

theorem filled_ne_done (outline : Outline) : outline.filled ≠ done := by
  cases outline <;> exact fun h => nomatch h

theorem append_single_ne_done (outline : Outline) (text : String) : outline ++ single text ≠ done := by
  intro h
  cases outline <;> cases h

theorem filled_eq_self {outline : Outline} (h : outline ≠ done) : outline.filled = outline := by
  cases outline with
  | done => exact absurd rfl h
  | line => rfl

theorem Proper.single {text : String} (h : IsPhrase text) : (single text).Proper :=
  .phrase h .done

theorem Proper.filled {outline : Outline} (h : outline.Proper) : outline.filled.Proper := by
  cases outline with
  | done => exact .single (by decide)
  | line => exact h

theorem Proper.ofSuites {suites : List (String × Outline)}
    (h : ∀ entry ∈ suites, IsHeader entry.1 ∧ IsInline entry.1 ∧ entry.2 ≠ Outline.done ∧ entry.2.Proper) :
    (ofSuites suites).Proper := by
  induction suites with
  | nil => exact .done
  | cons entry rest ih =>
    obtain ⟨⟨hheader, hinline, hne, hsuite⟩, hrest⟩ := List.forall_mem_cons.1 h
    exact .header hheader hinline hne hsuite (ih hrest)

theorem text_single (indent : Nat) (text : String) :
    (single text).text indent = String.ofList (List.replicate indent ' ') ++ text ++ "\n" := by
  rw [single, text_line, text_done, text_done, String.append_empty, String.append_empty]

theorem text_header (header : String) (suite : Outline) :
    (line header suite done).text 0 = header ++ "\n" ++ suite.text 2 := by
  rw [text_line, text_done, String.append_empty]
  exact congrArg (· ++ _ ++ _) String.empty_append

end Outline

theorem Form.Lays.ne_done {form : Form} {suites : Nat → Outline} {result : Bool} {own : Outline}
    (h : form.Lays suites result own) : own ≠ .done := by
  cases form with
  | choice elseifs otherwise =>
    obtain ⟨condition, rfl⟩ := h
    rw [List.range_succ_eq_map, List.map_cons, List.cons_append]
    exact fun h => nomatch h
  | procedure name => obtain ⟨name, value, rfl⟩ := h; exact fun h => nomatch h
  | loop mode => obtain ⟨condition, rfl⟩ := h; exact fun h => nomatch h
  | count name => obtain ⟨range, rfl⟩ := h; exact fun h => nomatch h
  | forEach name => obtain ⟨range, rfl⟩ := h; exact fun h => nomatch h
  | _ => obtain ⟨text, -, rfl⟩ := h; exact fun h => nomatch h

theorem Block.Laid.ne_done {block : Block} {outline : Outline} (h : block.Laid outline) : outline ≠ .done := by
  cases h with
  | @mk _ _ _ _ _ _ own rest _ _ _ _ hown _ _ =>
    have hne := hown.ne_done
    cases own with
    | done => exact absurd rfl hne
    | line => exact fun h => nomatch h

/-! ## What steps leave -/

/-- the outline of a statement slot: that of the chain in it, or nothing -/
structure IsSuite (statements : List (Nat × Block)) (slot : Nat) (suite : Outline) : Prop where
  numbered : slot < Slots.limit
  proper : suite.Proper
  laid : ∀ first, Slots.get? slot statements = some first → first.Laid suite
  empty : Slots.get? slot statements = none → suite = .done

/-- what the text is that a step leaves at a block with these blocks in its slots -/
def Step.Leaves (values statements : List (Nat × Block)) (text : String) : Step → Prop
  | value slot _ absent => if (Slots.get? slot values).isSome then IsPhrase text else text = absent
  | branch slot => ∃ suite, IsSuite statements slot suite ∧ text = suite.filled.text 2
  | body slot => ∃ suite, IsSuite statements slot suite ∧ text = suite.text 2
  | helper _ => text = "" ∨ IsPhrase text
  | _ => IsPhrase text

/-- what the texts are that steps in a row leave -/
abbrev Step.Left (values statements : List (Nat × Block)) : List Step → List String → Prop :=
  List.Forall₂ fun step text => step.Leaves values statements text

/-- the blocks in the value slots that are visited give phrases, the chains in the statement slots give the texts of
their outlines -/
structure Outlined (values statements : List (Nat × Block)) (visits : List Visit) : Prop where
  value : ∀ slot, .value slot ∈ visits → ∀ child, Slots.get? slot values = some child → ∀ bare,
    (child.code (.standard .python) bare).Yields (Pass.Reachable .python) IsPhrase
  statement : ∀ slot, .statement slot ∈ visits → ∀ first, Slots.get? slot statements = some first →
    (first.chainCode (.standard .python)).Yields (Pass.Reachable .python) fun code =>
      ∃ outline, first.Laid outline ∧ outline.Proper ∧ code = outline.text 0

/-- an action that leads to states that a run reaches, in one of them -/
theorem Gen.Makes.yields {α : Type} {action : Gen α} {post : α → Prop} (h : action.Makes post)
    (hr : ∀ pass : Pass, pass.Reachable .python → (pass.perform action).2.Reachable .python) :
    action.Yields (Pass.Reachable .python) post :=
  fun pass hp => ⟨hr pass hp, (h pass hp.wellNamed.1).2⟩

section

variable {values statements : List (Nat × Block)} {visits : List Visit} {slot : Nat}

def pythonSite (values statements : List (Nat × Block)) : Site :=
  ⟨Block.emissions (.standard .python) values, Block.emissions (.standard .python) statements⟩

theorem Outlined.yields_value (h : Outlined values statements visits) (hv : .value slot ∈ visits) (bare : Bool)
    (absent : String) : ((pythonSite values statements).value slot bare absent).Yields (Pass.Reachable .python)
      fun text => (Step.value slot bare absent).Leaves values statements text := by
  unfold Site.value Site.value? pythonSite Step.Leaves
  simp only [Block.get?_emissions]
  cases hc : Slots.get? slot values with
  | none => exact Gen.yields_pure rfl
  | some child =>
    simp only [Option.map_some, Option.isSome_some, if_true, bind_assoc]
    refine (h.value slot hv child hc bare).bind fun code hcode => Gen.yields_pure ?_
    have hne : code.isEmpty = false := by simpa using hcode.1.ne_empty
    rw [hne]
    exact hcode

/-- the indented code of a statement slot, if there is any -/
theorem Outlined.yields_statement? (h : Outlined values statements visits) (hv : .statement slot ∈ visits) :
    ((pythonSite values statements).statement? slot).Yields (Pass.Reachable .python) fun found =>
      ∃ suite, IsSuite statements slot suite ∧
        (suite = .done ∧ found = none ∨ suite ≠ .done ∧ found = some (suite.text 2)) := by
  refine (Gen.yields_within _ _).bind fun _ hslot => ?_
  unfold pythonSite
  simp only [Block.get?_emissions]
  cases hc : Slots.get? slot statements with
  | none =>
    have hsuite : IsSuite statements slot .done := ⟨hslot, .done, fun _ hf => (nomatch hc.symm.trans hf), fun _ => rfl⟩
    exact Gen.yields_pure ⟨.done, hsuite, .inl ⟨rfl, rfl⟩⟩
  | some first =>
    simp only [Option.map_some]
    refine (h.statement slot hv first hc).bind fun code hcode => Gen.yields_pure ?_
    obtain ⟨suite, hlaid, hproper, rfl⟩ := hcode
    have hne : suite.text 0 ≠ "" := by
      cases suite with
      | done => exact absurd rfl hlaid.ne_done
      | line => exact Outline.text_ne_empty _ _ _ _
    have hempty : (suite.text 0).isEmpty = false := by simpa using hne
    refine ⟨suite, ⟨hslot, hproper, fun other ho => ?_, fun hn => ?_⟩, .inr ⟨hlaid.ne_done, ?_⟩⟩
    · rw [hc] at ho
      exact Option.some.inj ho ▸ hlaid
    · rw [hc] at hn
      cases hn
    · rw [hempty, hproper.prefixLines_text]
      rfl

theorem Outlined.yields_branch (h : Outlined values statements visits) (hv : .statement slot ∈ visits) :
    ((pythonSite values statements).branch slot).Yields (Pass.Reachable .python) fun text =>
      (Step.branch slot).Leaves values statements text := by
  refine (h.yields_statement? hv).bind fun found hfound => ?_
  obtain ⟨suite, hsuite, ⟨rfl, rfl⟩ | ⟨hne, rfl⟩⟩ := hfound
  · refine Gen.yields_get.bind fun pass hp => Gen.yields_pure ⟨.done, hsuite, ?_⟩
    rw [hp.wellNamed.2]
    rfl
  · exact Gen.yields_pure ⟨suite, hsuite, by rw [Outline.filled_eq_self hne]⟩

/-- **One step** leaves what it should. -/
theorem Step.yields_leaves {form : Form} {step : Step} (hm : step ∈ (Language.python.template form).steps)
    (h : Outlined values statements form.visits) (texts : List String) :
    (step.run (pythonSite values statements) texts).Yields (Pass.Reachable .python)
      (Appends (fun step text => step.Leaves values statements text) [step] texts) := by
  cases step with
  | value slot bare absent =>
    exact yields_text rfl (h.yields_value (mem_visits_of_step hm List.mem_cons_self) bare absent)
  | branch slot => exact yields_text rfl (h.yields_branch (mem_visits_of_step hm List.mem_cons_self))
  | body slot =>
    have hv : .statement slot ∈ form.visits := mem_visits_of_step hm List.mem_cons_self
    refine yields_text rfl ((h.yields_statement? hv).imp fun found hfound => ?_)
    obtain ⟨suite, hsuite, ⟨rfl, rfl⟩ | ⟨-, rfl⟩⟩ := hfound
    · exact ⟨.done, hsuite, rfl⟩
    · exact ⟨suite, hsuite, rfl⟩
  | userVariable user =>
    exact yields_text rfl (((Gen.makes_nameOf _ user).yields fun _ hp => .nameOf _ user hp).imp fun _ => .identifier)
  | userProcedure user =>
    exact yields_text rfl (((Gen.makes_nameOf _ user).yields fun _ hp => .nameOf _ user hp).imp fun _ => .identifier)
  | fresh base =>
    exact yields_text rfl (((Gen.makes_freshName base).yields fun _ hp => .freshName base hp).imp fun _ => .identifier)
  | temporary base =>
    exact yields_text rfl
      (((Gen.makes_declareTemporary base).yields fun _ hp => .declareTemporary base hp).imp fun _ => .identifier)
  | helper helper =>
    exact yields_text rfl
      (((Gen.makes_provide _ _ _).yields fun _ hp => .provide _ _ _ hp).imp fun _ ht => ht.imp_right .identifier)
  | require library =>
    exact yields_none rfl ((Gen.makes_require _ _).yields fun _ hp => .require _ _ hp)
  | hoist key name source =>
    obtain ⟨before, rest, hsplit⟩ := List.append_of_mem hm
    cases (Language.steps_before_hoist hsplit).1

/-- **All steps in a row.** -/
theorem Step.yields_leavesAll {form : Form} {steps : List Step}
    (hm : ∀ step ∈ steps, step ∈ (Language.python.template form).steps) (h : Outlined values statements form.visits)
    (texts : List String) :
    (Step.runAll (pythonSite values statements) texts steps).Yields (Pass.Reachable .python)
      (Appends (fun step text => step.Leaves values statements text) steps texts) :=
  yields_runAll_of (fun step hstep => yields_leaves (hm step hstep) h) texts

/-! ## Constructs -/

/-- what an expression is made of: phrases, and names of helpers that may be missing -/
theorem Step.fitsSolid {step : Step} {text : String} (hs : step.isPhrased) (h : step.Leaves values statements text) :
    FitsSolid step.isSolid text := by
  cases step with
  | value slot bare absent =>
    simp only [Leaves] at h
    split_ifs at h
    · exact .inl h
    · exact .inl (h ▸ of_decide_eq_true hs)
  | branch slot => cases hs
  | body slot => cases hs
  | helper helper => exact h.elim (fun he => .inr ⟨rfl, he⟩) .inl
  | _ => exact .inl h

theorem Step.Left.fitsSolid {steps : List Step} {texts : List String} (h : Step.Left values statements steps texts)
    (hs : ∀ step ∈ steps, step.isPhrased) : List.Forall₂ FitsSolid (steps.map Step.isSolid) texts := by
  induction h with
  | nil => exact .nil
  | cons hone _ ih =>
    obtain ⟨hstep, hrest⟩ := List.forall_mem_cons.1 hs
    exact .cons (Step.fitsSolid hstep hone) (ih hrest)

/-- an operand is a phrase, if what stands in for a missing one is -/
theorem Step.Leaves.phrase {slot : Nat} {bare : Bool} {absent text : String}
    (h : (Step.value slot bare absent).Leaves values statements text) (ha : IsPhrase absent) : IsPhrase text := by
  simp only [Step.Leaves] at h
  split_ifs at h
  · exact h
  · exact h ▸ ha

/-- what a construct makes of the texts of its steps: its lines, with outlines of its statement slots in their places -/
def Form.Outlines (form : Form) (values statements : List (Nat × Block)) (code : String) : Prop :=
  ∃ suites own, (∀ slot, .statement slot ∈ form.visits → IsSuite statements slot (suites slot)) ∧
    form.Lays suites (Slots.get? 0 values).isSome own ∧ own.Proper ∧ form.line .python code = own.text 0

/-- a construct without statement slots is a single line -/
theorem Form.lays_single {form : Form} (hv : ∀ slot, .statement slot ∉ form.visits) {text : String} (ht : IsPhrase text)
    (suites : Nat → Outline) (result : Bool) : form.Lays suites result (.single text) := by
  cases form with
  | choice elseifs otherwise => exact absurd (by simp [visits]) (hv 0)
  | loop mode => exact absurd (by simp [visits]) (hv 0)
  | count name => exact absurd (by simp [visits]) (hv 0)
  | forEach name => exact absurd (by simp [visits]) (hv 0)
  | procedure name => exact absurd (by simp [visits]) (hv 0)
  | _ => exact ⟨text, ht, rfl⟩

theorem Form.outlines_single {form : Form} {text code : String} (ht : IsPhrase text)
    (hv : ∀ slot, .statement slot ∉ form.visits) (hc : form.line .python code = text ++ "\n") :
    form.Outlines values statements code := by
  refine ⟨fun _ => .done, .single text, fun slot hm => absurd hm (hv slot), lays_single hv ht _ _, .single ht, ?_⟩
  rw [hc, Outline.text_single]
  exact congrArg (· ++ _) String.empty_append.symm

/-- a statement without statement slots is the line it writes -/
theorem Form.outlines_statement {form : Form} {text code : String} (hs : form.isStatement) (ht : IsPhrase text)
    (hv : ∀ slot, .statement slot ∉ form.visits) (hc : code = text ++ "\n") : form.Outlines values statements code := by
  refine outlines_single ht hv ?_
  rw [Form.line, hs, Bool.true_or, if_pos rfl, hc]

/-- a construct with one statement slot is a header, with something under it -/
theorem Form.outlines_header {form : Form} {header code : String} {suite under : Outline} (hs : form.isStatement)
    (hh : IsHeader header) (hi : IsInline header) (hsuite : IsSuite statements 0 suite) (hu : under.Proper)
    (hne : under ≠ .done) (hv : ∀ slot, .statement slot ∈ form.visits → slot = 0)
    (hl : form.Lays (fun _ => suite) (Slots.get? 0 values).isSome (.line header under .done))
    (hc : code = header ++ "\n" ++ under.text 2) : form.Outlines values statements code := by
  refine ⟨fun _ => suite, .line header under .done, fun slot hm => ?_, hl, .header hh hi hne hu .done, ?_⟩
  · rw [hv slot hm]
    exact hsuite
  · rw [Form.line, hs, Bool.true_or, if_pos rfl, hc, Outline.text_header]

theorem IsInline.append {a b : String} (ha : IsInline a) (hb : IsInline b) : IsInline (a ++ b) := by
  rw [IsInline, String.toList_append]
  exact List.forall_mem_append.2 ⟨ha, hb⟩

/-- a loop is its keyword and clause, with its statements under them -/
theorem Form.outlines_loopHeader {form : Form} {keyword clause code : String} {suite : Outline} (hs : form.isStatement)
    (hk : keyword ∈ ["while ", "for "]) (hclause : IsInline clause) (hsuite : IsSuite statements 0 suite)
    (hv : ∀ slot, .statement slot ∈ form.visits → slot = 0)
    (hl : form.Lays (fun _ => suite) (Slots.get? 0 values).isSome
      (.line (keyword ++ clause ++ ":") suite.filled .done))
    (hc : code = keyword ++ clause ++ ":" ++ "\n" ++ suite.filled.text 2) : form.Outlines values statements code := by
  have hheader : keyword ∈ ["if ", "elif ", "while ", "for ", "def "] ∧ IsInline keyword := by
    simp only [List.mem_cons, List.not_mem_nil, or_false] at hk
    rcases hk with rfl | rfl <;> exact ⟨by decide, by decide⟩
  exact outlines_header hs (.inr ⟨keyword, hheader.1, clause, rfl⟩)
    ((hheader.2.append hclause).append (by decide)) hsuite hsuite.proper.filled suite.filled_ne_done hv hl hc

theorem Form.outlines_value {form : Form} (hf : form.isStatement = false) {code : String} (hp : IsPhrase code) :
    form.Outlines values statements code := by
  refine outlines_single hp (Form.no_statement_visited hf) ?_
  have hne : code.isEmpty = false := by simpa using hp.1.ne_empty
  rw [Form.line, hf, hne]
  rfl

section

variable {texts : List String}

theorem Form.outlines_change {name : String}
    (h : Step.Left values statements [Template.number 0 false, .userVariable name] texts) :
    (Form.change name).Outlines values statements ((Language.python.template (.change name)).render texts true) := by
  simp only [List.forall₂_cons_left_iff, List.forall₂_nil_left_iff] at h
  obtain ⟨value, _, hvalue, ⟨named, _, hnamed, rfl, rfl⟩, rfl⟩ := h
  have hphrase : IsPhrase value := Step.Leaves.phrase hvalue (by decide)
  have hmiddle : IsInline (" = (" ++ named ++ " if isinstance(" ++ named ++ ", Number) else 0) + ") := by
    have hname : IsInline named := hnamed.inline
    exact ((((by decide : IsInline " = (").append hname).append (by decide)).append hname).append (by decide)
  refine outlines_statement rfl (hnamed.between hmiddle hphrase) (by simp [visits]) ?_
  change named ++ (" = (" ++ (named ++ (" if isinstance(" ++ (named ++ (", Number) else 0) + " ++ (value ++
    ("\n" ++ ""))))))) = _
  simp only [String.append_assoc, String.append_empty]

theorem Form.outlines_print (h : Step.Left values statements [Template.string 0 true] texts) :
    Form.print.Outlines values statements ((Language.python.template .print).render texts true) := by
  simp only [List.forall₂_cons_left_iff, List.forall₂_nil_left_iff] at h
  obtain ⟨value, _, hvalue, rfl, rfl⟩ := h
  have hphrase : IsPhrase value := Step.Leaves.phrase hvalue (by decide)
  refine outlines_statement rfl
    (IsPhrase.between (by decide : IsPhrase "print(") hphrase.inline (by decide : IsPhrase ")")) (by simp [visits]) ?_
  change "print(" ++ (value ++ (")\n" ++ "")) = _
  simp only [String.append_assoc, String.append_empty]
  rfl

theorem Form.outlines_set {name : String}
    (h : Step.Left values statements [Template.number 0 true, .userVariable name] texts) :
    (Form.set name).Outlines values statements ((Language.python.template (.set name)).render texts true) := by
  simp only [List.forall₂_cons_left_iff, List.forall₂_nil_left_iff] at h
  obtain ⟨value, _, hvalue, ⟨named, _, hnamed, rfl, rfl⟩, rfl⟩ := h
  have hphrase : IsPhrase value := Step.Leaves.phrase hvalue (by decide)
  refine outlines_statement rfl (hnamed.between (by decide : IsInline " = ") hphrase) (by simp [visits]) ?_
  change named ++ (" = " ++ (value ++ ("\n" ++ ""))) = _
  simp only [String.append_assoc, String.append_empty]

theorem Form.outlines_loop {mode : LoopMode}
    (h : Step.Left values statements [.value 0 true Language.python.falseLiteral, .branch 0] texts) :
    (Form.loop mode).Outlines values statements ((Language.python.template (.loop mode)).render texts true) := by
  simp only [List.forall₂_cons_left_iff, List.forall₂_nil_left_iff] at h
  obtain ⟨condition, _, hcondition, ⟨_, _, ⟨suite, hsuite, rfl⟩, rfl, rfl⟩, rfl⟩ := h
  have hphrase : IsPhrase condition := Step.Leaves.phrase hcondition (by decide)
  obtain ⟨clause, hclause, hcode⟩ : ∃ clause, IsInline clause ∧
      (Language.python.template (.loop mode)).render [condition, suite.filled.text 2] true =
        "while " ++ clause ++ ":" ++ "\n" ++ suite.filled.text 2 := by
    cases mode with
    | whileTrue =>
      refine ⟨condition, hphrase.inline, ?_⟩
      change "while " ++ (condition ++ (":\n" ++ (suite.filled.text 2 ++ ""))) = _
      simp only [String.append_assoc, String.append_empty]
      rfl
    | untilTrue =>
      refine ⟨"not " ++ guardWord condition, (by decide : IsInline "not ").append hphrase.1.guardWord.2, ?_⟩
      change "while not " ++ (guardWord condition ++ (":\n" ++ (suite.filled.text 2 ++ ""))) = _
      simp only [String.append_assoc, String.append_empty]
      rfl
  exact outlines_loopHeader rfl (by decide) hclause hsuite (by simp [visits]) ⟨clause, rfl⟩ hcode

theorem Form.outlines_count {name : String} (h : Step.Left values statements
      [.userVariable name, Template.number 0 true, Template.number 1 false, .branch 0] texts) :
    (Form.count name).Outlines values statements ((Language.python.template (.count name)).render texts true) := by
  simp only [List.forall₂_cons_left_iff, List.forall₂_nil_left_iff] at h
  obtain ⟨named, _, hnamed, ⟨low, _, hlow, ⟨high, _, hhigh, ⟨_, _, ⟨suite, hsuite, rfl⟩, rfl, rfl⟩, rfl⟩, rfl⟩, rfl⟩ := h
  have hfrom : IsPhrase low := Step.Leaves.phrase hlow (by decide)
  have hto : IsPhrase high := Step.Leaves.phrase hhigh (by decide)
  have hclause : IsInline (named ++ " in range(" ++ rangeStart low ++ boundAbove high ++ ")") :=
    (((hnamed.inline.append (by decide)).append (.rangeStart hfrom.1)).append hto.1.boundAbove.2).append (by decide)
  refine outlines_loopHeader rfl (by decide) hclause hsuite (by simp [visits]) ⟨_, rfl⟩ ?_
  change "for " ++ (named ++ (" in range(" ++ (rangeStart low ++ (boundAbove high ++ ("):\n" ++
    (suite.filled.text 2 ++ "")))))) = _
  simp only [String.append_assoc, String.append_empty]
  rfl

theorem Form.outlines_forEach {name : String}
    (h : Step.Left values statements [.userVariable name, Template.list 0 true, .branch 0] texts) :
    (Form.forEach name).Outlines values statements ((Language.python.template (.forEach name)).render texts true) := by
  simp only [List.forall₂_cons_left_iff, List.forall₂_nil_left_iff] at h
  obtain ⟨named, _, hnamed, ⟨list, _, hlist, ⟨_, _, ⟨suite, hsuite, rfl⟩, rfl, rfl⟩, rfl⟩, rfl⟩ := h
  have hphrase : IsPhrase list := Step.Leaves.phrase hlist (by decide)
  have hclause : IsInline (named ++ " in " ++ list) := (hnamed.inline.append (by decide)).append hphrase.inline
  refine outlines_loopHeader rfl (by decide) hclause hsuite (by simp [visits]) ⟨_, rfl⟩ ?_
  change "for " ++ (named ++ (" in " ++ (list ++ (":\n" ++ (suite.filled.text 2 ++ ""))))) = _
  simp only [String.append_assoc, String.append_empty]
  rfl

theorem Form.outlines_procedure {name : String}
    (h : Step.Left values statements [.userProcedure name, .body 0, .value 0 true ""] texts) :
    (Form.procedure name).Outlines values statements
      ((Language.python.template (.procedure name)).render texts true) := by
  simp only [List.forall₂_cons_left_iff, List.forall₂_nil_left_iff] at h
  obtain ⟨named, _, hnamed, ⟨_, _, ⟨suite, hsuite, rfl⟩, ⟨value, _, hvalue, rfl, rfl⟩, rfl⟩, rfl⟩ := h
  have hheader : IsInline ("def " ++ named ++ "():") :=
    ((by decide : IsInline "def ").append hnamed.inline).append (by decide)
  have hlay : ∀ under : Outline, under.Proper → under ≠ .done →
      procedureBody (suite.text 2) value "\n" Language.python.noop = under.text 2 →
      under = (if (Slots.get? 0 values).isSome then suite ++ .single ("return " ++ value) else suite.filled) →
      (Form.procedure name).Outlines values statements
        ((Language.python.template (.procedure name)).render [named, suite.text 2, value] true) := by
    intro under hproper hne hbody hunder
    refine outlines_header rfl (.inr ⟨"def ", by decide, named ++ "()", ?_⟩) hheader hsuite hproper hne
      (by simp [visits]) ⟨named, value, by rw [hunder]⟩ ?_
    · simp only [String.append_assoc]
      rfl
    · change "def " ++ (named ++ ("():\n" ++ (procedureBody (suite.text 2) value "\n" Language.python.noop ++ ""))) = _
      rw [hbody]
      simp only [String.append_assoc, String.append_empty]
      rfl
  -- there is a result exactly if the value slot is filled
  simp only [Step.Leaves] at hvalue
  split_ifs at hvalue with hsome
  · refine hlay _ (hsuite.proper.append (.single ((by decide : IsPhrase "return ").append hvalue))) ?_ ?_ (if_pos hsome).symm
    · exact suite.append_single_ne_done _
    · have hne := hvalue.1.ne_empty
      rw [procedureBody, if_pos (by simpa using hne), Outline.text_append, Outline.text_single]
      simp only [String.append_assoc]
      rfl
  · refine hlay _ hsuite.proper.filled suite.filled_ne_done ?_ (if_neg hsome).symm
    rw [procedureBody, if_neg (by simp [hvalue])]
    cases suite with
    | done => rfl
    | line header under below =>
      have hne := Outline.text_ne_empty 2 header under below
      rw [if_pos (by simpa using hne)]
      rfl

/-! ## Choices -/

theorem Step.Left.textAt {steps : List Step} (h : Step.Left values statements steps texts) {i : Nat} {step : Step}
    (hi : steps[i]? = some step) : step.Leaves values statements (Piece.textAt texts i) :=
  Piece.rel_textAt_of_getElem? h hi

theorem Outline.ofSuites_append (suites others : List (String × Outline)) :
    ofSuites (suites ++ others) = ofSuites suites ++ ofSuites others := by
  induction suites with
  | nil => rfl
  | cons entry rest ih =>
    rw [List.cons_append, ofSuites, ofSuites, ih]
    rfl

/-- the header of a condition -/
def conditionHeader (texts : List String) (n : Nat) : String :=
  (if n = 0 then "if " else "elif ") ++ Piece.textAt texts (2 * n) ++ ":"

theorem isHeader_conditionHeader (texts : List String) (n : Nat) : IsHeader (conditionHeader texts n) := by
  unfold conditionHeader
  split_ifs
  · exact .inr ⟨"if ", by decide, _, rfl⟩
  · exact .inr ⟨"elif ", by decide, _, rfl⟩

/-- conditions one below the other, each with its suite -/
theorem Piece.renderAll_conditions {suites : Nat → Outline} {items : List Nat}
    (h : ∀ n ∈ items, Piece.textAt texts (2 * n + 1) = (suites n).filled.text 2) :
    renderAll texts (items.flatMap Target.Python.conditionPieces) =
      (Outline.ofSuites (items.map fun n => (conditionHeader texts n, (suites n).filled))).text 0 := by
  induction items with
  | nil => rfl
  | cons n rest ih =>
    obtain ⟨hn, hrest⟩ := List.forall_mem_cons.1 h
    have hone : renderAll texts (Target.Python.conditionPieces n) =
        conditionHeader texts n ++ "\n" ++ (suites n).filled.text 2 := by
      have hcode : renderAll texts (Target.Python.conditionPieces n) =
          (if n = 0 then Piece.text "if " else .text "elif ").render texts ++ (Piece.textAt texts (2 * n) ++ (":\n" ++
            (Piece.textAt texts (2 * n + 1) ++ ""))) := rfl
      have hkeyword : (if n = 0 then Piece.text "if " else .text "elif ").render texts =
          if n = 0 then "if " else "elif " := by split_ifs <;> rfl
      rw [hcode, hkeyword, hn, conditionHeader]
      simp only [String.append_assoc, String.append_empty]
      rfl
    rw [List.flatMap_cons, renderAll_append, hone, ih hrest, List.map_cons, Outline.ofSuites, Outline.text_line]
    exact congrArg (· ++ _ ++ _ ++ _) String.empty_append.symm

/-- the branches of a choice have outlines, and what its steps left are these and the conditions -/
theorem Step.Left.choice {elseifs : Nat} {otherwise : Bool} (h : Step.Left values statements
      (Template.choiceSteps Language.python.falseLiteral elseifs otherwise) texts) :
    ∃ suites : Nat → Outline,
      (∀ n ≤ elseifs, IsPhrase (Piece.textAt texts (2 * n)) ∧ IsSuite statements n (suites n) ∧
        Piece.textAt texts (2 * n + 1) = (suites n).filled.text 2) ∧
      (otherwise = true → IsSuite statements (elseifs + 1) (suites (elseifs + 1)) ∧
        Piece.textAt texts (2 * (elseifs + 1)) = (suites (elseifs + 1)).filled.text 2) := by
  obtain ⟨hpairs, hlast⟩ := Template.getElem?_choiceSteps Language.python.falseLiteral elseifs otherwise
  have hbranch : ∀ n, ∃ suite, n ≤ elseifs → IsSuite statements n suite ∧
      Piece.textAt texts (2 * n + 1) = suite.filled.text 2 := by
    intro n
    by_cases hn : n ≤ elseifs
    · obtain ⟨suite, hsuite, htext⟩ := h.textAt (hpairs n hn).2
      exact ⟨suite, fun _ => ⟨hsuite, htext⟩⟩
    · exact ⟨.done, fun hle => absurd hle hn⟩
  have helse : ∃ suite, otherwise = true → IsSuite statements (elseifs + 1) suite ∧
      Piece.textAt texts (2 * (elseifs + 1)) = suite.filled.text 2 := by
    by_cases ho : otherwise = true
    · obtain ⟨suite, hsuite, htext⟩ := h.textAt (hlast ho)
      exact ⟨suite, fun _ => ⟨hsuite, htext⟩⟩
    · exact ⟨.done, fun h => absurd h ho⟩
  choose suites hsuites using hbranch
  obtain ⟨last, hlast⟩ := helse
  refine ⟨fun n => if n ≤ elseifs then suites n else last, fun n hn => ?_, fun ho => ?_⟩
  · simp only [if_pos hn]
    exact ⟨(h.textAt (hpairs n hn).1).phrase (by decide), hsuites n hn⟩
  · have hlt : ¬elseifs + 1 ≤ elseifs := Nat.not_succ_le_self elseifs
    simp only [if_neg hlt]
    exact hlast ho

theorem Form.outlines_choice {elseifs : Nat} {otherwise : Bool} (h : Step.Left values statements
      (Template.choiceSteps Language.python.falseLiteral elseifs otherwise) texts) :
    (Form.choice elseifs otherwise).Outlines values statements
      ((Language.python.template (.choice elseifs otherwise)).render texts true) := by
  obtain ⟨suites, hbranches, hlast⟩ := h.choice
  have hrange : ∀ n ∈ List.range (elseifs + 1), n ≤ elseifs := fun n hn => Nat.lt_succ_iff.1 (List.mem_range.1 hn)
  refine ⟨suites, _, ?_, ⟨fun n => Piece.textAt texts (2 * n), rfl⟩, ?_, ?_⟩
  · intro slot hm
    rcases List.mem_append.1 hm with hm | hm
    · obtain ⟨n, hn, hslot⟩ := List.mem_flatMap.1 hm
      obtain rfl : slot = n := by simpa using hslot
      exact (hbranches slot (hrange slot hn)).2.1
    · cases otherwise with
      | false => cases hm
      | true =>
        obtain rfl : slot = elseifs + 1 := by simpa using hm
        exact (hlast rfl).1
  · refine .ofSuites (List.forall_mem_append.2 ⟨fun entry hm => ?_, fun entry hm => ?_⟩)
    · obtain ⟨n, hn, rfl⟩ := List.mem_map.1 hm
      obtain ⟨hcondition, hsuite, -⟩ := hbranches n (hrange n hn)
      have hkeyword : IsInline (if n = 0 then "if " else "elif ") := by split_ifs <;> decide
      exact ⟨isHeader_conditionHeader texts n, (hkeyword.append hcondition.inline).append (by decide),
        (suites n).filled_ne_done, hsuite.proper.filled⟩
    · cases otherwise with
      | false => cases hm
      | true =>
        obtain rfl := List.mem_singleton.1 hm
        exact ⟨.inl rfl, (by decide : IsInline "else:"), (suites _).filled_ne_done, (hlast rfl).1.proper.filled⟩
  · have hcode : (Language.python.template (.choice elseifs otherwise)).render texts true =
        Piece.renderAll texts ((List.range (elseifs + 1)).flatMap Target.Python.conditionPieces ++
          ((if otherwise then [.text "else:\n", .hole (2 * (elseifs + 1))] else []) ++ [])) := rfl
    have helse : Piece.renderAll texts ((if otherwise then [.text "else:\n", .hole (2 * (elseifs + 1))] else []) ++ []) =
        (Outline.ofSuites (if otherwise then [("else:", (suites (elseifs + 1)).filled)] else [])).text 0 := by
      cases otherwise with
      | false => rfl
      | true =>
        change "else:\n" ++ (Piece.textAt texts (2 * (elseifs + 1)) ++ "") = (Outline.line _ _ .done).text 0
        rw [(hlast rfl).2, Outline.text_header, String.append_empty]
        rfl
    have hconditions := Piece.renderAll_conditions fun n hn => (hbranches n (hrange n hn)).2.2
    rw [Form.line, hcode, Piece.renderAll_append, hconditions, helse, Outline.ofSuites_append, Outline.text_append]
    rfl

/-- **A construct lays out what its steps left.** -/
theorem Form.outlines_render {form : Form}
    (h : Step.Left values statements ((Language.python.template form).steps.filter Step.leavesText) texts)
    (hv : form.isStatement = false → IsPhrase ((Language.python.template form).render texts true)) :
    form.Outlines values statements ((Language.python.template form).render texts true) := by
  cases form with
  | change name => exact outlines_change h
  | print => exact outlines_print h
  | set name => exact outlines_set h
  | jump way =>
    have hword : IsPhrase way.keyword := by cases way <;> decide
    refine outlines_statement rfl hword (by simp [visits]) ?_
    change way.keyword ++ ("\n" ++ "") = _
    rw [String.append_empty]
  | choice elseifs otherwise => exact outlines_choice (Template.choiceSteps_leaving _ elseifs otherwise ▸ h)
  | loop mode => cases mode <;> exact outlines_loop h
  | count name => exact outlines_count h
  | forEach name => exact outlines_forEach h
  | procedure name => exact outlines_procedure h
  | _ => exact outlines_value rfl (hv rfl)

/-- the code of a construct that makes an expression is a phrase -/
theorem Form.isPhrase_render {form : Form} (hf : form.isStatement = false) (bare : Bool)
    (h : Step.Left values statements ((Language.python.template form).steps.filter Step.leavesText) texts) :
    IsPhrase ((Language.python.template form).render texts bare) := by
  have hphrased := Form.isPhrased_python hf
  rw [Template.isPhrased, Bool.and_eq_true, List.all_eq_true] at hphrased
  exact Template.isPhrase_render hf (h.fitsSolid fun step hm => hphrased.1 step (List.mem_of_mem_filter hm)) bare

end

end

/-! ## Blocks -/

namespace Block

variable {head : Head} {values statements : List (Nat × Block)}

/-- the texts that the steps of a block's construct leave decide what its code is -/
theorem yields_left (next : Option Block) (bare : Bool) {post : Form → String → Prop}
    (hs : ∀ form, head.form = .ok form → Outlined values statements form.visits)
    (hp : ∀ form texts, head.form = .ok form →
      Step.Left values statements ((Language.python.template form).steps.filter Step.leavesText) texts →
        post form ((Language.python.template form).render texts bare)) :
    ((mk head values statements next).code (.standard .python) bare).Yields (Pass.Reachable .python) fun code =>
      ∃ form, head.form = .ok form ∧ post form code := by
  refine yields_code_of _ next fun form hf => (Step.yields_leavesAll (fun _ h => h) (hs form hf) []).imp fun texts htexts => ?_
  obtain ⟨left, rfl, hleft⟩ := htexts
  exact hp form _ hf hleft

/-- **The code of an expression is a phrase.** -/
theorem yields_phrase {block : Block} (h : block.IsValue) (bare : Bool) :
    (block.code (.standard .python) bare).Yields (Pass.Reachable .python) IsPhrase := by
  induction block generalizing bare with
  | mk head values statements next ihv _ _ =>
    have hsite : ∀ form, head.form = .ok form → Outlined values statements form.visits := by
      intro form hf
      obtain ⟨hform, hchildren⟩ := h.of_form hf
      refine ⟨fun slot hv child hc bare => ?_, fun slot hv => absurd hv (Form.no_statement_visited hform slot)⟩
      obtain ⟨entry, he, rfl⟩ := Slots.mem_of_get? hc
      exact ihv entry he (hchildren slot hv entry.2 hc) bare
    have hcode := yields_left next bare hsite fun form texts hf hleft =>
      Form.isPhrase_render (h.of_form hf).1 bare hleft
    refine hcode.imp fun code hphrase => ?_
    obtain ⟨form, -, hphrase⟩ := hphrase
    exact hphrase

/-- **The code of a chain is the text of its outline**, if all value slots that are visited hold value kinds. -/
theorem yields_outline {block : Block} (h : block.WellPlugged) :
    (block.chainCode (.standard .python)).Yields (Pass.Reachable .python) fun code =>
      ∃ outline, block.Laid outline ∧ outline.Proper ∧ code = outline.text 0 := by
  induction block with
  | mk head values statements next _ ihs ihn =>
    cases h with
    | mk hvalues hstatements hnext =>
    have hsite : ∀ form, head.form = .ok form → Outlined values statements form.visits := by
      intro form hf
      refine ⟨fun slot hv child hc bare => yields_phrase (hvalues form hf slot hv child hc) bare,
        fun slot hv first hc => ?_⟩
      obtain ⟨entry, he, rfl⟩ := Slots.mem_of_get? hc
      exact ihs entry he (hstatements form hf slot hv entry.2 hc)
    have hcode := yields_left next true hsite fun form texts hf hleft =>
      Form.outlines_render hleft fun hvalue => Form.isPhrase_render hvalue true hleft
    have hlink : (head.link ((mk head values statements next).code (.standard .python))).Yields
        (Pass.Reachable .python) fun text => ∃ form, head.form = .ok form ∧ ∃ suites own,
          (∀ slot, .statement slot ∈ form.visits → IsSuite statements slot (suites slot)) ∧
          form.Lays suites (Slots.get? 0 values).isSome own ∧ own.Proper ∧ text = own.text 0 :=
      Head.yields_line (fun _ hp => hp.wellNamed.2) hcode
    have hbelow : (nextChain (.standard .python) next).Yields (Pass.Reachable .python) fun text => ∃ rest : Outline,
        (∀ below, next = some below → below.Laid rest) ∧ (next = none → rest = .done) ∧ rest.Proper ∧
          text = rest.text 0 := by
      cases next with
      | none =>
        refine Gen.yields_pure ⟨.done, fun below hb => ?_, fun _ => rfl, .done, rfl⟩
        cases hb
      | some below =>
        refine (ihn below rfl (hnext below rfl)).imp fun text hchain => ?_
        obtain ⟨rest, hlaid, hrest, htext⟩ := hchain
        refine ⟨rest, fun other ho => Option.some.inj ho ▸ hlaid, fun hnone => ?_, hrest, htext⟩
        cases hnone
    refine hlink.bind fun text htext => hbelow.bind fun more hmore => Gen.yields_pure ?_
    obtain ⟨form, hf, suites, own, hsuites, hlays, hown, htext⟩ := htext
    obtain ⟨rest, hlaid, hdone, hrest, hmore⟩ := hmore
    refine ⟨own ++ rest, .mk hf (fun slot hv => (hsuites slot hv).numbered) (fun slot hv => (hsuites slot hv).laid) (fun slot hv => (hsuites slot hv).empty) hlays
      hlaid hdone, hown.append hrest, ?_⟩
    rw [htext, hmore, Outline.text_append]

end Block

/-- **The layout of Python code reflects its blocks.** Let all value slots that are visited hold value kinds. From any
state that a run reaches, the code of a chain is made of ended lines with something to see on each. The first is not
indented; a line ends with a colon exactly if it is a header, behind a header the indentation grows by two, behind any
other line it never grows. Grouping the lines by their indentation gives the outline of the chain. -/
theorem layout_reflects_blocks {pass after : Pass} (hp : pass.Reachable .python) {block : Block}
    (hb : block.WellPlugged) {code : String}
    (h : pass.perform (block.chainCode (.standard .python)) = (.ok code, after)) :
    IsLayout code ∧ block.Laid (.ofText code) := by
  obtain ⟨-, hcode⟩ := Block.yields_outline hb pass hp
  obtain ⟨outline, hlaid, hproper, rfl⟩ := hcode code (by rw [h])
  rw [hproper.ofText_text]
  exact ⟨hproper.isLayout, hlaid⟩

theorem Block.WellPlugged.of_slots {head : Head} {values statements : List (Nat × Block)}
    (hv : ∀ entry ∈ values, entry.2.IsValue) (hs : ∀ entry ∈ statements, entry.2.WellPlugged) :
    (Block.mk head values statements none).WellPlugged := by
  refine .mk (fun form _ slot _ child hc => ?_) (fun form _ slot _ first hc => ?_) nofun
  · obtain ⟨entry, he, rfl⟩ := Slots.mem_of_get? hc
    exact hv entry he
  · obtain ⟨entry, he, rfl⟩ := Slots.mem_of_get? hc
    exact hs entry he

def choosingProcedure : Block :=
  .mk { Head.bare Kind.procedureResult.name with titles := [(0, "f")] } [(0, .variableGet "x")]
    [(0, .mk { Head.bare Kind.choice.name with elseifs := 1, otherwise := 1 } []
      [(1, .mk (Head.bare Kind.print.name) [(0, .text "a:")] [] none), (2, .variableGet "x")] none)] none

def choosingText : String :=
  "def f():\n  if False:\n    pass\n  elif False:\n    print('a:')\n  else:\n    x\n  return x\n"

theorem wellPlugged_choosingProcedure : choosingProcedure.WellPlugged := by
  have hget : (Block.variableGet "x").IsValue := .of_values .variableGet rfl rfl (List.forall_mem_nil _)
  have htext : (Block.text "a:").IsValue := .of_values .text rfl rfl (List.forall_mem_nil _)
  have hline : (Block.variableGet "x").WellPlugged := .of_slots (List.forall_mem_nil _) (List.forall_mem_nil _)
  have hprint : (Block.mk (Head.bare Kind.print.name) [(0, .text "a:")] [] none).WellPlugged :=
    .of_slots (List.forall_mem_singleton.2 htext) (List.forall_mem_nil _)
  refine .of_slots (List.forall_mem_singleton.2 hget) (List.forall_mem_singleton.2 ?_)
  exact .of_slots (List.forall_mem_nil _) (List.forall_mem_cons.2 ⟨hprint, List.forall_mem_singleton.2 hline⟩)

theorem choosingProcedure_is_laid_out :
    IsLayout choosingText ∧ choosingProcedure.Laid (.ofText choosingText) ∧
      Outline.ofText choosingText = .line "def f():" (.line "if False:" (.single "pass") (.line "elif False:"
        (.single "print('a:')") (.line "else:" (.single "x") (.single "return x")))) .done := by
  have hrun : (Pass.start .python).perform (choosingProcedure.chainCode (.standard .python)) = (.ok choosingText,
      ((Pass.start .python).perform (choosingProcedure.chainCode (.standard .python))).2) :=
    Prod.ext (by decide +kernel) (by dsimp only)
  obtain ⟨hlayout, hlaid⟩ := layout_reflects_blocks .start wellPlugged_choosingProcedure hrun
  exact ⟨hlayout, hlaid, by decide +kernel⟩

end Blockwork
