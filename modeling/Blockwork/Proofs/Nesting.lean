/-
Chains in statement slots, at any depth.

- `Text.StandsIn`: a text stands in code with blanks in front of its lines; `Text.StandsIn.indented`: indentation of the
  code puts two more there.
- `Block.Nested`: a chain so many statement slots deep in another. The body of a procedure that is hoisted does not stand
  where the procedure stands, so its slots are counted from the function.
- `Gen.Occurs`: a result that is given on the way from a state to a later one.
- `Block.exists_step_run`: what a step leaves was given on the way, from a state without carriage returns in its names;
  so each visited slot has its own run (`Block.exists_value_run`, `Block.exists_body_run`).
- `Block.Nested.shows`: the induction over the slots on the way to a nested chain.
- `indentation_composes`: the main statement.
-/
import Blockwork.Proofs.Contents
import Blockwork.Proofs.Growth
import Blockwork.Proofs.Indentation
import Blockwork.Proofs.Placement

namespace Blockwork

/-! ## Indented texts in code -/

namespace Text

/-- a text stands in code, with so many blanks in front of each of its lines that is not empty: behind a line end, or at
the beginning where that is allowed -/
def StandsIn (atStart : Bool) (width : Nat) (text code : String) : Prop :=
  ∃ before behind, (EndsLine before ∨ atStart = true ∧ before = "") ∧ code = before ++ spaced width text ++ behind

namespace StandsIn

variable {atStart : Bool} {width : Nat} {text code : String}

theorem self (text : String) : StandsIn true 0 text text :=
  ⟨"", "", .inr ⟨rfl, rfl⟩, by simp⟩

theorem allow_start (h : StandsIn atStart width text code) : StandsIn true width text code := by
  obtain ⟨before, behind, hbefore, hcode⟩ := h
  exact ⟨before, behind, hbefore.imp_right fun hstart => ⟨rfl, hstart.2⟩, hcode⟩

theorem append (h : StandsIn atStart width text code) (more : String) : StandsIn atStart width text (code ++ more) := by
  obtain ⟨before, behind, hbefore, rfl⟩ := h
  exact ⟨before, behind ++ more, hbefore, by rw [String.append_assoc]⟩

theorem behind_lines (h : StandsIn true width text code) {front : String} (hf : front = "" ∨ EndsLine front) :
    StandsIn true width text (front ++ code) := by
  obtain ⟨before, behind, hbefore, rfl⟩ := h
  refine ⟨front ++ before, behind, ?_, by simp only [String.append_assoc]⟩
  rcases hbefore with hended | ⟨-, rfl⟩
  · exact .inl hended.behind
  · rw [String.append_empty]
    exact hf.symm.imp_right fun hempty => ⟨rfl, hempty⟩

/-- what stands behind a line end does so in all code around it -/
theorem splice (h : StandsIn false width text code) (front back : String) :
    StandsIn false width text (front ++ code ++ back) := by
  obtain ⟨before, behind, hbefore, rfl⟩ := h
  have hended := hbefore.resolve_right fun hstart => Bool.noConfusion hstart.1
  exact ⟨front ++ before, behind ++ back, .inl hended.behind, by simp only [String.append_assoc]⟩

theorem of_line (h : StandsIn true width text code) {front : String} (hf : EndsLine front) (back : String) :
    StandsIn false width text (front ++ code ++ back) := by
  obtain ⟨before, behind, hbefore, rfl⟩ := h
  refine ⟨front ++ before, behind ++ back, .inl ?_, by simp only [String.append_assoc]⟩
  rcases hbefore with hended | ⟨-, rfl⟩
  · exact hended.behind
  · rwa [String.append_empty]

/-- **Indentation puts two more blanks in front of the lines.** -/
theorem indented (h : StandsIn true width text code) (hc : '\r' ∉ text.toList) (he : EndsLine text) :
    StandsIn true (width + 2) text (prefixLines code indentation) := by
  obtain ⟨before, behind, hbefore, rfl⟩ := h
  have hfront : before = "" ∨ EndsLine before := hbefore.symm.imp_left And.right
  refine ⟨prefixLines before indentation, prefixLines behind indentation, ?_, ?_⟩
  · rcases hfront with rfl | hended
    · exact .inr ⟨rfl, rfl⟩
    · have hne : before ≠ "" := by
        rintro rfl
        cases hended
      exact .inl (indented_prefixLines hne).ended
  · rw [String.append_assoc, prefixLines_append hfront, prefixLines_append (.inr (endsLine_spaced hc he width)),
      prefixLines_spaced hc (.inr he), String.append_assoc]

/-- code in which a text stands behind a line end has a line feed -/
theorem newline_mem (h : StandsIn false width text code) : '\n' ∈ code.toList := by
  obtain ⟨before, behind, hbefore, rfl⟩ := h
  have hended : before.toList.getLast? = some '\n' := hbefore.resolve_right fun hstart => Bool.noConfusion hstart.1
  rw [String.append_assoc, String.toList_append]
  exact List.mem_append_left _ (List.mem_of_getLast? hended)

theorem ne_empty (h : StandsIn true width text code) (hc : '\r' ∉ text.toList) (he : EndsLine text) : code ≠ "" := by
  obtain ⟨before, behind, -, rfl⟩ := h
  have hspaced : spaced width text ≠ "" := fun hempty => by
    have hended := endsLine_spaced hc he width
    rw [hempty] at hended
    cases hended
  exact append_ne_empty (.inl (append_ne_empty (.inr hspaced)))

end StandsIn

end Text

/-! ## Results on the way -/

/-- an action gives a result on the way from a state to a later one -/
def Gen.Occurs {α : Type} (action : Gen α) (a : α) (pass after : Pass) : Prop :=
  ∃ start stop, pass.Grows start ∧ start.perform action = (.ok a, stop) ∧ stop.Grows after

theorem Gen.Occurs.mono {α : Type} {action : Gen α} {a : α} {start stop pass after : Pass}
    (h : action.Occurs a start stop) (hs : pass.Grows start) (he : stop.Grows after) : action.Occurs a pass after := by
  obtain ⟨first, last, hfirst, hrun, hlast⟩ := h
  exact ⟨first, last, hs.trans hfirst, hrun, hlast.trans he⟩

def Alphabet.returnless : Alphabet :=
  .without '\r' rfl

theorem Alphabet.returnless_newline : returnless.mem '\n' :=
  show '\n' ≠ '\r' by decide

theorem Alphabet.returnless_within_full : returnless.Within full :=
  ⟨trivial, fun _ _ => trivial⟩

/-- a state in which no name has a carriage return -/
abbrev Pass.Returnless (pass : Pass) : Prop :=
  pass.Spelled .returnless .full

theorem Pass.WellNamed.returnless {pass : Pass} (h : pass.WellNamed) : pass.Returnless :=
  ⟨h.names, fun definition hd name hn => .identifier (h.definitions definition hd name hn), fun _ _ _ _ => trivial⟩

/-- a state on the way from another: whatever is known there is still known, and no name has a carriage return -/
structure Pass.Reaches (pass mid : Pass) : Prop extends pass.Grows mid where
  returnless : mid.Returnless

theorem Pass.Reaches.trans {pass mid later : Pass} (h : pass.Reaches mid) (h' : mid.Reaches later) :
    pass.Reaches later :=
  ⟨h.toGrows.trans h'.toGrows, h'.returnless⟩

theorem Pass.Returnless.reaches {pass : Pass} (h : pass.Returnless) : pass.Reaches pass :=
  ⟨.refl pass, h⟩

theorem quotable_returnless (language : Language) (forms : List Form) : Quotable .returnless language forms :=
  fun content _ c hc => ((IsWord.quote language content).2 c hc).2

section

variable {language : Language} {pass after : Pass} {code : String} {block : Block} {form : Form} {texts : List String}

/-! ## Runs of blocks -/

namespace Block

/-- code and chains are made without carriage returns, and bring none into names -/
theorem spelled_returnless (language : Language) (block : Block) :
    (∀ bare, (block.code (.standard language) bare).Yields Pass.Returnless (MadeOf .returnless)) ∧
      (block.chainCode (.standard language)).Yields Pass.Returnless (MadeOf .returnless) := by
  constructor
  · exact (block.spelled_emission Alphabet.returnless_within_full Alphabet.returnless_newline).1
      (quotable_returnless language _)
  · exact (block.spelled_emission Alphabet.returnless_within_full Alphabet.returnless_newline).2
      (quotable_returnless language _)

theorem site_returnless (language : Language) (block : Block) (visits : List Visit) :
    Site.Spelled .returnless .full (block.site (.standard language)) visits := by
  constructor
  · intro slot _ child hc
    obtain ⟨plugged, -, rfl⟩ := exists_of_get?_emissions hc
    exact (plugged.spelled_returnless language).1
  · intro slot _ first hc
    obtain ⟨plugged, -, rfl⟩ := exists_of_get?_emissions hc
    exact (plugged.spelled_returnless language).2

theorem grows_code {bare : Bool} (h : pass.perform (block.code (.standard language) bare) = (.ok code, after)) :
    pass.Grows after := by
  have hgrows := (block.emission_keeps (Pass.Grows.invariant pass) language.issuesFrom_any).code bare pass (.refl pass)
  rwa [show pass.perform ((emission (.standard language) block).code bare) = (.ok code, after) from h] at hgrows

theorem grows_chain (h : pass.perform (block.chainCode (.standard language)) = (.ok code, after)) :
    pass.Grows after := by
  have hgrows := (block.emission_keeps (Pass.Grows.invariant pass) language.issuesFrom_any).chain pass (.refl pass)
  rwa [show pass.perform (emission (.standard language) block).chain = (.ok code, after) from h] at hgrows

theorem grows_runAll {steps : List Step} {done : List String}
    (h : pass.perform (Step.runAll (block.site (.standard language)) done steps) = (.ok texts, after)) :
    pass.Grows after := by
  have hinvariant := Pass.Grows.invariant pass
  have hgrows := Step.keeps_runAll hinvariant (block.site_keeps hinvariant language.issuesFrom_any) done steps
    (fun _ _ _ _ => trivial) pass (.refl pass)
  rwa [h] at hgrows

/-- **What a step leaves was given on the way.** -/
theorem exists_step_run {α : Type} {action : Gen α} (made : α → String) {step : Step} (hp : pass.Returnless)
    (hsteps : pass.perform (Step.runAll (block.site (.standard language)) [] (language.template form).steps) =
      (.ok texts, after))
    (hm : step ∈ (language.template form).steps) (hleaves : step.leavesText)
    (haction : ∀ done, step.run (block.site (.standard language)) done =
      action >>= fun a => pure (done ++ [made a])) :
    ∃ i a start stop, (language.template form).leaving[i]? = some step ∧ Piece.textAt texts i = made a ∧
      pass.Reaches start ∧ start.perform action = (.ok a, stop) ∧ stop.Grows after := by
  have hbasic : ∀ step ∈ (language.template form).steps, step.isBasic := by
    have htext : ∀ content, form ≠ .text content := by
      rintro content rfl
      rw [(language.render_text content [] true).1] at hm
      cases hm
    have hbasic := language.template_isBasic form htext
    rw [Template.isBasic, Bool.and_eq_true] at hbasic
    exact List.all_eq_true.1 hbasic.1
  obtain ⟨before, behind, hsplit⟩ := List.append_of_mem hm
  have hrun := hsteps
  rw [hsplit] at hrun
  obtain ⟨done, start, hbefore, hrest⟩ := Step.perform_runAll_append hrun
  obtain ⟨next, stop, hstep, hbehind⟩ := Pass.perform_bind_ok hrest
  rw [haction] at hstep
  obtain ⟨a, last, hgiven, hend⟩ := Pass.perform_bind_ok hstep
  cases hend
  -- the steps in front leave as many texts as there are places in front
  obtain ⟨front, hdone, hfront⟩ := (Step.gives_runAll _ before [] pass trivial).2 done (congrArg Prod.fst hbefore)
  obtain rfl : done = front := hdone
  obtain ⟨back, rfl, -⟩ := (Step.gives_runAll _ behind _ stop trivial).2 texts (congrArg Prod.fst hbehind)
  have hstart : start.Returnless := by
    have hin : ∀ step ∈ before, step ∈ (language.template form).steps := fun step hb => by
      rw [hsplit]
      exact List.mem_append_left _ hb
    have hkeeps := (Step.spelled_runAll Alphabet.returnless_within_full (fun _ => Alphabet.returnless_newline) hin
      (fun step hb => hbasic step (hin step hb)) (block.site_returnless language form.visits)
      (List.forall_mem_nil _) pass hp).1
    rwa [hbefore] at hkeeps
  refine ⟨done.length, a, start, stop, ?_, ?_, ⟨grows_runAll hbefore, hstart⟩, hgiven, grows_runAll hbehind⟩
  · rw [Template.leaving, hsplit, List.filter_append, List.filter_cons_of_pos hleaves,
      List.getElem?_append_right hfront.length_eq.le, hfront.length_eq, Nat.sub_self]
    rfl
  · simp [Piece.textAt]

theorem perform_value_of_child {slot : Nat} {child : Block} (hchild : Slots.get? slot block.values = some child)
    {place : Bool} {absent text : String}
    (h : pass.perform ((block.site (.standard language)).value slot place absent) = (.ok text, after)) :
    ∃ code, pass.perform (child.code (.standard language) place) = (.ok code, after) ∧ (code ≠ "" → text = code) := by
  have hslot : Slots.get? slot (block.site (.standard language)).values = some (child.emission (.standard language)) := by
    rw [site, get?_emissions, hchild]
    rfl
  obtain ⟨found, between, hfound, hend⟩ := Pass.perform_bind_ok h
  cases hend
  rw [Site.value?, hslot] at hfound
  obtain ⟨code, last, hcode, hkept⟩ := Pass.perform_bind_ok hfound
  cases hkept
  refine ⟨code, hcode, fun hne => ?_⟩
  rw [if_neg (mt String.isEmpty_iff.1 hne)]
  rfl

theorem perform_statement?_of_child {slot : Nat} {first : Block}
    (hfirst : Slots.get? slot block.statements = some first) {found : Option String}
    (h : pass.perform ((block.site (.standard language)).statement? slot) = (.ok found, after)) :
    ∃ code, pass.perform (first.chainCode (.standard language)) = (.ok code, after) ∧
      (code ≠ "" → found = some (Text.prefixLines code Text.indentation)) := by
  have hslot : Slots.get? slot (block.site (.standard language)).statements =
      some (first.emission (.standard language)) := by
    rw [site, get?_emissions, hfirst]
    rfl
  rw [Site.perform_statement?_eq (Site.lt_limit_of_statement?_ok h), hslot] at h
  obtain ⟨code, last, hcode, hkept⟩ := Pass.perform_bind_ok h
  cases hkept
  exact ⟨code, hcode, fun hne => if_neg (mt String.isEmpty_iff.1 hne)⟩

theorem perform_branch_of_child {slot : Nat} {first : Block}
    (hfirst : Slots.get? slot block.statements = some first) {text : String}
    (h : pass.perform ((block.site (.standard language)).branch slot) = (.ok text, after)) :
    ∃ code, pass.perform (first.chainCode (.standard language)) = (.ok code, after) ∧
      (code ≠ "" → text = Text.prefixLines code Text.indentation) := by
  obtain ⟨found, between, hfound, hend⟩ := Pass.perform_bind_ok h
  obtain ⟨code, hcode, htext⟩ := perform_statement?_of_child hfirst hfound
  cases found with
  | none =>
    cases hend
    exact ⟨code, hcode, fun hne => absurd (htext hne) (Option.some_ne_none _).symm⟩
  | some indented =>
    cases hend
    exact ⟨code, hcode, fun hne => Option.some.inj (htext hne)⟩

/-- **An operand has its own run**, and its code is the text of its step if it is not empty. -/
theorem exists_value_run (hp : pass.Returnless)
    (hsteps : pass.perform (Step.runAll (block.site (.standard language)) [] (language.template form).steps) =
      (.ok texts, after))
    {slot : Nat} (hvisit : .value slot ∈ form.visits) {child : Block}
    (hchild : Slots.get? slot block.values = some child) :
    ∃ i place absent start stop code, (language.template form).leaving[i]? = some (.value slot place absent) ∧
      pass.Reaches start ∧ start.perform (child.code (.standard language) place) = (.ok code, stop) ∧
      stop.Grows after ∧ (code ≠ "" → Piece.textAt texts i = code) := by
  rw [← steps_visits language form] at hvisit
  obtain ⟨step, hm, hstep⟩ := List.mem_flatMap.1 hvisit
  obtain ⟨place, absent, rfl⟩ : ∃ place absent, step = .value slot place absent := by
    cases step with
    | value slot place absent =>
      cases List.mem_singleton.1 hstep
      exact ⟨place, absent, rfl⟩
    | branch | body | userVariable | userProcedure => simp [Step.visits] at hstep
    | _ => cases hstep
  obtain ⟨i, text, start, stop, hi, htext, hreaches, hrun, hgrows⟩ :=
    exists_step_run (fun text => text) hp hsteps hm rfl fun _ => rfl
  obtain ⟨code, hcode, hkept⟩ := perform_value_of_child hchild hrun
  exact ⟨i, place, absent, start, stop, code, hi, hreaches, hcode, hgrows, fun hne => htext.trans (hkept hne)⟩

/-- **A body has its own run**, and its code, indented, is the text of its step if it is not empty. -/
theorem exists_body_run (hp : pass.Returnless)
    (hsteps : pass.perform (Step.runAll (block.site (.standard language)) [] (language.template form).steps) =
      (.ok texts, after))
    {slot : Nat} (hvisit : .statement slot ∈ form.visits) {first : Block}
    (hfirst : Slots.get? slot block.statements = some first) :
    ∃ i step start stop code, (language.template form).leaving[i]? = some step ∧ step.isBody ∧
      pass.Reaches start ∧ start.perform (first.chainCode (.standard language)) = (.ok code, stop) ∧
      stop.Grows after ∧ (code ≠ "" → Piece.textAt texts i = Text.prefixLines code Text.indentation) := by
  rw [← steps_visits language form] at hvisit
  obtain ⟨step, hm, hstep⟩ := List.mem_flatMap.1 hvisit
  cases step with
  | branch slot =>
    cases List.mem_singleton.1 hstep
    obtain ⟨i, text, start, stop, hi, htext, hreaches, hrun, hgrows⟩ :=
      exists_step_run (fun text => text) hp hsteps hm rfl fun _ => rfl
    obtain ⟨code, hcode, hkept⟩ := perform_branch_of_child hfirst hrun
    exact ⟨i, _, start, stop, code, hi, rfl, hreaches, hcode, hgrows, fun hne => htext.trans (hkept hne)⟩
  | body slot =>
    cases List.mem_singleton.1 hstep
    obtain ⟨i, found, start, stop, hi, htext, hreaches, hrun, hgrows⟩ :=
      exists_step_run (fun found : Option String => found.getD "") hp hsteps hm rfl fun _ => rfl
    obtain ⟨code, hcode, hkept⟩ := perform_statement?_of_child hfirst hrun
    refine ⟨i, _, start, stop, code, hi, rfl, hreaches, hcode, hgrows, fun hne => htext.trans ?_⟩
    rw [hkept hne]
    rfl
  | value | userVariable | userProcedure => simp [Step.visits] at hstep
  | _ => cases hstep

/-- a chain starts with the code of its first block -/
theorem exists_own_run (h : pass.perform (block.chainCode (.standard language)) = (.ok code, after)) :
    ∃ own more mid, pass.perform (block.code (.standard language) true) = (.ok own, mid) ∧ mid.Grows after ∧
      code = own ++ more := by
  obtain ⟨head, values, statements, next⟩ := block
  obtain ⟨linked, mid, hlink, hrest⟩ := Pass.perform_bind_ok h
  obtain ⟨rest, last, hnext, hend⟩ := Pass.perform_bind_ok hrest
  cases hend
  obtain ⟨own, more, hown, rfl⟩ := Head.perform_link_ok hlink
  refine ⟨own, more ++ rest, mid, hown, ?_, String.append_assoc ..⟩
  cases next with
  | none =>
    cases hnext
    exact .refl _
  | some below => exact grows_chain hnext

/-- a chain goes on with the chain below its first block, on a new line -/
theorem exists_below_run {head : Head} {values statements : List (Nat × Block)} {below : Block} (hp : pass.Returnless)
    (h : pass.perform ((mk head values statements (some below)).chainCode (.standard language)) = (.ok code, after)) :
    ∃ front rest mid, pass.Reaches mid ∧ mid.perform (below.chainCode (.standard language)) = (.ok rest, after) ∧
      (front = "" ∨ EndsLine front) ∧ code = front ++ rest := by
  obtain ⟨front, mid, hlink, hrest⟩ := Pass.perform_bind_ok h
  obtain ⟨rest, last, hbelow, hend⟩ := Pass.perform_bind_ok hrest
  cases hend
  have hlinked : pass.perform (head.link ((mk head values statements (some below)).code (.standard language))) =
      (.ok front, mid) := hlink
  have hends := (ends_link head values statements (some below) pass trivial).2 front (congrArg Prod.fst hlinked)
  have hcode := ((mk head values statements (some below)).spelled_returnless language).1 true
  have hlink : (head.link _).Yields Pass.Returnless (MadeOf .returnless) :=
    spelled_link Alphabet.returnless_newline hcode
  have hmid := (hlink pass hp).1
  rw [hlinked] at hmid
  obtain ⟨own, more, hown, -⟩ := Head.perform_link_ok hlinked
  exact ⟨front, rest, mid, ⟨grows_code hown, hmid⟩, hbelow, hends, rfl⟩

/-! ## Visited blocks -/

/-- a block is generated from a state to a later one, with the chain below it or without -/
def Runs (language : Language) (block : Block) (pass after : Pass) : Bool → Prop
  | true => ∃ code, pass.perform (block.chainCode (.standard language)) = (.ok code, after)
  | false => ∃ bare code, pass.perform (block.code (.standard language) bare) = (.ok code, after)

/-- with its chain or without, the block itself is generated -/
theorem Runs.own {chain : Bool} (h : block.Runs language pass after chain) :
    ∃ mid, block.Runs language pass mid false ∧ mid.Grows after := by
  cases chain with
  | false => exact ⟨after, h, .refl after⟩
  | true =>
    obtain ⟨code, hrun⟩ := h
    obtain ⟨own, -, mid, hown, hgrows, -⟩ := exists_own_run hrun
    exact ⟨mid, ⟨true, own, hown⟩, hgrows⟩

/-- with its chain or without, the steps of its construct are carried out -/
theorem Runs.steps {chain : Bool} (h : block.Runs language pass after chain) (hform : block.head.form = .ok form) :
    ∃ texts mid, pass.perform (Step.runAll (block.site (.standard language)) [] (language.template form).steps) =
      (.ok texts, mid) ∧ mid.Grows after := by
  obtain ⟨mid, ⟨bare, code, hcode⟩, hgrows⟩ := h.own
  obtain ⟨texts, hsteps, -⟩ := perform_code_ok hform hcode
  exact ⟨texts, mid, hsteps, hgrows⟩

/-- **Every block that is visited is generated on the way.** -/
theorem Visits.runs {chain : Bool} {other : Block} (h : Visits chain block other) (hp : pass.Returnless)
    (hrun : block.Runs language pass after chain) :
    ∃ start stop, pass.Reaches start ∧ other.Runs language start stop false ∧ stop.Grows after := by
  induction h generalizing pass after with
  | self =>
    obtain ⟨mid, hown, hgrows⟩ := hrun.own
    exact ⟨pass, mid, hp.reaches, hown, hgrows⟩
  | @value _ head values statements next form slot child other hform hvisit hchild _ ih =>
    obtain ⟨texts, mid, hsteps, hgrows⟩ := hrun.steps hform
    obtain ⟨-, place, -, start, stop, text, -, hstart, hrun, hstop, -⟩ := exists_value_run hp hsteps hvisit hchild
    obtain ⟨first, last, hfirst, hother, hlast⟩ := ih hstart.returnless ⟨place, text, hrun⟩
    exact ⟨first, last, hstart.trans hfirst, hother, (hlast.trans hstop).trans hgrows⟩
  | @statement _ head values statements next form slot child other hform hvisit _ hchild _ ih =>
    obtain ⟨texts, mid, hsteps, hgrows⟩ := hrun.steps hform
    obtain ⟨-, -, start, stop, text, -, -, hstart, hrun, hstop, -⟩ := exists_body_run hp hsteps hvisit hchild
    obtain ⟨first, last, hfirst, hother, hlast⟩ := ih hstart.returnless ⟨text, hrun⟩
    exact ⟨first, last, hstart.trans hfirst, hother, (hlast.trans hstop).trans hgrows⟩
  | next _ ih =>
    obtain ⟨code, hchain⟩ := hrun
    obtain ⟨-, rest, mid, hmid, hbelow, -, -⟩ := exists_below_run hp hchain
    obtain ⟨first, last, hfirst, hother, hlast⟩ := ih hmid.returnless ⟨rest, hbelow⟩
    exact ⟨first, last, hmid.trans hfirst, hother, hlast⟩

/-! ## Nested chains -/

/-- a procedure in Dart, which is hoisted as a function -/
def IsHoisted (language : Language) (block : Block) : Prop :=
  ∃ form, block.head.form = .ok form ∧ form.IsHoisted language

/-- a chain stands so many statement slots deep in what a block gives, with the chain below it or without; what a
procedure gives is its function where it is hoisted, so nothing in it stands in the code around the procedure -/
inductive Nested (language : Language) : Bool → Nat → Block → Block → Prop
  | self {block : Block} : Nested language true 0 block block
  | next {depth : Nat} {head : Head} {values statements : List (Nat × Block)} {below inner : Block} :
      Nested language true depth below inner → Nested language true depth (mk head values statements (some below)) inner
  | own {depth : Nat} {block inner : Block} : ¬block.IsHoisted language → Nested language false depth block inner →
      Nested language true depth block inner
  | value {depth : Nat} {head : Head} {values statements : List (Nat × Block)} {next : Option Block} {form : Form}
      {slot : Nat} {child inner : Block} : head.form = .ok form → .value slot ∈ form.visits →
      Slots.get? slot values = some child → ¬child.IsHoisted language → Nested language false depth child inner →
      Nested language false depth (mk head values statements next) inner
  | statement {depth : Nat} {head : Head} {values statements : List (Nat × Block)} {next : Option Block} {form : Form}
      {slot : Nat} {first inner : Block} : head.form = .ok form → .statement slot ∈ form.visits →
      Slots.get? slot statements = some first → Nested language true depth first inner →
      Nested language false (depth + 1) (mk head values statements next) inner

/-- what stands in a block alone stands in it with its chain too, unless the block is hoisted -/
theorem Nested.or_isHoisted {depth : Nat} {inner : Block} (h : Nested language false depth block inner) (chain : Bool) :
    Nested language chain depth block inner ∨ block.IsHoisted language := by
  cases chain with
  | false => exact .inl h
  | true => exact or_iff_not_imp_right.2 fun hb => .own hb h

/-- **A chain in a visited block is nested** in what the block is visited from, or in a procedure that is hoisted on the
way. -/
theorem Visits.nested {chain : Bool} {other inner : Block} {depth : Nat} (h : Visits chain block other)
    (hinner : Nested language false depth other inner) :
    (∃ depth, Nested language chain depth block inner) ∨
      ∃ procedure depth, procedure.IsHoisted language ∧ Visits chain block procedure ∧
        Nested language false depth procedure inner := by
  have hlift : ∀ {chain : Bool} {block : Block} {depth : Nat}, Nested language false depth block inner →
      (∃ depth, Nested language chain depth block inner) ∨
        ∃ procedure depth, procedure.IsHoisted language ∧ Visits chain block procedure ∧
          Nested language false depth procedure inner :=
    fun {chain block depth} hnested => (hnested.or_isHoisted chain).imp (fun hchain => ⟨depth, hchain⟩) fun hb =>
      ⟨block, depth, hb, .self, hnested⟩
  induction h with
  | self => exact hlift hinner
  | @value chain head values statements next form slot child other hform hvisit hchild _ ih =>
    rcases ih hinner with ⟨inside, hnested⟩ | ⟨procedure, inside, hoisted, hvisits, hnested⟩
    · by_cases hb : child.IsHoisted language
      · exact .inr ⟨child, inside, hb, .value hform hvisit hchild .self, hnested⟩
      · exact hlift (.value hform hvisit hchild hb hnested)
    · exact .inr ⟨procedure, inside, hoisted, .value hform hvisit hchild hvisits, hnested⟩
  | statement hform hvisit hslot hchild _ ih =>
    rcases ih hinner with ⟨inside, hnested⟩ | ⟨procedure, inside, hoisted, hvisits, hnested⟩
    · exact hlift (.statement hform hvisit hchild hnested)
    · exact .inr ⟨procedure, inside, hoisted, .statement hform hvisit hslot hchild hvisits, hnested⟩
  | next _ ih =>
    rcases ih hinner with ⟨inside, hnested⟩ | ⟨procedure, inside, hoisted, hvisits, hnested⟩
    · exact .inl ⟨inside, .next hnested⟩
    · exact .inr ⟨procedure, inside, hoisted, .next hvisits, hnested⟩

/-- a chain is generated on the way, without carriage returns and with its last line ended, and the text of it has a place
if it is not empty -/
def Appears (language : Language) (inner : Block) (pass after : Pass) (place : String → Prop) : Prop :=
  ∃ text, (inner.chainCode (.standard language)).Occurs text pass after ∧ '\r' ∉ text.toList ∧
    (text = "" ∨ EndsLine text) ∧ (text ≠ "" → place text)

theorem Appears.imp {inner : Block} {start stop : Pass} {place wider : String → Prop}
    (h : inner.Appears language start stop place) (hs : pass.Grows start) (he : stop.Grows after)
    (hw : ∀ text, '\r' ∉ text.toList → EndsLine text → place text → wider text) :
    inner.Appears language pass after wider := by
  obtain ⟨text, hoccurs, hc, hends, hplace⟩ := h
  exact ⟨text, hoccurs.mono hs he, hc, hends, fun hne => hw text hc (hends.resolve_left hne) (hplace hne)⟩

/-- how a nested chain appears in the code of a chain, or in what is written for a block alone -/
def Shows (language : Language) (inner : Block) (depth : Nat) (block : Block) : Bool → Prop
  | true => ∀ {pass after : Pass} {code : String}, pass.Returnless →
      pass.perform (block.chainCode (.standard language)) = (.ok code, after) →
        inner.Appears language pass after fun text => Text.StandsIn true (2 * depth) text code
  | false => ∀ {pass after : Pass} {form : Form} {texts : List String} (bare : Bool), pass.Returnless →
      block.head.form = .ok form →
      pass.perform (Step.runAll (block.site (.standard language)) [] (language.template form).steps) =
        (.ok texts, after) →
        inner.Appears language pass after fun text =>
          Text.StandsIn false (2 * depth) text (language.written form texts bare)

/-- what is written for a block that is not hoisted is its code -/
theorem Shows.in_code {inner : Block} {depth : Nat} (h : inner.Shows language depth block false)
    (hb : ¬block.IsHoisted language) (hp : pass.Returnless) {bare : Bool}
    (hrun : pass.perform (block.code (.standard language) bare) = (.ok code, after)) :
    inner.Appears language pass after fun text => Text.StandsIn false (2 * depth) text code := by
  obtain ⟨form, texts, hform, hsteps, rfl⟩ := exists_form hrun
  rw [← Language.written_of_not_isHoisted fun hf => hb ⟨form, hform, hf⟩]
  exact h bare hp hform hsteps

/-- **A nested chain shows up at every level**: each statement slot on the way puts two blanks in front of its lines, and
no value slot any. -/
theorem Nested.shows {chain : Bool} {depth : Nat} {inner : Block} (h : Nested language chain depth block inner) :
    inner.Shows language depth block chain := by
  induction h with
  | @self block =>
    intro pass after code hp hrun
    have hoccurs : (block.chainCode (.standard language)).Occurs code pass after :=
      ⟨pass, after, .refl pass, hrun, .refl after⟩
    have hc : MadeOf .returnless code := ((block.spelled_returnless language).2 pass hp).2 code (congrArg Prod.fst hrun)
    have hends := (block.ends_chain pass trivial).2 code (congrArg Prod.fst hrun)
    exact ⟨code, hoccurs, fun hm => hc _ hm rfl, hends, fun _ => .self code⟩
  | next _ ih =>
    intro pass after code hp hrun
    obtain ⟨front, rest, mid, hmid, hbelow, hfront, rfl⟩ := exists_below_run hp hrun
    exact (ih hmid.returnless hbelow).imp hmid.toGrows (.refl after) fun text _ _ htext => htext.behind_lines hfront
  | own hb _ ih =>
    intro pass after code hp hrun
    obtain ⟨own, more, mid, hown, hgrows, rfl⟩ := exists_own_run hrun
    exact (Shows.in_code ih hb hp hown).imp (.refl pass) hgrows fun text _ _ htext => htext.allow_start.append more
  | @value depth head values statements next form slot child inner hform hvisit hchild hb _ ih =>
    intro pass after other texts bare hp hother hsteps
    obtain rfl := Except.ok.inj (hform.symm.trans hother)
    obtain ⟨i, place, absent, start, stop, code, hi, hstart, hcode, hstop, htext⟩ :=
      exists_value_run hp hsteps hvisit hchild
    refine (Shows.in_code ih hb hstart.returnless hcode).imp hstart.toGrows hstop fun text _ _ hstands => ?_
    have hnewline := hstands.newline_mem
    have hkept : Piece.textAt texts i = code := htext fun hempty => by
      rw [hempty] at hnewline
      cases hnewline
    obtain ⟨front, back, hwritten⟩ := language.written_splices_value hi (hkept ▸ hnewline) bare
    rw [hwritten, hkept]
    exact hstands.splice front back
  | @statement depth head values statements next form slot first inner hform hvisit hfirst _ ih =>
    intro pass after other texts bare hp hother hsteps
    obtain rfl := Except.ok.inj (hform.symm.trans hother)
    obtain ⟨i, step, start, stop, code, hi, hbody, hstart, hcode, hstop, htext⟩ :=
      exists_body_run hp hsteps hvisit hfirst
    refine (ih hstart.returnless hcode).imp hstart.toGrows hstop fun text hc he hstands => ?_
    have hindented := hstands.indented hc he
    have hkept := htext (hstands.ne_empty hc he)
    obtain ⟨front, back, hfront, hwritten⟩ := language.written_splices_body hi hbody
      (hkept ▸ hindented.ne_empty hc he) bare
    rw [hwritten, hkept]
    exact hindented.of_line hfront back

/-- a chain is generated on the way, and its text stands in code so many levels deep, with two blanks for each level in
front of each of its lines that is not empty -/
def StandsIn (language : Language) (inner : Block) (pass after : Pass) (depth : Nat) (code : String) : Prop :=
  ∃ text, (inner.chainCode (.standard language)).Occurs text pass after ∧ Text.StandsIn true (2 * depth) text code

theorem Appears.standsIn {inner : Block} {depth : Nat}
    (h : inner.Appears language pass after fun text => Text.StandsIn true (2 * depth) text code) :
    inner.StandsIn language pass after depth code := by
  obtain ⟨text, hoccurs, -, -, hplace⟩ := h
  refine ⟨text, hoccurs, ?_⟩
  by_cases hempty : text = ""
  · subst hempty
    exact ⟨"", code, .inr ⟨rfl, rfl⟩, by rw [Text.spaced_empty, String.empty_append, String.empty_append]⟩
  · exact hplace hempty

/-- **A chain in a procedure that is hoisted** stands in the function that is defined for it. -/
theorem Nested.standsIn_function {chain inner : Block} {depth : Nat} (h : Nested language false depth block inner)
    (hb : block.IsHoisted language) (hvisits : Visits true chain block) (hp : pass.Returnless)
    (hrun : pass.perform (chain.chainCode (.standard language)) = (.ok code, after)) :
    ∃ name source, (Gen.define ("procedure_" ++ name) (some name) source).Occurs () pass after ∧
      inner.StandsIn language pass after depth source := by
  obtain ⟨_, hform, rfl, user, rfl⟩ := hb
  obtain ⟨start, stop, hstart, ⟨bare, text, hcode⟩, hstop⟩ := hvisits.runs hp ⟨code, hrun⟩
  obtain ⟨texts, hsteps, -⟩ := perform_code_ok hform hcode
  have happears := h.shows bare hstart.returnless hform hsteps
  have hsplit : (Language.dart.template (.procedure user)).steps = Target.Brace.procedureSteps user ++
      [.hoist "procedure_" 0 ["dynamic ", 0, "() \x7b\n", Target.Brace.procedureBody .dart, "\x7d"]] := rfl
  rw [hsplit] at hsteps
  obtain ⟨between, mid, hbefore, hhoist⟩ := Step.runAll_concat hsteps
  obtain ⟨⟨⟩, last, hdefine, hend⟩ := Pass.perform_bind_ok hhoist
  cases hend
  refine ⟨Piece.textAt texts 0, (functionOf texts).source,
    ⟨mid, stop, hstart.toGrows.trans (grows_runAll hbefore), hdefine, hstop⟩, ?_⟩
  exact (happears.imp hstart.toGrows hstop fun _ _ _ htext => htext.allow_start).standsIn

end Block

end

/-- **Indentation is compositional.** A text is indented part by part, if the first part is empty or ends its last line;
and two indentations of a text without carriage returns are one, if the inner lead has no line feed. So wherever a chain
stands so many statement slots deep in another, and that is generated from a state whose names are identifiers, the text
of the inner chain stands in the code, with two blanks for each of the slots in front of each line that is not empty.
Every chain in a slot of a block that is visited is nested so, but for those in a procedure in Dart: that leaves nothing
in the code around it and is a text of its own, the function, in which the same holds for the slots from the procedure
on. All names are identifiers in every state that a run reaches. -/
theorem indentation_composes :
    (∀ a b lead : String, a = "" ∨ EndsLine a →
      Text.prefixLines (a ++ b) lead = Text.prefixLines a lead ++ Text.prefixLines b lead) ∧
    (∀ code inner outer : String, '\r' ∉ code.toList → '\n' ∉ inner.toList →
      Text.prefixLines (Text.prefixLines code inner) outer = Text.prefixLines code (outer ++ inner)) ∧
    (∀ (language : Language) (pass after : Pass) (chain : Block) (code : String), pass.WellNamed →
      pass.perform (chain.chainCode (.standard language)) = (.ok code, after) →
      (∀ (depth : Nat) (inner : Block), Block.Nested language true depth chain inner →
        inner.StandsIn language pass after depth code) ∧
      (∀ (depth : Nat) (procedure inner : Block), procedure.IsHoisted language → Block.Visits true chain procedure →
        Block.Nested language false depth procedure inner →
        ∃ name source, (Gen.define ("procedure_" ++ name) (some name) source).Occurs () pass after ∧
          inner.StandsIn language pass after depth source) ∧
      ∀ (block first : Block) (form : Form) (slot : Nat), Block.Visits true chain block →
        block.head.form = .ok form → .statement slot ∈ form.visits → Slots.get? slot block.statements = some first →
        (∃ depth, Block.Nested language true depth chain first) ∨
          ∃ procedure depth, procedure.IsHoisted language ∧ Block.Visits true chain procedure ∧
            Block.Nested language false depth procedure first) ∧
    ∀ (language : Language) (pass : Pass), pass.Reachable language → pass.WellNamed := by
  refine ⟨fun a b lead ha => Text.prefixLines_append ha b lead,
    fun code inner outer hc hi => Text.prefixLines_prefixLines hc hi outer, ?_, fun _ _ h => h.wellNamed.1⟩
  intro language pass after chain code hp hrun
  refine ⟨fun depth inner h => (h.shows hp.returnless hrun).standsIn,
    fun depth procedure inner hb hvisits h => h.standsIn_function hb hvisits hp.returnless hrun, ?_⟩
  rintro ⟨head, values, statements, next⟩ first form slot hvisits hform hslot hfirst
  exact hvisits.nested (.statement hform hslot hfirst .self)

def printedLetters : Block :=
  .mk (Head.bare Kind.print.name) [(0, .text "a")] [] (some (.mk (Head.bare Kind.print.name) [(0, .text "b")] [] none))

def choiceOf (first : Block) : Block :=
  .mk (Head.bare Kind.choice.name) [] [(0, first)] none

def procedureOf (first : Block) : Block :=
  .mk { Head.bare Kind.procedure.name with titles := [(0, "f")] } [] [(0, first)] none

def nestedLettersCode : String :=
  "if (false) \x7b\n  if (false) \x7b\n    console.log('a');\n    console.log('b');\n  \x7d\n\x7d\n"

theorem choiceOf_nested {language : Language} {depth : Nat} {first inner : Block}
    (h : Block.Nested language true depth first inner) :
    Block.Nested language true (depth + 1) (choiceOf first) inner := by
  have hform : (Head.bare Kind.choice.name).form = .ok (.choice 0 false) := rfl
  have hslot : .statement 0 ∈ (Form.choice 0 false).visits := by decide
  refine .own ?_ (.statement hform hslot rfl h)
  rintro ⟨form, hform, -, user, rfl⟩
  cases hform

theorem procedureOf_nested {language : Language} {depth : Nat} {first inner : Block}
    (h : Block.Nested language true depth first inner) :
    Block.Nested language false (depth + 1) (procedureOf first) inner := by
  have hform : (procedureOf first).head.form = .ok (.procedure "f") := rfl
  have hslot : .statement 0 ∈ (Form.procedure "f").visits := by decide
  exact .statement hform hslot rfl h

theorem printedLetters_indented :
    Text.prefixLines ("a\n\n" ++ "b") "  " = "  a\n\n" ++ "  b\n" ∧
      Text.prefixLines (Text.prefixLines "a\n\nb" "  ") "    " = "      a\n\n      b\n" ∧
      (Pass.start .javascript).WellNamed ∧
      Block.Nested .javascript true 2 (choiceOf (choiceOf printedLetters)) printedLetters ∧
      (Pass.start .javascript).perform ((choiceOf (choiceOf printedLetters)).chainCode (.standard .javascript)) =
        (.ok nestedLettersCode, .start .javascript) ∧
      printedLetters.StandsIn .javascript (.start .javascript) (.start .javascript) 2 nestedLettersCode ∧
      Block.Nested .dart false 2 (procedureOf (choiceOf printedLetters)) printedLetters ∧
      ∃ after name source,
        (Pass.start .dart).perform ((procedureOf (choiceOf printedLetters)).chainCode (.standard .dart)) =
            (.ok "", after) ∧
          (Gen.define ("procedure_" ++ name) (some name) source).Occurs () (.start .dart) after ∧
          printedLetters.StandsIn .dart (.start .dart) after 2 source := by
  obtain ⟨happend, htwice, hruns, hnamed⟩ := indentation_composes
  have hnested : Block.Nested .javascript true 2 (choiceOf (choiceOf printedLetters)) printedLetters :=
    choiceOf_nested (choiceOf_nested .self)
  have hbody : Block.Nested .dart false 2 (procedureOf (choiceOf printedLetters)) printedLetters :=
    procedureOf_nested (choiceOf_nested .self)
  have hrun : (Pass.start .javascript).perform
      ((choiceOf (choiceOf printedLetters)).chainCode (.standard .javascript)) =
      (.ok nestedLettersCode, .start .javascript) := by
    decide +kernel
  have hfunction : (Pass.start .dart).perform ((procedureOf (choiceOf printedLetters)).chainCode (.standard .dart)) =
      (.ok "", ((Pass.start .dart).perform ((procedureOf (choiceOf printedLetters)).chainCode (.standard .dart))).2) :=
    Prod.ext (by decide +kernel) rfl
  have hstart : (Pass.start .javascript).WellNamed := hnamed _ _ .start
  have hstands := (hruns .javascript _ _ _ _ hstart hrun).1 2 printedLetters hnested
  obtain ⟨name, source, hdefine, hsource⟩ := (hruns .dart _ _ _ _ (hnamed _ _ .start) hfunction).2.1 2
    (procedureOf (choiceOf printedLetters)) printedLetters ⟨.procedure "f", rfl, rfl, "f", rfl⟩ .self hbody
  exact ⟨(happend "a\n\n" "b" "  " (.inr rfl)).trans (by decide +kernel),
    (htwice "a\n\nb" "  " "    " (by decide) (by decide)).trans (by decide +kernel), hstart, hnested, hrun, hstands,
    hbody, _, name, source, hfunction, hdefine, hsource⟩

end Blockwork
