/-
Imports: whatever a program mentions of a library, the library is there.

- `AllBacked`: every text of a run, and every definition hoisted on the way, is backed. Each event keeps it
  (`AllBacked.happens`).
- `Pass.finish_eq`: the order in which the sections of a program stand.
- `programs_are_closed_under_imports`: the main statement. It also says that a helper called is a helper hoisted.
-/
import Blockwork.Proofs.Backing
import Blockwork.Proofs.Declared

namespace Blockwork

/-! ## Whole runs -/

/-- whether the text of an event is known to end apart -/
def Event.endsApart : Event → Bool
  | left _ step _ => step.endsApart
  | code form _ _ _ => form.isStatement
  | chain _ => true

/-- everything generated so far is backed -/
structure AllBacked (language : Language) (log : List Event) (pass : Pass) : Prop where
  texts : ∀ event ∈ log, Backed language pass.registry event.text
  apart : ∀ event ∈ log, event.endsApart → Text.endsApart event.text.toList
  definitions : ∀ definition ∈ pass.registry.entries, Backed language pass.registry definition.source

namespace AllBacked

variable {language : Language} {record : List (Names.Request × String)} {log log' : List Event}
  {pass pass' after : Pass} {form : Form} {step : Step} {before rest : List Step} {texts left : List String}

/-- the texts left so far fit into the places of the template -/
theorem filled (h : AllBacked language log pass) (hsteps : (language.template form).steps = before ++ rest)
    (hdone : Done log pass form before texts) : Filled language pass.registry (language.template form).ends texts := by
  constructor
  · intro text hm
    obtain ⟨step, hleft⟩ := hdone.text_mem hm
    exact h.texts _ hleft
  · intro i hi
    by_cases hlt : i < texts.length
    · have hlt' : i < (before.filter Step.leavesText).length := hdone.left.length_eq ▸ hlt
      have hleft := hdone.left.get hlt' hlt
      have hplace : Piece.textAt texts i = texts.get ⟨i, hlt⟩ := List.getD_eq_getElem _ _ hlt
      have hends := h.apart _ hleft
      rw [hplace]
      refine hends ?_
      rw [Template.ends, hsteps, List.filter_append, List.map_append,
        List.getD_append _ _ _ _ (by rwa [List.length_map])] at hi
      change ((before.filter Step.leavesText).get ⟨i, hlt'⟩).endsApart = true
      simpa [hlt'] using hi
    · have hplace : Piece.textAt texts i = "" := List.getD_eq_default _ _ (Nat.le_of_not_lt hlt)
      rw [hplace]
      rfl

theorem asked (hdone : Done log pass form before texts) :
    ∀ key ∈ before.flatMap Step.asks, pass.registry.contains key := by
  intro key hm
  obtain ⟨step, hs, hk⟩ := List.mem_flatMap.1 hm
  cases step with
  | require library =>
    rw [List.mem_singleton.1 hk]
    exact hdone.required library hs
  | _ => cases hk

theorem request (h : AllBacked language log pass) {key source : String} {name : Option String}
    (hs : Backed language (pass.registry.request key fun _ => (name, source)).2 source) :
    ∀ definition ∈ (pass.registry.request key fun _ => (name, source)).2.entries,
      Backed language (pass.registry.request key fun _ => (name, source)).2 definition.source := by
  intro definition hm
  rw [Registry.entries_request] at hm
  have hold : definition ∈ pass.registry.entries → _ := fun hm =>
    (h.definitions definition hm).mono (Registry.entries_prefix_request pass.registry key name source)
  split_ifs at hm
  · exact hold hm
  · rcases List.mem_append.1 hm with hm | hm
    · exact hold hm
    · rw [List.mem_singleton.1 hm]
      exact hs

/-- **A step leaves and hoists backed code.** -/
theorem does (h : AllBacked language log pass) (hsteps : (language.template form).steps = before ++ step :: rest)
    (hdone : Done log pass form before texts) (hdoes : step.Does language log pass texts left after)
    (hname : ∀ text ∈ left, step.isName → Names.IsIdentifier text ∧ text ∉ language.reservedWords) :
    (∀ text ∈ left, Backed language after.registry text ∧ (step.endsApart → Text.endsApart text.toList)) ∧
      ∀ definition ∈ after.registry.entries, Backed language after.registry definition.source := by
  obtain ⟨hbacked, issued, hsafe⟩ := Language.step_isBacked hsteps
  have hasked := asked hdone
  have hidentifier : ∀ {text : String} (registry : Registry), left = [text] → step.isName →
      Backed language registry text := by
    intro text registry hl hn
    obtain ⟨hi, hr⟩ := hname text (hl ▸ List.mem_cons_self) hn
    exact .identifier hi hr
  cases hdoes with
  | absent =>
    exact ⟨List.forall_mem_singleton.2 ⟨.of_covers hsafe hbacked hasked, fun he => by cases he⟩, h.definitions⟩
  | value hcode _ =>
    exact ⟨List.forall_mem_singleton.2 ⟨h.texts _ hcode, fun he => by cases he⟩, h.definitions⟩
  | noop =>
    refine ⟨List.forall_mem_singleton.2 ?_, h.definitions⟩
    have hclosed : Text.isClosed false (Text.indentation ++ language.noop ++ "\n").toList := by cases language <;> rfl
    have hcovers : language.covers [] (Text.words (Text.indentation ++ language.noop ++ "\n").toList) := by
      cases language <;> rfl
    refine ⟨.of_covers hclosed hcovers (List.forall_mem_nil _), fun _ => ?_⟩
    cases language <;> rfl
  | branch hchain _ =>
    obtain ⟨hlines, hend⟩ := (h.texts _ hchain).prefixLines
    exact ⟨List.forall_mem_singleton.2 ⟨hlines, fun _ => hend⟩, h.definitions⟩
  | nobody => exact ⟨List.forall_mem_singleton.2 ⟨.empty, fun _ => rfl⟩, h.definitions⟩
  | body hchain _ =>
    obtain ⟨hlines, hend⟩ := (h.texts _ hchain).prefixLines
    exact ⟨List.forall_mem_singleton.2 ⟨hlines, fun _ => hend⟩, h.definitions⟩
  | @temporary base name _ =>
    refine ⟨List.forall_mem_singleton.2 ⟨hidentifier _ rfl rfl, fun he => by cases he⟩, h.request ?_⟩
    have hvar : ∀ registry, Backed language registry "var " := fun registry => by
      cases language <;> exact .of_covers rfl rfl (List.forall_mem_nil _)
    have hstop : ∀ registry, Backed language registry ";" := fun registry => .of_marks rfl
    exact ((hvar _).append (hidentifier _ rfl rfl) (.inl rfl)).append (hstop _) (.inr rfl)
  | @firstHelper helper name _ _ =>
    refine ⟨List.forall_mem_singleton.2 ⟨hidentifier _ rfl rfl, fun he => by cases he⟩, h.request ?_⟩
    refine Helper.backed_source hsafe hbacked (fun key hk => ?_) (hidentifier _ rfl rfl)
    exact Registry.contains_of_prefix (Registry.entries_prefix_request _ _ _ _) (hasked key hk)
  | @require library =>
    simp only [Step.isBacked, Bool.and_eq_true] at hbacked
    refine ⟨List.forall_mem_nil _, h.request (.of_covers hsafe hbacked.2 ?_)⟩
    exact List.forall_mem_singleton.2 (Registry.contains_request _ _ _ _)
  | @hoist key name source =>
    simp only [Step.isSafe, Bool.and_eq_true] at hsafe
    simp only [Step.isBacked, Bool.and_eq_true, Option.isSome_iff_exists] at hbacked
    obtain ⟨⟨apart, hjoin⟩, hcovers⟩ := hbacked
    obtain ⟨hcode, -⟩ :=
      Piece.backed_renderAll (h.filled hsteps hdone) hasked .empty (fun _ => rfl) hsafe.2 hcovers hjoin
    rw [String.empty_append] at hcode
    exact ⟨List.forall_mem_nil _, h.request (hcode.mono (Registry.entries_prefix_request _ _ _ _))⟩
  | _ => exact ⟨List.forall_mem_singleton.2 ⟨hidentifier _ rfl rfl, fun he => by cases he⟩, h.definitions⟩

/-- what a construct adds to a chain is backed and ends apart -/
theorem line {registry : Registry} {code : String} (h : Backed language registry code)
    (hs : form.isStatement → Text.endsApart code.toList) :
    Backed language registry (form.line language code) ∧ Text.endsApart (form.line language code).toList := by
  unfold Form.line
  split_ifs with hform
  · refine ⟨h, ?_⟩
    rcases Bool.or_eq_true_iff.1 hform with hstatement | hempty
    · exact hs hstatement
    · rw [String.isEmpty_iff.1 hempty]
      rfl
  · have hstop : Backed language registry ";\n" := .of_marks rfl
    have hend : Backed language registry "\n" := .of_marks rfl
    cases language with
    | python => exact ⟨h.append hend (.inr rfl), Text.endsApart_concat rfl (by decide) _⟩
    | _ => exact ⟨h.append hstop (.inr rfl), Text.endsApart_concat rfl (by decide) _⟩

/-- **Each event keeps everything backed.** -/
theorem happens (h : AllBacked language log pass) (horderly : Orderly language record log' pass')
    (hh : Happens language log pass log' pass') : AllBacked language log' pass' := by
  have hold : ∀ event ∈ log, Backed language pass'.registry event.text :=
    fun event hm => (h.texts event hm).mono hh.entries_prefix
  cases hh with
  | @step form before rest step texts left _ hsteps hdone hdoes =>
    obtain ⟨hleft, hdefinitions⟩ := h.does hsteps hdone hdoes fun text hm hstep =>
      horderly.identifier (List.mem_append_right _ (List.mem_map_of_mem hm)) hstep
    refine ⟨List.forall_mem_append.2 ⟨hold, fun event hm => ?_⟩,
      List.forall_mem_append.2 ⟨h.apart, fun event hm => ?_⟩, hdefinitions⟩
    · obtain ⟨text, ht, rfl⟩ := List.mem_map.1 hm
      exact (hleft text ht).1
    · obtain ⟨text, ht, rfl⟩ := List.mem_map.1 hm
      exact (hleft text ht).2
  | @code form texts bare hdone _ =>
    have hfilled := h.filled (List.append_nil _).symm hdone
    obtain ⟨hcode, hend⟩ := Template.backed_render form hfilled (asked hdone) bare
    exact ⟨List.forall_mem_append.2 ⟨hold, List.forall_mem_singleton.2 hcode⟩,
      List.forall_mem_append.2 ⟨h.apart, List.forall_mem_singleton.2 hend⟩, h.definitions⟩
  | @chain form texts code rest hcode hrest =>
    obtain ⟨hline, hend⟩ := line (h.texts _ hcode) (h.apart _ hcode)
    have hbelow : Backed language pass.registry rest ∧ Text.endsApart rest.toList := by
      rcases hrest with rfl | hchain
      · exact ⟨.empty, rfl⟩
      · have hends := h.apart _ hchain rfl
        exact ⟨h.texts _ hchain, hends⟩
    have hchain := hline.append hbelow.1 (.inl hend)
    have hapart : Text.endsApart (form.line language code ++ rest).toList := by
      rw [String.toList_append]
      exact Text.endsApart_append hbelow.2 fun _ => hend
    exact ⟨List.forall_mem_append.2 ⟨hold, List.forall_mem_singleton.2 hchain⟩,
      List.forall_mem_append.2 ⟨h.apart, List.forall_mem_singleton.2 fun _ => hapart⟩, h.definitions⟩

end AllBacked

/-! ## Sections -/

namespace Text

theorem joinWith_joinWith (separator : String) {texts : List String} (hne : texts ≠ []) (rest : List String) :
    joinWith separator (joinWith separator texts :: rest) = joinWith separator (texts ++ rest) := by
  induction texts with
  | nil => exact absurd rfl hne
  | cons text texts ih =>
    cases texts with
    | nil => rfl
    | cons next texts =>
      have hjoin := ih (List.cons_ne_nil next texts)
      cases rest with
      | nil =>
        rw [List.append_nil]
        rfl
      | cons last rest =>
        change text ++ separator ++ joinWith separator (next :: texts) ++ separator ++
            joinWith separator (last :: rest) =
          text ++ separator ++ joinWith separator (next :: texts ++ last :: rest)
        have hcut : joinWith separator (joinWith separator (next :: texts) :: last :: rest) =
            joinWith separator (next :: texts) ++ separator ++ joinWith separator (last :: rest) := rfl
        rw [← hjoin, hcut]
        simp only [String.append_assoc]

theorem joinWith_ne_empty (separator : String) {texts : List String} (hne : texts ≠ [])
    (h : ∀ text ∈ texts, text ≠ "") : joinWith separator texts ≠ "" := by
  cases texts with
  | nil => exact absurd rfl hne
  | cons text rest =>
    have htext := h text List.mem_cons_self
    cases rest with
    | nil => exact htext
    | cons next rest =>
      intro he
      have hempty := congrArg String.toList he
      change (text ++ separator ++ joinWith separator (next :: rest)).toList = [] at hempty
      simp only [String.toList_append, List.append_eq_nil_iff, String.toList_eq_nil_iff] at hempty
      exact htext hempty.1.1

end Text

namespace Pass

/-- the imports, if there are any -/
def importSections (pass : Pass) : List String :=
  let imports := (pass.registry.entries.filter (·.name.isNone)).map Definition.source
  if imports.isEmpty then [] else [Text.joinWith "\n" imports]

/-- the definitions that introduce a name -/
def namedSections (pass : Pass) : List String :=
  (pass.registry.entries.filter (·.name.isSome)).map Definition.source

/-- the definitions of a program, unless an import has an empty source: an empty block of imports is left out -/
theorem sections_eq {pass : Pass}
    (h : ∀ definition ∈ pass.registry.entries, definition.name = none → definition.source ≠ "") :
    pass.registry.sections = pass.importSections ++ pass.namedSections := by
  have hsources : ∀ source ∈ (pass.registry.entries.filter (·.name.isNone)).map Definition.source, source ≠ "" := by
    intro source hm
    obtain ⟨definition, hd, rfl⟩ := List.mem_map.1 hm
    obtain ⟨hd, hn⟩ := List.mem_filter.1 hd
    exact h definition hd (Option.isNone_iff_eq_none.1 hn)
  unfold Registry.sections importSections namedSections Registry.importBlock
  simp only
  generalize (pass.registry.entries.filter (·.name.isNone)).map Definition.source = imports at hsources ⊢
  cases imports with
  | nil => rfl
  | cons source imports =>
    have hne := Text.joinWith_ne_empty "\n" (List.cons_ne_nil source imports) hsources
    rw [if_neg (mt String.isEmpty_iff.1 hne), if_neg (by simp)]
    rfl

theorem sections_ne_nil {pass : Pass} (h : pass.registry.entries ≠ []) :
    pass.importSections ++ pass.namedSections ≠ [] := by
  intro hnil
  obtain ⟨himports, hnamed⟩ := List.append_eq_nil_iff.1 hnil
  obtain ⟨definition, hd⟩ := List.exists_mem_of_ne_nil _ h
  cases hn : definition.name with
  | none =>
    have hm : definition.source ∈ (pass.registry.entries.filter (·.name.isNone)).map Definition.source :=
      List.mem_map_of_mem (List.mem_filter.2 ⟨hd, by rw [hn]; rfl⟩)
    unfold importSections at himports
    simp only at himports
    split_ifs at himports with hnothing
    rw [List.isEmpty_iff.1 hnothing] at hm
    cases hm
  | some name =>
    have hm : definition.source ∈ pass.namedSections :=
      List.mem_map_of_mem (List.mem_filter.2 ⟨hd, by rw [hn]; rfl⟩)
    rw [hnamed] at hm
    cases hm

/-- **The order of a program**: imports, then all other definitions, then the variables, then the body. -/
theorem finish_eq {pass : Pass}
    (h : ∀ definition ∈ pass.registry.entries, definition.name = none → definition.source ≠ "") (body : String) :
    pass.finish body = Text.joinWith "\n\n"
      (pass.importSections ++ pass.namedSections ++ pass.variableSections ++ pass.bodySections body) ++ "\n" := by
  unfold finish definitionSections
  by_cases hempty : pass.registry.entries = []
  · have hnone : pass.importSections ++ pass.namedSections = [] := by
      simp [importSections, namedSections, hempty]
    rw [hnone, hempty]
    rfl
  · rw [if_neg (by simpa using hempty), Registry.render, sections_eq h, List.append_assoc, List.singleton_append,
      Text.joinWith_joinWith _ (sections_ne_nil hempty)]
    simp only [List.append_assoc]

end Pass

/-! ## Programs -/

theorem Language.library_source {language : Language} {form : Form} {library : Library}
    (h : .require library ∈ (language.template form).steps) : library.source ≠ "" := by
  obtain ⟨before, rest, hsteps⟩ := List.append_of_mem h
  obtain ⟨hbacked, -⟩ := language.step_isBacked hsteps
  simp only [Step.isBacked, Bool.and_eq_true] at hbacked
  rintro hempty
  rw [hempty] at hbacked
  exact absurd hbacked.1 (by decide)

/-- the definitions without a name are the libraries -/
theorem Definition.Origin.name_eq_none_iff {language : Language} {record : List (Names.Request × String)}
    {definition : Definition} (h : definition.Origin language record) :
    definition.name = none ↔ definition.key ∈ libraryKeys := by
  have hapart : ∀ key ∈ helperKeys, key ∉ libraryKeys := by decide
  cases h with
  | library hm => exact ⟨fun _ => Language.library_key hm, fun _ => rfl⟩
  | helper hm _ => exact ⟨fun hn => (nomatch hn), fun hk => absurd hk (hapart _ (Language.helper_key hm))⟩
  | temporary _ =>
    exact ⟨fun hn => (nomatch hn), fun hk => absurd rfl (fixedKey_ne (List.mem_append_right _ hk) _).1⟩
  | procedure _ =>
    exact ⟨fun hn => (nomatch hn), fun hk => absurd rfl (fixedKey_ne (List.mem_append_right _ hk) _).2⟩

theorem Definition.Origin.source_ne_empty {language : Language} {record : List (Names.Request × String)}
    {definition : Definition} (h : definition.Origin language record) (hn : definition.name = none) :
    definition.source ≠ "" := by
  cases h with
  | library hm => exact Language.library_source hm
  | _ => cases hn

/-- the constructs that a target writes as a call of a helper -/
def Form.callsHelper (language : Language) : Form → Bool
  | onList op =>
    match op with
    | .sum => false
    | .min => false
    | .max => false
    | .random => language != .python
    | _ => true
  | changeCase style => style == .title
  | _ => false

/-- such a call names the helper through the step that asks for it, never by a fixed text -/
theorem Language.template_calls {language : Language} {form : Form} (h : form.callsHelper language) :
    ∃ helper i j, (language.template form).shape = .always (.tight [.hole i, "(", .hole j, ")"]) ∧
      ((language.template form).steps.filter Step.leavesText)[i]? = some (.helper helper) := by
  cases form with
  | onList op =>
    cases op with
    | sum => cases h
    | min => cases h
    | max => cases h
    | random =>
      cases language with
      | python => cases h
      | _ => exact ⟨_, 1, 0, rfl, rfl⟩
    | _ => cases language <;> exact ⟨_, 1, 0, rfl, rfl⟩
  | changeCase style =>
    cases style with
    | title =>
      cases language with
      | dart => exact ⟨_, 1, 0, rfl, rfl⟩
      | _ => exact ⟨_, 0, 1, rfl, rfl⟩
    | _ => cases h
  | _ => cases h

/-- the code of such a construct is the helper's name with the operand in brackets behind it -/
theorem Language.placed_helper {language : Language} {form : Form} (h : form.callsHelper language) {texts : List String}
    (hl : ((language.template form).steps.filter Step.leavesText).length = texts.length) (bare : Bool) :
    ∃ helper name operand, (.helper helper, name) ∈ language.placed form texts ∧
      (language.template form).render texts bare = name ++ "(" ++ operand ++ ")" := by
  obtain ⟨helper, i, j, hshape, hstep⟩ := template_calls h
  obtain ⟨hi, -⟩ := List.getElem?_eq_some_iff.1 hstep
  refine ⟨helper, Piece.textAt texts i, Piece.textAt texts j, ?_, ?_⟩
  · have htext : texts[i]? = some (Piece.textAt texts i) := by
      rw [Piece.textAt, List.getD_eq_getElem _ _ (hl ▸ hi), List.getElem?_eq_getElem]
    exact List.mem_of_getElem? (List.getElem?_zip_eq_some.2 ⟨hstep, htext⟩)
  · rw [Template.render, hshape]
    change Piece.textAt texts i ++ ("(" ++ (Piece.textAt texts j ++ (")" ++ ""))) = _
    simp only [String.append_empty, String.append_assoc]

/-- **Programs are closed under imports and helpers.** What the body of a program or any definition of it mentions of
a library, outside literals, has that library in the registry. A helper named in the code of a block is the name of
a definition, and the blocks that are calls of a helper name it. The imports, which are the definitions of libraries,
come before all other definitions, and these before the variables and the body. -/
theorem programs_are_closed_under_imports (language : Language) (blocks : List Block) (program : String)
    (h : generate language blocks = .ok program) :
    ∃ body pass, programRun language blocks = (.ok body, pass) ∧
      (∀ entry ∈ language.modules, entry.1.toList ∈ Text.words body.toList → pass.registry.contains entry.2) ∧
      (∀ definition ∈ pass.registry.entries, ∀ entry ∈ language.modules,
        entry.1.toList ∈ Text.words definition.source.toList → pass.registry.contains entry.2) ∧
      (∀ form bare texts text helper name, .code form bare texts text ∈ programChronicle language blocks →
        (.helper helper, name) ∈ language.placed form texts →
          text = (language.template form).render texts bare ∧
            ∃ definition ∈ pass.registry.entries, definition.key = helper.key ∧ definition.name = some name) ∧
      (∀ form bare texts text, .code form bare texts text ∈ programChronicle language blocks →
        form.callsHelper language → ∃ helper name operand,
          (.helper helper, name) ∈ language.placed form texts ∧ text = name ++ "(" ++ operand ++ ")") ∧
      (∀ definition ∈ pass.registry.entries, definition.name = none ↔ definition.key ∈ libraryKeys) ∧
      program = Text.joinWith "\n\n"
        (pass.importSections ++ pass.namedSections ++ pass.variableSections ++ pass.bodySections body) ++ "\n" := by
  obtain ⟨record, horderly, hall⟩ := programRun_keeps (AllBacked language) language blocks
    ⟨List.forall_mem_nil _, List.forall_mem_nil _, List.forall_mem_nil _⟩ fun horderly hh h => h.happens horderly hh
  have hbodies := (programRun_unfolds language blocks).2
  rw [generate_eq] at h
  rcases hrun : programRun language blocks with ⟨outcome, pass⟩
  rw [hrun] at h horderly hall hbodies
  cases outcome with
  | error cause => cases h
  | ok body =>
    cases h
    obtain ⟨chains, hchains, rfl⟩ := hbodies body rfl
    have hends : ∀ text ∈ chains, Text.endsApart text.toList := by
      intro text hm
      have hend := hall.apart _ (hchains text hm) rfl
      exact hend
    have hbody : Backed language pass.registry (chains.foldr (· ++ ·) "") :=
      .concat (fun text hm => hall.texts _ (hchains text hm)) hends
    refine ⟨_, pass, rfl, hbody.library, fun definition hm => (hall.definitions definition hm).library, ?_, ?_,
      fun definition hm => (horderly.settled.origin definition hm).name_eq_none_iff, ?_⟩
    · intro form bare texts text helper name hm hplaced
      obtain ⟨htext, hleft⟩ := programChronicle_laid hm
      obtain ⟨-, hzip⟩ := List.forall₂_iff_zip.1 hleft
      exact ⟨htext, (horderly.account _ _ _ (hzip hplaced)).2⟩
    · intro form bare texts text hm hcalls
      obtain ⟨rfl, hleft⟩ := programChronicle_laid hm
      exact Language.placed_helper hcalls hleft.length_eq bare
    · exact Pass.finish_eq (fun definition hm => (horderly.settled.origin definition hm).source_ne_empty) _

/-- a workspace that gives a variable called `math` its own root -/
def rootWorkspace : List Block :=
  [.mk { Head.bare Kind.variableSet.name with titles := [(0, "math")] }
    [(0, .mk { Head.bare Kind.single.name with labels := [(0, "ROOT")] } [(0, .variableGet "math")] [] none)] [] none]

theorem rootWorkspace_is_closed :
    generate .python rootWorkspace = .ok "import math\n\nmath2 = math.sqrt(math2)\n" ∧
      ∃ body pass, programRun .python rootWorkspace = (.ok body, pass) ∧
        "math".toList ∈ Text.words body.toList ∧ pass.registry.contains "import_math" := by
  have hprogram : generate .python rootWorkspace = .ok "import math\n\nmath2 = math.sqrt(math2)\n" := by rfl
  obtain ⟨body, pass, hrun, hwords, -⟩ := programs_are_closed_under_imports .python rootWorkspace _ hprogram
  obtain rfl : body = "math2 = math.sqrt(math2)\n" := by
    have hbody : (programRun .python rootWorkspace).1 = .ok "math2 = math.sqrt(math2)\n" := by rfl
    rw [hrun] at hbody
    exact Except.ok.inj hbody
  have hmath : "math".toList ∈ Text.words "math2 = math.sqrt(math2)\n".toList := by decide +kernel
  exact ⟨hprogram, _, pass, hrun, hmath, hwords ("math", "import_math") (by decide) hmath⟩

end Blockwork
