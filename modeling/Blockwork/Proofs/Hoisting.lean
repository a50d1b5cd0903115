/-
Procedures that are hoisted as functions.

- `Block.procedures`: the titles of the procedure blocks that a workspace visits, one for each of them, wherever it
  stands. `generatedProcedures`: the procedures of a chronicle, each with the texts that its function is made of.
- `Tracks`: what a run does to the functions, told by its chronicle: each procedure generated on the way is put to the
  functions unless there is one of its name, and the procedures generated are those visited. Each step does so
  (`Step.tracks_run`), so steps in a row, blocks, chains and whole workspaces do (`Block.tracks_chainsCode`).
- `programRun_functions`: the functions of a program are those of its procedures, the first one of each title.
-/
import Blockwork.Proofs.Balance
import Blockwork.Proofs.Survey

namespace Blockwork

/-! ## Procedures that are visited and generated -/

def Visit.procedure? : Visit → Option String
  | name .procedure user => some user
  | _ => none

def Finding.procedure? : Finding → Option String
  | request .procedure user => some user
  | _ => none

/-- the title of a construct that is a procedure -/
def Form.procedure? : Form → Option String
  | procedure user => some user
  | _ => none

/-- the procedure that an event has generated: its title and the texts left by its steps -/
def Event.procedure? : Event → Option (String × List String)
  | code form _ texts _ => form.procedure?.map fun user => (user, texts)
  | _ => none

/-- the titles of the procedures among what is met -/
def Finding.procedures (found : List Finding) : List String :=
  found.filterMap procedure?

/-- the titles of the procedure blocks that are visited in a workspace, one for each block -/
def Block.procedures (blocks : List Block) : List String :=
  Finding.procedures (findings blocks)

/-- the procedures that events have generated -/
def generatedProcedures (events : List Event) : List (String × List String) :=
  events.filterMap Event.procedure?

theorem Finding.procedures_append (first second : List Finding) :
    procedures (first ++ second) = procedures first ++ procedures second :=
  List.filterMap_append

theorem generatedProcedures_append (before after : List Event) :
    generatedProcedures (before ++ after) = generatedProcedures before ++ generatedProcedures after :=
  List.filterMap_append

theorem generatedProcedures_left (form : Form) (step : Step) (texts : List String) :
    generatedProcedures (texts.map (.left form step)) = [] := by
  rw [generatedProcedures, List.filterMap_eq_nil_iff]
  intro event hm
  obtain ⟨text, -, rfl⟩ := List.mem_map.1 hm
  rfl

/-- a construct asks for the title of a procedure only if it is one -/
theorem Form.visits_procedure? (form : Form) : form.visits.filterMap Visit.procedure? = form.procedure?.toList := by
  cases form with
  | join items =>
    rw [visits, List.filterMap_map]
    exact List.filterMap_eq_nil_iff.2 fun _ _ => rfl
  | choice elseifs otherwise =>
    refine List.filterMap_eq_nil_iff.2 fun visit hm => ?_
    rcases List.mem_append.1 hm with hm | hm
    · obtain ⟨n, -, hn⟩ := List.mem_flatMap.1 hm
      rcases List.mem_cons.1 hn with rfl | hn
      · rfl
      · rw [List.mem_singleton.1 hn]
        rfl
    · cases otherwise with
      | false => cases hm
      | true =>
        rw [List.mem_singleton.1 hm]
        rfl
  | _ => rfl

/-! ## Functions among the definitions -/

/-- whether a key is that of a procedure -/
def isFunctionKey (key : String) : Bool :=
  "procedure_".toList.isPrefixOf key.toList

/-- the functions that procedures were hoisted as -/
def Registry.functions (registry : Registry) : List Definition :=
  registry.entries.filter fun definition => isFunctionKey definition.key

def put (definitions : List Definition) (definition : Definition) : List Definition :=
  if definition.key ∈ definitions.map Definition.key then definitions else definitions ++ [definition]

/-- the function that a procedure becomes -/
def functionOf (texts : List String) : Definition :=
  ⟨"procedure_" ++ Piece.textAt texts 0, some (Piece.textAt texts 0),
    Piece.renderAll texts ["dynamic ", 0, "() \x7b\n", Target.Brace.procedureBody .dart, "\x7d"]⟩

/-- the functions after a procedure: only Dart hoists it -/
def Language.hoist (language : Language) (functions : List Definition) (procedure : String × List String) :
    List Definition :=
  match language with
  | dart => put functions (functionOf procedure.2)
  | _ => functions

theorem isFunctionKey_procedure (name : String) : isFunctionKey ("procedure_" ++ name) := by
  rw [isFunctionKey, List.isPrefixOf_iff_prefix, String.toList_append]
  exact List.prefix_append _ _

theorem isFunctionKey_temp (name : String) : isFunctionKey ("temp_" ++ name) = false := by
  rw [isFunctionKey, String.toList_append]
  rfl

theorem isFunctionKey_fixed {key : String} (h : key ∈ helperKeys ++ libraryKeys) : isFunctionKey key = false := by
  have hkeys : ∀ key ∈ helperKeys ++ libraryKeys, isFunctionKey key = false := by decide
  exact hkeys key h

/-- a request changes the functions just when its key is that of a procedure -/
theorem Registry.functions_request (registry : Registry) (key : String) (name : Option String) (source : String) :
    (registry.request key fun _ => (name, source)).2.functions =
      if isFunctionKey key then put registry.functions ⟨key, name, source⟩ else registry.functions := by
  rw [functions, entries_request]
  have hthere : isFunctionKey key → (key ∈ registry.functions.map Definition.key ↔ registry.contains key) := by
    intro hk
    rw [contains_iff, List.mem_map]
    constructor
    · rintro ⟨other, hm, ho⟩
      exact ⟨other, (List.mem_filter.1 hm).1, ho⟩
    · rintro ⟨other, hm, ho⟩
      exact ⟨other, List.mem_filter.2 ⟨hm, ho ▸ hk⟩, ho⟩
  by_cases hc : registry.contains key
  · rw [if_pos hc]
    split_ifs with hk
    · rw [put, if_pos ((hthere hk).2 hc)]
      rfl
    · rfl
  · rw [if_neg hc, List.filter_append]
    split_ifs with hk
    · rw [put, if_neg (mt (hthere hk).1 hc), List.filter_singleton]
      simp only [hk]
      rfl
    · simp only [List.filter_singleton, hk]
      exact List.append_nil _

/-- a request under another key leaves the functions alone -/
theorem Registry.functions_request_other (registry : Registry) {key : String} (hk : isFunctionKey key = false)
    (name : Option String) (source : String) :
    (registry.request key fun _ => (name, source)).2.functions = registry.functions := by
  rw [functions_request, hk]
  rfl

/-! ## What a run does to the functions -/

/-- what a run does, told by its events: `pending` are the titles asked for by a construct that is not generated yet -/
structure Tracks (language : Language) (pass : Pass) (events : List Event) (pending : List String)
    (found : List Finding) (after : Pass) : Prop where
  procedures : (pending ++ (generatedProcedures events).map Prod.fst).Perm (Finding.procedures found)
  functions : after.registry.functions = (generatedProcedures events).foldl language.hoist pass.registry.functions

namespace Tracks

variable {language : Language} {pass middle after : Pass} {before events : List Event} {pending more : List String}
  {found next : List Finding}

theorem quiet (he : generatedProcedures events = []) (hf : Finding.procedures found = pending)
    (hr : after.registry.functions = pass.registry.functions) : Tracks language pass events pending found after := by
  refine ⟨?_, ?_⟩
  · rw [he, hf, List.map_nil, List.append_nil]
  · rw [he, hr]
    rfl

theorem append (h : Tracks language pass before pending found middle)
    (hn : Tracks language middle events more next after) :
    Tracks language pass (before ++ events) (pending ++ more) (found ++ next) after := by
  refine ⟨?_, ?_⟩
  · rw [generatedProcedures_append, List.map_append, Finding.procedures_append]
    have hswap : (pending ++ more ++ ((generatedProcedures before).map Prod.fst ++
        (generatedProcedures events).map Prod.fst)).Perm ((pending ++ (generatedProcedures before).map Prod.fst) ++
          (more ++ (generatedProcedures events).map Prod.fst)) := by
      simp only [List.append_assoc]
      refine List.Perm.append_left pending ?_
      simp only [← List.append_assoc]
      exact List.Perm.append_right _ List.perm_append_comm
    exact hswap.trans (h.procedures.append hn.procedures)
  · rw [hn.functions, h.functions, generatedProcedures_append, List.foldl_append]

theorem append_quiet (h : Tracks language pass before pending found after) (he : generatedProcedures events = []) :
    Tracks language pass (before ++ events) pending found after := by
  refine ⟨?_, ?_⟩
  · rw [generatedProcedures_append, he, List.append_nil]
    exact h.procedures
  · rw [generatedProcedures_append, he, List.append_nil]
    exact h.functions

end Tracks

/-- runs of a block that succeed, and of the chain that starts with it -/
structure Block.Tracked (language : Language) (block : Block) : Prop where
  code : ∀ {bare : Bool} {pass after : Pass} {text : String},
    pass.perform (block.code (.standard language) bare) = (.ok text, after) →
      Tracks language pass ((block.chronicle language).code bare pass) [] block.survey.own after
  chain : ∀ {pass after : Pass} {text : String},
    pass.perform (block.chainCode (.standard language)) = (.ok text, after) →
      Tracks language pass ((block.chronicle language).chain pass) [] block.survey.chain after

section Steps

variable {language : Language} {form : Form} {values statements : List (Nat × Block)} {pass after : Pass}

theorem Site.tracks_value? (hv : ∀ entry ∈ values, entry.2.Tracked language) {slot : Nat} {bare : Bool}
    {found : Option String} (absent : String)
    (h : pass.perform (Site.value? ⟨Block.emissions (.standard language) values,
      Block.emissions (.standard language) statements⟩ slot bare) = (.ok found, after)) :
    Tracks language pass
      ((Step.value slot bare absent).inner (Block.chronicles language values) (Block.chronicles language statements) pass)
      [] ((Visit.value slot).findings (Block.surveys values) (Block.surveys statements)) after := by
  simp only [Step.inner, Visit.findings, Block.chronicles_eq_map, Block.surveys_eq_map, Slots.get?_map]
  rcases Site.perform_value?_ok h with ⟨hnone, rfl⟩ | ⟨child, code, hsome, hcode⟩
  · rw [Block.get?_emissions, Option.map_eq_none_iff] at hnone
    rw [hnone]
    exact .quiet rfl rfl rfl
  · obtain ⟨block, hb, rfl⟩ := Block.exists_of_get?_emissions hsome
    obtain ⟨entry, he, rfl⟩ := Slots.mem_of_get? hb
    rw [hb]
    exact (hv entry he).code hcode

theorem Site.tracks_statement? (hs : ∀ entry ∈ statements, entry.2.Tracked language) {slot : Nat}
    {found : Option String}
    (h : pass.perform (Site.statement? ⟨Block.emissions (.standard language) values,
      Block.emissions (.standard language) statements⟩ slot) = (.ok found, after)) :
    Tracks language pass
      ((Step.body slot).inner (Block.chronicles language values) (Block.chronicles language statements) pass)
      [] ((Visit.statement slot).findings (Block.surveys values) (Block.surveys statements)) after := by
  simp only [Step.inner, Chronicle.inSlot, Visit.findings, Block.chronicles_eq_map, Block.surveys_eq_map,
    Slots.get?_map, if_pos (Site.lt_limit_of_statement?_ok h)]
  rcases Site.perform_statement?_ok h with ⟨hnone, rfl⟩ | ⟨first, code, hsome, hcode⟩
  · rw [Block.get?_emissions, Option.map_eq_none_iff] at hnone
    rw [hnone]
    exact .quiet rfl rfl rfl
  · obtain ⟨block, hb, rfl⟩ := Block.exists_of_get?_emissions hsome
    obtain ⟨entry, he, rfl⟩ := Slots.mem_of_get? hb
    rw [hb]
    exact (hs entry he).chain hcode

/-- **One step** of a template that does not hoist a procedure: what it generates is what the slot it visits holds, and
the functions change with that only. -/
theorem Step.tracks_run (hv : ∀ entry ∈ values, entry.2.Tracked language)
    (hs : ∀ entry ∈ statements, entry.2.Tracked language) {step : Step} (hm : step ∈ (language.template form).steps)
    (hk : ∀ key name source, step ≠ .hoist key name source) {texts texts' : List String}
    (h : pass.perform (step.run ⟨Block.emissions (.standard language) values,
      Block.emissions (.standard language) statements⟩ texts) = (.ok texts', after)) :
    Tracks language pass
      (step.inner (Block.chronicles language values) (Block.chronicles language statements) pass)
      (step.visits.filterMap Visit.procedure?)
      (step.visits.flatMap (Visit.findings (Block.surveys values) (Block.surveys statements))) after := by
  cases step with
  | value slot bare absent =>
    obtain ⟨text, between, htext, hrest⟩ := Pass.perform_bind_ok h
    cases hrest
    obtain ⟨found, between, hvalue, hrest⟩ := Pass.perform_bind_ok htext
    cases hrest
    rw [visits, List.flatMap_singleton]
    exact Site.tracks_value? hv absent hvalue
  | branch slot =>
    obtain ⟨text, between, htext, hrest⟩ := Pass.perform_bind_ok h
    cases hrest
    obtain ⟨found, between, hstatement, hrest⟩ := Pass.perform_bind_ok htext
    have hsame : after = between := by
      cases found with
      | none => exact (Prod.mk.inj hrest).2.symm
      | some code => exact (Prod.mk.inj hrest).2.symm
    rw [hsame]
    rw [visits, List.flatMap_singleton]
    exact Site.tracks_statement? hs hstatement
  | body slot =>
    obtain ⟨found, between, hstatement, hrest⟩ := Pass.perform_bind_ok h
    cases hrest
    rw [visits, List.flatMap_singleton]
    exact Site.tracks_statement? hs hstatement
  | userVariable user =>
    cases h
    exact .quiet rfl rfl rfl
  | userProcedure user =>
    cases h
    exact .quiet rfl rfl rfl
  | fresh base =>
    cases h
    exact .quiet rfl rfl rfl
  | temporary base =>
    cases h
    exact .quiet rfl rfl (Registry.functions_request_other _ (isFunctionKey_temp _) _ _)
  | helper helper =>
    have hkey := isFunctionKey_fixed (List.mem_append_left _ (Language.helper_key hm))
    simp only [run, Gen.provide, Pass.perform_bind, Pass.perform_get] at h
    cases hf : pass.registry.find? helper.key with
    | some definition =>
      rw [hf] at h
      cases h
      exact .quiet rfl rfl rfl
    | none =>
      rw [hf] at h
      cases h
      exact .quiet rfl rfl (Registry.functions_request_other _ hkey _ _)
  | require library =>
    cases h
    have hkey := isFunctionKey_fixed (List.mem_append_right _ (Language.library_key hm))
    exact .quiet rfl rfl (Registry.functions_request_other _ hkey _ _)
  | hoist key name source => exact absurd rfl (hk key name source)

/-- **Steps in a row** that do not hoist a procedure. -/
theorem Step.tracks_runAll (hv : ∀ entry ∈ values, entry.2.Tracked language)
    (hs : ∀ entry ∈ statements, entry.2.Tracked language) {steps : List Step}
    (hm : ∀ step ∈ steps, step ∈ (language.template form).steps)
    (hk : ∀ key name source, .hoist key name source ∉ steps) {texts texts' : List String}
    (h : pass.perform (Step.runAll ⟨Block.emissions (.standard language) values,
      Block.emissions (.standard language) statements⟩ texts steps) = (.ok texts', after)) :
    Tracks language pass
      (Step.chronicle form ⟨Block.emissions (.standard language) values, Block.emissions (.standard language) statements⟩
        (Block.chronicles language values) (Block.chronicles language statements) texts steps pass)
      ((steps.flatMap Step.visits).filterMap Visit.procedure?)
      ((steps.flatMap Step.visits).flatMap (Visit.findings (Block.surveys values) (Block.surveys statements)))
      after := by
  induction steps generalizing texts pass with
  | nil =>
    cases h
    exact .quiet rfl rfl rfl
  | cons step rest ih =>
    obtain ⟨hstep, hrest⟩ := List.forall_mem_cons.1 hm
    obtain ⟨between, middle, hfirst, hothers⟩ := Pass.perform_bind_ok h
    have hone := Step.tracks_run hv hs hstep (fun key name source he => hk key name source (he ▸ List.mem_cons_self)) hfirst
    have hall := ih hrest (fun key name source hmem => hk key name source (List.mem_cons_of_mem _ hmem)) hothers
    simp only [Step.chronicle, Pass.afterwards, hfirst, List.flatMap_cons, List.filterMap_append, List.flatMap_append]
    rw [← List.append_assoc]
    exact (hone.append_quiet (generatedProcedures_left ..)).append hall

end Steps

/-! ## Blocks -/

theorem Step.perform_runAll_append {site : Site} {texts texts' : List String} {before behind : List Step}
    {pass after : Pass} (h : pass.perform (Step.runAll site texts (before ++ behind)) = (.ok texts', after)) :
    ∃ between middle, pass.perform (Step.runAll site texts before) = (.ok between, middle) ∧
      middle.perform (Step.runAll site between behind) = (.ok texts', after) := by
  induction before generalizing texts pass with
  | nil => exact ⟨texts, pass, rfl, h⟩
  | cons step rest ih =>
    obtain ⟨texts₁, pass₁, hstep, hrest⟩ := Pass.perform_bind_ok h
    obtain ⟨between, middle, hall, hbehind⟩ := ih hrest
    refine ⟨between, middle, ?_, hbehind⟩
    rw [Step.runAll, Pass.perform_bind, hstep]
    exact hall

theorem Step.runAll_concat {site : Site} {texts : List String} {steps : List Step} {last : Step} {pass after : Pass}
    {texts' : List String} (h : pass.perform (Step.runAll site texts (steps ++ [last])) = (.ok texts', after)) :
    ∃ between middle, pass.perform (Step.runAll site texts steps) = (.ok between, middle) ∧
      middle.perform (last.run site between) = (.ok texts', after) := by
  obtain ⟨between, middle, hall, hlast⟩ := Step.perform_runAll_append h
  obtain ⟨left, stop, hstep, hend⟩ := Pass.perform_bind_ok hlast
  cases hend
  exact ⟨between, middle, hall, hstep⟩

/-- the last of steps in a row adds its own events -/
theorem Step.chronicle_concat {form : Form} {site : Site} {values statements : List (Nat × Chronicle)}
    {texts between : List String} {steps : List Step} {pass middle : Pass} (last : Step)
    (h : pass.perform (Step.runAll site texts steps) = (.ok between, middle)) :
    Step.chronicle form site values statements texts (steps ++ [last]) pass =
      Step.chronicle form site values statements texts steps pass ++
        Step.chronicle form site values statements between [last] middle := by
  induction steps generalizing texts pass with
  | nil =>
    cases h
    rfl
  | cons step rest ih =>
    obtain ⟨texts₁, pass₁, hstep, hrest⟩ := Pass.perform_bind_ok h
    simp only [List.cons_append, Step.chronicle, Pass.afterwards, hstep, List.append_assoc, ih hrest]

theorem Step.chronicle_hoist {form : Form} {site : Site} {values statements : List (Nat × Chronicle)}
    {texts : List String} {pass : Pass} {key : String} {name : Nat} {source : List Piece} :
    Step.chronicle form site values statements texts [.hoist key name source] pass = [] := by
  have hrun : pass.perform ((Step.hoist key name source).run site texts) = (.ok texts, { pass with
      registry := (pass.registry.request (key ++ Piece.textAt texts name) fun _ =>
        (some (Piece.textAt texts name), Piece.renderAll texts source)).2 }) := rfl
  rw [Step.chronicle, Pass.afterwards_ok hrun, List.drop_length]
  rfl

/-- an expression as a statement of its own is written in front -/
theorem Language.exists_expressionStatement_eq (language : Language) (code : String) :
    ∃ more, language.expressionStatement code = code ++ more := by
  cases language with
  | python => exact ⟨"\n", rfl⟩
  | javascript => exact ⟨";\n", rfl⟩
  | dart => exact ⟨";\n", rfl⟩

/-- a block that adds to its chain has been generated for a bare place, and the state is as that left it -/
theorem Head.perform_link_ok {head : Head} {code : Bool → Gen String} {own : String} {pass after : Pass}
    (h : pass.perform (head.link code) = (.ok own, after)) :
    ∃ text more, pass.perform (code true) = (.ok text, after) ∧ own = text ++ more := by
  obtain ⟨kind, between, hkind, hrest⟩ := Pass.perform_bind_ok h
  rw [Pass.perform_ofExcept] at hkind
  obtain ⟨-, rfl⟩ := Prod.mk.inj hkind
  obtain ⟨text, middle, hcode, hend⟩ := Pass.perform_bind_ok hrest
  split_ifs at hend
  · cases hend
    exact ⟨own, "", hcode, String.append_empty.symm⟩
  · cases hend
    obtain ⟨more, hmore⟩ := after.language.exists_expressionStatement_eq text
    exact ⟨text, more, hcode, hmore⟩

section Blocks

variable {language : Language} {head : Head} {values statements : List (Nat × Block)} {next : Option Block}
  {pass after : Pass} {text : String}

theorem Block.tracks_code_of_noHoist (hv : ∀ entry ∈ values, entry.2.Tracked language)
    (hs : ∀ entry ∈ statements, entry.2.Tracked language) {form : Form} (hf : head.form = .ok form)
    (hk : ∀ key name source, .hoist key name source ∉ (language.template form).steps)
    (hd : language = .dart → form.procedure? = none) {bare : Bool}
    (h : pass.perform ((mk head values statements next).code (.standard language) bare) = (.ok text, after)) :
    Tracks language pass (((mk head values statements next).chronicle language).code bare pass) []
      (mk head values statements next).survey.own after := by
  rw [perform_code, hf] at h
  obtain ⟨texts, middle, htexts, hrest⟩ := Pass.perform_bind_ok h
  cases hrest
  have hsteps := Step.tracks_runAll hv hs (fun _ hm => hm) hk htexts
  rw [steps_visits, Form.visits_procedure?] at hsteps
  rw [chronicle_code next bare hf htexts, survey, Head.findings, hf]
  -- the procedure that was pending is generated now, and outside Dart that changes no function
  refine ⟨?_, ?_⟩
  · refine List.Perm.trans ?_ hsteps.procedures
    rw [generatedProcedures_append, List.map_append, List.nil_append]
    refine List.perm_append_comm.trans (List.Perm.append_right _ ?_)
    cases hp : form.procedure? <;> simp [generatedProcedures, Event.procedure?, hp]
  · rw [generatedProcedures_append, List.foldl_append, ← hsteps.functions]
    cases hp : form.procedure? with
    | none => simp [generatedProcedures, Event.procedure?, hp]
    | some user =>
      cases language with
      | dart =>
        rw [hd rfl] at hp
        cases hp
      | javascript => simp [generatedProcedures, Event.procedure?, hp, Language.hoist]
      | python => simp [generatedProcedures, Event.procedure?, hp, Language.hoist]

/-- a procedure in Dart: what its steps leave is hoisted as a function, unless there is one of its name -/
theorem Block.tracks_code_of_procedure (hv : ∀ entry ∈ values, entry.2.Tracked .dart)
    (hs : ∀ entry ∈ statements, entry.2.Tracked .dart) {user : String} (hf : head.form = .ok (.procedure user))
    {bare : Bool}
    (h : pass.perform ((mk head values statements next).code (.standard .dart) bare) = (.ok text, after)) :
    Tracks .dart pass (((mk head values statements next).chronicle .dart).code bare pass) []
      (mk head values statements next).survey.own after := by
  rw [perform_code, hf] at h
  obtain ⟨texts, last, htexts, hrest⟩ := Pass.perform_bind_ok h
  cases hrest
  rw [chronicle_code next bare hf htexts, survey, Head.findings, hf]
  have hsplit : (Language.dart.template (.procedure user)).steps = Target.Brace.procedureSteps user ++
      [.hoist "procedure_" 0 ["dynamic ", 0, "() \x7b\n", Target.Brace.procedureBody .dart, "\x7d"]] := rfl
  rw [hsplit] at htexts ⊢
  obtain ⟨between, middle, hbefore, hhoist⟩ := Step.runAll_concat htexts
  have htracks := Step.tracks_runAll hv hs (fun _ hm => hsplit ▸ List.mem_append_left _ hm)
    (by simp [Target.Brace.procedureSteps]) hbefore
  have hsame : texts = between := (Except.ok.inj (Prod.mk.inj hhoist).1).symm
  subst hsame
  rw [Step.chronicle_concat _ hbefore, Step.chronicle_hoist, List.append_nil]
  cases hhoist
  refine ⟨?_, ?_⟩
  · rw [generatedProcedures_append, List.map_append, List.nil_append]
    exact List.perm_append_comm.trans htracks.procedures
  · rw [generatedProcedures_append, List.foldl_append, ← htracks.functions]
    refine (Registry.functions_request ..).trans ?_
    rw [if_pos (isFunctionKey_procedure _)]
    rfl

/-- **A block and its chain.** -/
theorem Block.tracked (language : Language) (block : Block) : block.Tracked language := by
  induction block with
  | mk head values statements next hv hs hn =>
    have hcode : ∀ {bare : Bool} {pass after : Pass} {text : String},
        pass.perform ((mk head values statements next).code (.standard language) bare) = (.ok text, after) →
          Tracks language pass (((mk head values statements next).chronicle language).code bare pass) []
            (mk head values statements next).survey.own after := by
      intro bare pass after text h
      cases hf : head.form with
      | error cause =>
        rw [perform_code, hf] at h
        cases h
      | ok form =>
        rcases language.steps_isKeyed form with hall | ⟨rfl, user, rfl⟩
        · have hk : ∀ key name source, .hoist key name source ∉ (language.template form).steps :=
            fun key name source hm => Bool.noConfusion (List.all_eq_true.1 hall _ hm)
          refine tracks_code_of_noHoist hv hs hf hk ?_ h
          rintro rfl
          cases form with
          | procedure user => cases (hall : false = true)
          | _ => rfl
        · exact tracks_code_of_procedure hv hs hf h
    refine ⟨hcode, fun {pass after text} h => ?_⟩
    obtain ⟨own, middle, hlink, hrest⟩ := Pass.perform_bind_ok h
    obtain ⟨rest, last, hnext, hend⟩ := Pass.perform_bind_ok hrest
    cases hend
    obtain ⟨code, -, hown, -⟩ := Head.perform_link_ok hlink
    have hbelow : Tracks language middle (nextEvents language next middle) [] (nextFindings next) after := by
      cases next with
      | none =>
        cases hnext
        exact .quiet rfl rfl rfl
      | some below => exact (hn below rfl).chain hnext
    have hchain := (hcode hown).append hbelow
    have hlinked : pass.perform (head.link ((mk head values statements next).code (.standard language))) =
        (.ok own, middle) := hlink
    rw [chronicle_chain, Pass.afterwards_ok hlinked, Pass.afterwards_ok h]
    exact hchain.append_quiet rfl

/-- **A whole workspace.** -/
theorem Block.tracks_chainsCode {blocks : List Block}
    (h : pass.perform (chainsCode (.standard language) blocks) = (.ok text, after)) :
    Tracks language pass (chainsEvents language blocks pass) [] (findings blocks) after := by
  induction blocks generalizing pass text with
  | nil =>
    cases h
    exact .quiet rfl rfl rfl
  | cons block rest ih =>
    obtain ⟨first, middle, hfirst, hrest⟩ := Pass.perform_bind_ok h
    obtain ⟨others, last, hothers, hend⟩ := Pass.perform_bind_ok hrest
    cases hend
    rw [chainsEvents, Pass.afterwards_ok hfirst]
    exact ((block.tracked language).chain hfirst).append (ih hothers)

end Blocks

/-! ## One definition for each key -/

section Put

variable {kept : List Definition}

theorem mem_put {definition other : Definition} :
    other ∈ put kept definition ↔ other ∈ kept ∨ definition.key ∉ kept.map Definition.key ∧ other = definition := by
  unfold put
  split_ifs with h
  · simp [h]
  · simp [h]

theorem put_keys (kept : List Definition) (definition : Definition) (hn : (kept.map Definition.key).Nodup) :
    ((put kept definition).map Definition.key).Nodup ∧
      ∀ key, key ∈ (put kept definition).map Definition.key ↔ key ∈ kept.map Definition.key ∨ key = definition.key := by
  unfold put
  split_ifs with h
  · exact ⟨hn, fun key => ⟨.inl, fun hk => hk.elim id fun he => he ▸ h⟩⟩
  · rw [List.map_append, List.map_singleton]
    refine ⟨?_, fun key => by rw [List.mem_append, List.mem_singleton]⟩
    rw [← List.concat_eq_append]
    exact hn.concat h

theorem foldl_put_keys (definitions : List Definition) (hn : (kept.map Definition.key).Nodup) :
    ((definitions.foldl put kept).map Definition.key).Nodup ∧
      ∀ key, key ∈ (definitions.foldl put kept).map Definition.key ↔
        key ∈ kept.map Definition.key ∨ key ∈ definitions.map Definition.key := by
  induction definitions generalizing kept with
  | nil => exact ⟨hn, fun key => by simp⟩
  | cons definition rest ih =>
    obtain ⟨hnodup, hkeys⟩ := put_keys kept definition hn
    obtain ⟨hall, hmem⟩ := ih hnodup
    refine ⟨hall, fun key => ?_⟩
    rw [List.foldl_cons, hmem, hkeys, List.map_cons, List.mem_cons, or_assoc]

/-- there are as many definitions as different keys -/
theorem length_foldl_put (definitions : List Definition) :
    (definitions.foldl put []).length = (definitions.map Definition.key).dedup.length := by
  have hnone : (([] : List Definition).map Definition.key).Nodup := List.nodup_nil
  obtain ⟨hnodup, hmem⟩ := foldl_put_keys definitions hnone
  rw [← List.length_map Definition.key]
  refine List.Perm.length_eq ((List.perm_ext_iff_of_nodup hnodup (List.nodup_dedup _)).2 fun key => ?_)
  rw [hmem, List.mem_dedup]
  simp

theorem foldl_put_of_nodup {definitions : List Definition} (h : ((kept ++ definitions).map Definition.key).Nodup) :
    definitions.foldl put kept = kept ++ definitions := by
  induction definitions generalizing kept with
  | nil => rw [List.foldl_nil, List.append_nil]
  | cons definition rest ih =>
    have hnew : definition.key ∉ kept.map Definition.key := by
      intro hm
      rw [List.map_append] at h
      exact List.disjoint_of_nodup_append h hm (List.mem_map_of_mem List.mem_cons_self)
    rw [List.foldl_cons, put, if_neg hnew, ih (by simpa using h)]
    simp

theorem mem_foldl_put_iff {definitions : List Definition} {definition : Definition} :
    definition ∈ definitions.foldl put [] ↔
      ∃ before after, definitions = before ++ definition :: after ∧ definition.key ∉ before.map Definition.key := by
  induction definitions using List.reverseRecOn with
  | nil => simp
  | append_singleton definitions last ih =>
    have hnone : (([] : List Definition).map Definition.key).Nodup := List.nodup_nil
    have hkey : last.key ∈ (definitions.foldl put []).map Definition.key ↔ last.key ∈ definitions.map Definition.key := by
      rw [(foldl_put_keys definitions hnone).2]
      simp
    rw [List.foldl_concat, mem_put, hkey, ih]
    constructor
    · rintro (⟨before, after, rfl, hfirst⟩ | ⟨hnew, rfl⟩)
      · exact ⟨before, after ++ [last], by simp, hfirst⟩
      · exact ⟨definitions, [], rfl, hnew⟩
    · rintro ⟨before, after, hsplit, hfirst⟩
      rcases List.eq_nil_or_concat after with rfl | ⟨init, final, rfl⟩
      · obtain ⟨rfl, hlast⟩ := List.append_inj' hsplit rfl
        cases hlast
        exact .inr ⟨hfirst, rfl⟩
      · rw [List.concat_eq_append, ← List.cons_append, ← List.append_assoc] at hsplit
        obtain ⟨rfl, -⟩ := List.append_inj' hsplit rfl
        exact .inl ⟨before, init, rfl, hfirst⟩

end Put

/-! ## Counting -/

/-- two ways to name the items of a list that tell the same items apart give as many different names -/
theorem length_dedup_map {α : Type} {items : List α} {first second : α → String}
    (h : ∀ a ∈ items, ∀ b ∈ items, first a = first b ↔ second a = second b) :
    (items.map first).dedup.length = (items.map second).dedup.length := by
  induction items with
  | nil => rfl
  | cons item rest ih =>
    have hrest := ih fun a ha b hb => h a (List.mem_cons_of_mem _ ha) b (List.mem_cons_of_mem _ hb)
    have hmem : first item ∈ rest.map first ↔ second item ∈ rest.map second := by
      simp only [List.mem_map]
      refine exists_congr fun a => and_congr_right fun ha => ?_
      exact h a (List.mem_cons_of_mem _ ha) item List.mem_cons_self
    rw [List.map_cons, List.map_cons]
    by_cases hin : first item ∈ rest.map first
    · rw [List.dedup_cons_of_mem hin, List.dedup_cons_of_mem (hmem.1 hin), hrest]
    · rw [List.dedup_cons_of_notMem hin, List.dedup_cons_of_notMem (mt hmem.2 hin), List.length_cons, List.length_cons,
        hrest]

theorem nodup_iff_length_dedup {names : List String} : names.Nodup ↔ names.dedup.length = names.length := by
  constructor
  · intro h
    rw [List.dedup_eq_self.2 h]
  · intro h
    exact List.dedup_eq_self.1 ((List.dedup_sublist names).eq_of_length h)

/-! ## Whole programs -/

theorem mem_generatedProcedures {events : List Event} {user : String} {texts : List String}
    (h : (user, texts) ∈ generatedProcedures events) : ∃ bare text, .code (.procedure user) bare texts text ∈ events := by
  obtain ⟨event, hm, hp⟩ := List.mem_filterMap.1 h
  cases event with
  | code form bare used text =>
    obtain ⟨title, htitle, hpair⟩ := Option.map_eq_some_iff.1 hp
    cases form <;> cases htitle
    cases hpair
    exact ⟨bare, text, hm⟩
  | _ => cases hp

/-- two procedures of a run have one name just when they have one title -/
theorem generatedProcedures_name_eq_iff {language : Language} {blocks : List Block} {user other : String}
    {texts others : List String} (h : (user, texts) ∈ generatedProcedures (programChronicle language blocks))
    (ho : (other, others) ∈ generatedProcedures (programChronicle language blocks)) :
    Piece.textAt texts 0 = Piece.textAt others 0 ↔ user = other := by
  obtain ⟨record, horderly, -⟩ := programRun_keeps (fun _ _ => True) language blocks trivial fun _ _ _ => trivial
  have hname : ∀ {user texts}, (user, texts) ∈ generatedProcedures (programChronicle language blocks) →
      (.bind .procedure user, Piece.textAt texts 0) ∈ record := by
    intro user texts hm
    obtain ⟨bare, text, hcode⟩ := mem_generatedProcedures hm
    have hstep : ((language.template (.procedure user)).steps.filter Step.leavesText)[0]? =
        some (.userProcedure user) := by cases language <;> rfl
    exact horderly.account _ _ _ (Piece.rel_textAt_of_getElem? (programChronicle_laid hcode).2 hstep)
  constructor
  · intro hsame
    have hboth := hname ho
    rw [← hsame] at hboth
    cases horderly.settled.books.eq_bind (hname h) hboth
    rfl
  · rintro rfl
    exact horderly.settled.books.bound_unique (hname h) (hname ho)

theorem functionOf_key_eq_iff {texts others : List String} :
    (functionOf texts).key = (functionOf others).key ↔ Piece.textAt texts 0 = Piece.textAt others 0 := by
  simp [functionOf]

section Program

variable {blocks : List Block}

/-- the functions that the procedures of a run in Dart become, each its own -/
def ownFunctions (blocks : List Block) : List Definition :=
  (generatedProcedures (programChronicle .dart blocks)).map fun procedure => functionOf procedure.2

theorem programRun_tracks {language : Language} {body : String} {pass : Pass}
    (h : programRun language blocks = (.ok body, pass)) :
    ((generatedProcedures (programChronicle language blocks)).map Prod.fst).Perm (Block.procedures blocks) ∧
      pass.registry.functions =
        (generatedProcedures (programChronicle language blocks)).foldl language.hoist [] := by
  have htracks := Block.tracks_chainsCode h
  exact ⟨htracks.procedures, htracks.functions⟩

/-- **The functions of a program in Dart** are those of its procedures, the first of each name. -/
theorem programRun_functions {body : String} {pass : Pass} (h : programRun .dart blocks = (.ok body, pass)) :
    pass.registry.functions = (ownFunctions blocks).foldl put [] := by
  rw [(programRun_tracks h).2, ownFunctions, List.foldl_map]
  rfl

theorem programRun_functions_eq_nil {language : Language} (hl : language ≠ .dart) {body : String} {pass : Pass}
    (h : programRun language blocks = (.ok body, pass)) : pass.registry.functions = [] := by
  rw [(programRun_tracks h).2]
  refine List.foldl_fixed' (fun procedure => ?_) _
  cases language with
  | dart => exact absurd rfl hl
  | _ => rfl

theorem ownFunctions_dedup {body : String} {pass : Pass} (h : programRun .dart blocks = (.ok body, pass)) :
    ((ownFunctions blocks).map Definition.key).dedup.length = (Block.procedures blocks).dedup.length := by
  have htitles : (Block.procedures blocks).dedup.length =
      ((generatedProcedures (programChronicle .dart blocks)).map Prod.fst).dedup.length :=
    (programRun_tracks h).1.symm.dedup.length_eq
  rw [htitles, ownFunctions, List.map_map]
  refine length_dedup_map fun procedure hp other ho => ?_
  exact functionOf_key_eq_iff.trans (generatedProcedures_name_eq_iff hp ho)

/-- **What becomes of procedures in Dart.** There is a function for each title and no more, so none is lost just when no
title occurs twice; then each procedure has its own. Otherwise the function of a title is that of the procedure
generated first. -/
theorem programRun_functions_length {body : String} {pass : Pass} (h : programRun .dart blocks = (.ok body, pass)) :
    (ownFunctions blocks).length = (Block.procedures blocks).length ∧
      pass.registry.functions.length = (Block.procedures blocks).dedup.length ∧
      ((Block.procedures blocks).Nodup → pass.registry.functions = ownFunctions blocks) := by
  have hlength : (ownFunctions blocks).length = (Block.procedures blocks).length := by
    rw [ownFunctions, List.length_map, ← List.length_map Prod.fst]
    exact (programRun_tracks h).1.length_eq
  have hdedup := ownFunctions_dedup h
  rw [programRun_functions h]
  refine ⟨hlength, (length_foldl_put _).trans hdedup, fun hn => ?_⟩
  refine foldl_put_of_nodup (nodup_iff_length_dedup.2 ?_)
  rw [List.nil_append, hdedup, List.length_map, hlength]
  exact nodup_iff_length_dedup.1 hn

end Program

end Blockwork
