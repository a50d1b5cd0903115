/-
Generating a block again. The names and definitions that a block asks for are looked up before they are made, so a block
that has been generated once finds all of them from then on; only the end of a text takes a fresh name at every visit.

- `Block.constructs`: the constructs of a block that are visited when its code, or the chain below it, is generated.
- `Pass.Extends`: a later state of a run. What was hoisted or bound before is still there, and still the same.
- `Gen.Settles`: once an action has succeeded, it gives the same result in every later state, and changes nothing there.
- `Block.settles_emission`: every block settles that visits no end of a text.
- `generating_again_changes_nothing`: the main statement, with what it means for helpers.
-/
import Blockwork.Proofs.Declared
import Blockwork.Proofs.Operands

namespace Blockwork

/-! ## Visited constructs -/

/-- the constructs visited for a block alone, and for the chain that starts with it -/
structure Constructs where
  own : List Form
  chain : List Form

/-- the constructs that a visit leads to, given those of each slot -/
def Visit.constructs (values statements : List (Nat × Constructs)) : Visit → List Form
  | value slot => ((Slots.get? slot values).map Constructs.own).getD []
  | statement slot => ((Slots.get? slot statements).map Constructs.chain).getD []
  | name _ _ => []

/-- the construct of a block with this data, and those that it visits; none if the data stands for none -/
def Head.constructs (head : Head) (values statements : List (Nat × Constructs)) : List Form :=
  match head.form with
  | .ok form => form :: form.visits.flatMap (Visit.constructs values statements)
  | .error _ => []

namespace Block

mutual

/-- the constructs visited in a block and below it -/
def constructs : Block → Constructs
  | mk head values statements next =>
    let own := head.constructs (slotConstructs values) (slotConstructs statements)
    { own, chain := own ++ nextConstructs next }

def slotConstructs : List (Nat × Block) → List (Nat × Constructs)
  | [] => []
  | (slot, block) :: rest => (slot, constructs block) :: slotConstructs rest

def nextConstructs : Option Block → List Form
  | none => []
  | some block => (constructs block).chain

end

theorem get?_slotConstructs (slot : Nat) (entries : List (Nat × Block)) :
    Slots.get? slot (slotConstructs entries) = (Slots.get? slot entries).map constructs := by
  rw [← Slots.get?_map]
  congr 1
  induction entries with
  | nil => rfl
  | cons entry rest ih => simp [slotConstructs, ih]

end Block

/-! ## Later states -/

/-- a state that a run may reach from another: nothing that was hoisted or bound is lost or changed -/
structure Pass.Extends (pass later : Pass) : Prop where
  language : later.language = pass.language
  entries : pass.registry.entries <+: later.registry.entries
  bound : ∀ role user name, pass.names.binding? role user = some name → later.names.binding? role user = some name

namespace Registry

theorem find?_of_prefix {registry later : Registry} (h : registry.entries <+: later.entries) {key : String}
    {definition : Definition} (hf : registry.find? key = some definition) : later.find? key = some definition := by
  obtain ⟨more, hmore⟩ := h
  rw [find?_eq, ← hmore, List.find?_append, ← find?_eq, hf]
  rfl

theorem request_of_contains {registry : Registry} {key : String} (h : registry.contains key) (name : Option String)
    (source : String) : (registry.request key fun _ => (name, source)).2 = registry := by
  obtain ⟨definition, hf⟩ := Option.isSome_iff_exists.1 (registry.contains_eq key ▸ h)
  rw [request_of_some hf]

theorem find?_request_of_none {registry : Registry} {key : String} (h : registry.find? key = none)
    (name : Option String) (source : String) :
    (registry.request key fun _ => (name, source)).2.find? key = some ⟨key, name, source⟩ := by
  have hcontains : ¬ registry.contains key := by simp [contains_eq, h]
  rw [find?_eq, entries_request, if_neg hcontains, List.find?_append, ← find?_eq, h]
  simp

theorem nodup_keys_request {registry : Registry} (h : registry.keys.Nodup) (key : String) (name : Option String)
    (source : String) : (registry.request key fun _ => (name, source)).2.keys.Nodup := by
  rw [keys, entries_request]
  split_ifs with hc
  · exact h
  · rw [List.map_append, List.map_singleton, ← List.concat_eq_append]
    refine h.concat fun hm => hc ?_
    obtain ⟨definition, hd, hk⟩ := List.mem_map.1 hm
    exact (contains_iff _ _).2 ⟨definition, hd, hk⟩

theorem filter_key_eq_singleton {registry : Registry} (h : registry.keys.Nodup) {definition : Definition}
    (hm : definition ∈ registry.entries) :
    registry.entries.filter (·.key = definition.key) = [definition] := by
  obtain ⟨before, after, hsplit⟩ := List.append_of_mem hm
  rw [keys, hsplit, List.map_append, List.map_cons, List.nodup_middle, List.nodup_cons, ← List.map_append] at h
  have hothers : ∀ other ∈ before ++ after, other.key ≠ definition.key := fun other ho he =>
    h.1 (he ▸ List.mem_map_of_mem ho)
  have hbefore : before.filter (·.key = definition.key) = [] :=
    List.filter_eq_nil_iff.2 fun other ho => by simpa using hothers other (List.mem_append_left _ ho)
  have hafter : after.filter (·.key = definition.key) = [] :=
    List.filter_eq_nil_iff.2 fun other ho => by simpa using hothers other (List.mem_append_right _ ho)
  rw [hsplit, List.filter_append, List.filter_cons_of_pos (by simp), hbefore, hafter, List.nil_append]

end Registry

theorem Names.binding?_bind_of_some (names : Names) (role : Role) (user : String) {other : Role} {key name : String}
    (h : names.binding? other key = some name) : (names.bind role user).2.binding? other key = some name := by
  unfold bind
  cases hb : names.binding? role user with
  | some _ => exact h
  | none =>
    have hne : (other, key) ≠ (role, user) := by
      rintro ⟨⟩
      rw [h] at hb
      cases hb
    have hbeq : ((other, key) == (role, user)) = false := beq_eq_false_iff_ne.2 hne
    change (((role, user), _) :: names.bound).lookup (other, key) = some name
    rw [List.lookup_cons, hbeq]
    exact h

namespace Pass.Extends

variable {pass mid later : Pass}

theorem refl (pass : Pass) : pass.Extends pass :=
  ⟨rfl, List.prefix_rfl, fun _ _ _ h => h⟩

theorem trans (h : pass.Extends mid) (h' : mid.Extends later) : pass.Extends later :=
  ⟨h'.language.trans h.language, h.entries.trans h'.entries,
    fun role user name hb => h'.bound role user name (h.bound role user name hb)⟩

theorem bind (pass : Pass) (role : Role) (user : String) :
    pass.Extends { pass with names := (pass.names.bind role user).2 } :=
  ⟨rfl, List.prefix_rfl, fun _ _ _ h => pass.names.binding?_bind_of_some role user h⟩

theorem distinct (pass : Pass) (base : String) : pass.Extends { pass with names := (pass.names.distinct base).2 } :=
  ⟨rfl, List.prefix_rfl, fun _ _ _ h => h⟩

theorem define (pass : Pass) (key : String) (name : Option String) (source : String) :
    pass.Extends { pass with registry := (pass.registry.request key fun _ => (name, source)).2 } :=
  ⟨rfl, Registry.entries_prefix_request _ _ _ _, fun _ _ _ h => h⟩

/-- every change that a step can make leads to a later state -/
theorem invariant (pass : Pass) : Pass.Invariant (fun _ => True) pass.Extends where
  bind mid role user h := h.trans (bind mid role user)
  distinct mid base _ h := h.trans (distinct mid base)
  define mid key name source h := h.trans (define mid key name source)

end Pass.Extends

/-- the states that generating further blocks, or chains of them, can make of a state, whether they succeed or not -/
inductive Pass.Later (language : Language) (pass : Pass) : Pass → Prop
  | refl : Later language pass pass
  | code {mid : Pass} (block : Block) (bare : Bool) : Later language pass mid →
      Later language pass (mid.perform (block.code (.standard language) bare)).2
  | chain {mid : Pass} (block : Block) : Later language pass mid →
      Later language pass (mid.perform (block.chainCode (.standard language))).2

theorem Language.issuesFrom_any (language : Language) : language.IssuesFrom fun _ => True :=
  fun _ _ _ _ _ => trivial

theorem Pass.Later.extends {language : Language} {pass later : Pass} (h : pass.Later language later) :
    pass.Extends later := by
  induction h with
  | refl => exact .refl pass
  | code block bare _ ih => exact (block.emission_keeps (Extends.invariant pass) language.issuesFrom_any).code bare _ ih
  | chain block _ ih => exact (block.emission_keeps (Extends.invariant pass) language.issuesFrom_any).chain _ ih

theorem Pass.invariant_nodup_keys : Pass.Invariant (fun _ => True) fun pass => pass.registry.keys.Nodup where
  bind _ _ _ h := h
  distinct _ _ _ h := h
  define _ key name source h := Registry.nodup_keys_request h key name source

/-- no key is hoisted twice, however a run is led -/
theorem Pass.Reachable.nodup_keys {language : Language} {pass : Pass} (h : pass.Reachable language) :
    pass.registry.keys.Nodup := by
  have hi := Pass.invariant_nodup_keys
  induction h with
  | start => exact List.nodup_nil
  | nameOf role user _ ih => exact hi.bind _ role user ih
  | freshName base _ ih => exact hi.distinct _ base trivial ih
  | require key source _ ih => exact hi.define _ key none source ih
  | provide key base source _ ih => exact Gen.keeps_provide hi key base source trivial _ ih
  | declareTemporary base _ ih => exact Gen.keeps_declareTemporary hi base trivial _ ih
  | code block bare _ ih => exact (block.emission_keeps hi language.issuesFrom_any).code bare _ ih
  | chain block _ ih => exact (block.emission_keeps hi language.issuesFrom_any).chain _ ih

/-! ## Actions that settle -/

/-- once the action has succeeded, it gives the same result in every later state and changes nothing there -/
def Gen.Settles {α : Type} (action : Gen α) : Prop :=
  ∀ (pass : Pass) (a : α) (after : Pass), pass.perform action = (.ok a, after) →
    pass.Extends after ∧ ∀ later, after.Extends later → later.perform action = (.ok a, later)

namespace Gen

variable {α β : Type}

theorem settles_pure (a : α) : Settles (pure a : Gen α) := by
  rintro pass _ _ ⟨⟩
  exact ⟨.refl _, fun _ _ => rfl⟩

theorem settles_bind {first : Gen α} {second : α → Gen β} (h1 : Settles first) (h2 : ∀ a, Settles (second a)) :
    Settles (first >>= second) := by
  intro pass b after hr
  rw [Pass.perform_bind] at hr
  rcases hf : pass.perform first with ⟨cause | a, mid⟩
  · rw [hf] at hr
    cases hr
  · rw [hf] at hr
    obtain ⟨hmid, hfirst⟩ := h1 pass a mid hf
    obtain ⟨hafter, hsecond⟩ := h2 a mid b after hr
    refine ⟨hmid.trans hafter, fun later hlater => ?_⟩
    rw [Pass.perform_bind, hfirst later (hafter.trans hlater)]
    exact hsecond later hlater

theorem settles_ofExcept (outcome : Except (Stop GenError) α) : Settles (ofExcept outcome) := by
  intro pass a after hr
  rw [Pass.perform_ofExcept] at hr
  cases hr
  exact ⟨.refl _, fun later _ => later.perform_ofExcept _⟩

theorem settles_within (limit n : Nat) : Settles (within limit n) := by
  intro pass a after hr
  rw [Pass.perform_within] at hr
  obtain ⟨hn, rfl⟩ := Prod.mk.inj hr
  exact ⟨.refl _, fun later _ => by rw [Pass.perform_within, hn]⟩

/-- of the state only the language may be read, which never changes -/
theorem settles_language (f : Language → α) : Settles (get >>= fun pass => pure (f pass.language) : Gen α) := by
  rintro pass _ _ ⟨⟩
  refine ⟨.refl _, fun later hlater => ?_⟩
  rw [Pass.perform_bind, Pass.perform_get, ← hlater.language]
  rfl

theorem settles_nameOf (role : Role) (user : String) : Settles (nameOf role user) := by
  intro pass name after hr
  rw [Pass.perform_nameOf] at hr
  obtain ⟨hname, rfl⟩ := Prod.mk.inj hr
  obtain rfl := Except.ok.inj hname
  refine ⟨.bind pass role user, fun later hlater => ?_⟩
  have hb := hlater.bound role user _ (pass.names.binding?_bind role user)
  have hbind : later.names.bind role user = ((pass.names.bind role user).1, later.names) := by
    rw [Names.bind, hb]
  rw [Pass.perform_nameOf, hbind]

theorem settles_define (key : String) (name : Option String) (source : String) : Settles (define key name source) := by
  rintro pass _ _ ⟨⟩
  refine ⟨.define pass key name source, fun later hlater => ?_⟩
  have hc := Registry.contains_of_prefix hlater.entries (Registry.contains_request pass.registry key name source)
  rw [Pass.perform_define, Registry.request_of_contains hc]

theorem perform_provide_of_some {pass : Pass} {key : String} {definition : Definition}
    (h : pass.registry.find? key = some definition) (base : String) (source : String → String) :
    pass.perform (provide key base source) = (.ok (definition.name.getD ""), pass) := by
  simp only [provide, Pass.perform_bind, Pass.perform_get, h, Pass.perform_pure]

/-- a helper is made at the first request, and found at all others -/
theorem settles_provide (key base : String) (source : String → String) : Settles (provide key base source) := by
  intro pass name after hr
  cases hf : pass.registry.find? key with
  | some definition =>
    rw [perform_provide_of_some hf] at hr
    cases hr
    exact ⟨.refl _, fun later hlater =>
      perform_provide_of_some (Registry.find?_of_prefix hlater.entries hf) base source⟩
  | none =>
    simp only [provide, Pass.perform_bind, Pass.perform_get, hf, Pass.perform_freshName, Pass.perform_define] at hr
    cases hr
    refine ⟨(Pass.Extends.distinct pass base).trans (.define _ key _ _), fun later hlater => ?_⟩
    have hmade := Registry.find?_request_of_none hf (some (pass.names.distinct base).1)
      (source (pass.names.distinct base).1)
    exact perform_provide_of_some (Registry.find?_of_prefix hlater.entries hmade) base source

end Gen

open Gen

/-! ## Steps and templates -/

/-- what a visit leads to settles -/
def Site.Settles (site : Site) : Visit → Prop
  | .value slot => ∀ child, Slots.get? slot site.values = some child → ∀ bare, Gen.Settles (child.code bare)
  | .statement slot => ∀ child, Slots.get? slot site.statements = some child → Gen.Settles child.chain
  | .name _ _ => True

section

variable {site : Site}

theorem Site.Settles.value? {slot : Nat} (h : site.Settles (.value slot)) (bare : Bool) :
    Gen.Settles (site.value? slot bare) := by
  unfold Site.value?
  split
  · exact settles_pure _
  next child hc => exact settles_bind (h child hc bare) fun _ => settles_pure _

theorem Site.Settles.statement? {slot : Nat} (h : site.Settles (.statement slot)) :
    Gen.Settles (site.statement? slot) := by
  refine settles_bind (settles_within _ _) fun _ => ?_
  split
  · exact settles_pure _
  next child hc => exact settles_bind (h child hc) fun _ => settles_pure _

theorem Site.Settles.branch {slot : Nat} (h : site.Settles (.statement slot)) : Gen.Settles (site.branch slot) := by
  refine settles_bind h.statement? fun code => ?_
  split
  · exact settles_pure _
  · exact settles_language fun language => Text.indentation ++ language.noop ++ "\n"

/-- **One step** settles unless it takes a fresh name. -/
theorem Step.settles_run {step : Step} (hs : step.isTemporary = false)
    (hv : ∀ visit ∈ step.visits, site.Settles visit) (texts : List String) : Gen.Settles (step.run site texts) := by
  cases step with
  | value slot bare absent =>
    have hslot := hv (.value slot) List.mem_cons_self
    exact settles_bind (settles_bind (hslot.value? bare) fun _ => settles_pure _) fun _ => settles_pure _
  | branch slot =>
    have hslot := hv (.statement slot) List.mem_cons_self
    exact settles_bind hslot.branch fun _ => settles_pure _
  | body slot =>
    have hslot := hv (.statement slot) List.mem_cons_self
    exact settles_bind hslot.statement? fun _ => settles_pure _
  | userVariable user => exact settles_bind (settles_nameOf _ _) fun _ => settles_pure _
  | userProcedure user => exact settles_bind (settles_nameOf _ _) fun _ => settles_pure _
  | fresh base => cases hs
  | temporary base => cases hs
  | helper helper => exact settles_bind (settles_provide _ _ _) fun _ => settles_pure _
  | require library => exact settles_bind (settles_define _ _ _) fun _ => settles_pure _
  | hoist key name source => exact settles_bind (settles_define _ _ _) fun _ => settles_pure _

/-- **All steps in a row.** -/
theorem Step.settles_runAll {steps : List Step} (hs : ∀ step ∈ steps, step.isTemporary = false)
    (hv : ∀ visit ∈ steps.flatMap Step.visits, site.Settles visit) (texts : List String) :
    Gen.Settles (Step.runAll site texts steps) := by
  induction steps generalizing texts with
  | nil => exact settles_pure _
  | cons step rest ih =>
    obtain ⟨hstep, hrest⟩ := List.forall_mem_cons.1 hs
    obtain ⟨hvisits, hothers⟩ := List.forall_mem_append.1 hv
    exact settles_bind (Step.settles_run hstep hvisits texts) fun texts => ih hrest hothers texts

theorem Language.steps_of_not_last (language : Language) {form : Form} (h : form ≠ .endString .last) :
    (language.template form).steps.any Step.isTemporary = false := by
  suffices hall : (language.template form).steps.all fun step => !step.isTemporary by
    simpa [List.any_eq_false] using hall
  cases form using Form.byData with
  | plain form hm =>
    have hplain : ∀ form ∈ Form.plain, form ≠ .endString .last →
        (language.template form).steps.all fun step => !step.isTemporary := by
      cases language <;> decide +kernel
    exact hplain form hm h
  | list items => exact list_steps_all (fun _ => rfl) items
  | choice elseifs otherwise => exact choice_steps_all (fun _ => rfl) (fun _ => rfl) elseifs otherwise
  | onList op => cases language <;> cases op <;> rfl
  | changeCase style => cases language <;> cases style <;> rfl
  | _ => cases language <;> rfl

end

theorem Head.settles_link {head : Head} {code : Bool → Gen String} (h : Gen.Settles (code true)) :
    Gen.Settles (head.link code) := by
  refine settles_bind (settles_ofExcept _) fun kind => settles_bind h fun text => ?_
  split
  · exact settles_pure _
  · exact settles_language fun language => language.expressionStatement text

namespace Block

/-- what is visited in a slot is visited in the block -/
theorem settles_visit {language : Language} {values statements : List (Nat × Block)} {visit : Visit}
    (hv : ∀ entry ∈ values, .endString .last ∉ entry.2.constructs.own →
      ∀ bare, Gen.Settles (entry.2.code (.standard language) bare))
    (hs : ∀ entry ∈ statements, .endString .last ∉ entry.2.constructs.chain →
      Gen.Settles (entry.2.chainCode (.standard language)))
    (h : .endString .last ∉ visit.constructs (slotConstructs values) (slotConstructs statements)) :
    Site.Settles ⟨emissions (.standard language) values, emissions (.standard language) statements⟩ visit := by
  cases visit with
  | value slot =>
    intro child hc
    obtain ⟨block, hblock, rfl⟩ := exists_of_get?_emissions hc
    obtain ⟨entry, he, rfl⟩ := Slots.mem_of_get? hblock
    rw [Visit.constructs, get?_slotConstructs, hblock] at h
    exact hv entry he h
  | statement slot =>
    intro child hc
    obtain ⟨block, hblock, rfl⟩ := exists_of_get?_emissions hc
    obtain ⟨entry, he, rfl⟩ := Slots.mem_of_get? hblock
    rw [Visit.constructs, get?_slotConstructs, hblock] at h
    exact hs entry he h
  | name role user => trivial

/-- **A block settles** if nothing visited in it takes the end of a text, and so does the chain below it. -/
theorem settles_emission (language : Language) (block : Block) :
    (.endString .last ∉ block.constructs.own → ∀ bare, Gen.Settles (block.code (.standard language) bare)) ∧
      (.endString .last ∉ block.constructs.chain → Gen.Settles (block.chainCode (.standard language))) := by
  induction block with
  | mk head values statements next hv hs hn =>
    have hcode : .endString .last ∉ head.constructs (slotConstructs values) (slotConstructs statements) →
        ∀ bare, Gen.Settles ((mk head values statements next).code (.standard language) bare) := by
      intro h bare pass code after hr
      simp only [perform_code] at hr ⊢
      cases hf : head.form with
      | error cause =>
        rw [hf] at hr
        cases hr
      | ok form =>
        rw [hf] at hr
        simp only [Head.constructs, hf, List.mem_cons, not_or] at h
        obtain ⟨hform, hvisits⟩ := h
        have hsteps : ∀ step ∈ (language.template form).steps, step.isTemporary = false := fun step hm => by
          simpa using List.any_eq_false.1 (language.steps_of_not_last (Ne.symm hform)) step hm
        have hsite : ∀ visit ∈ (language.template form).steps.flatMap Step.visits,
            Site.Settles ⟨emissions (.standard language) values, emissions (.standard language) statements⟩ visit := by
          rw [steps_visits]
          intro visit hm
          exact settles_visit (fun entry he => (hv entry he).1) (fun entry he => (hs entry he).2)
            fun hl => hvisits (List.mem_flatMap.2 ⟨visit, hm, hl⟩)
        have hall := Step.settles_runAll hsteps hsite []
        exact settles_bind hall (fun _ => settles_pure _) pass code after hr
    refine ⟨hcode, fun h => ?_⟩
    obtain ⟨hown, hbelow⟩ := not_or.1 (fun hm => h (List.mem_append.2 hm))
    refine settles_bind (Head.settles_link (hcode hown true)) fun own => settles_bind ?_ fun _ => settles_pure _
    cases next with
    | none => exact settles_pure _
    | some below => exact (hn below rfl).2 hbelow

end Block

/-! ## Runs -/

/-- every call of a helper in a program has the name under which the helper is hoisted, once -/
theorem helper_hoisted_once {language : Language} {blocks : List Block} {form : Form} {helper : Helper} {name : String}
    (h : .left form (.helper helper) name ∈ programChronicle language blocks) :
    ∃ definition, definition.name = some name ∧
      (programRun language blocks).2.registry.entries.filter (·.key = helper.key) = [definition] := by
  obtain ⟨record, horderly, -⟩ := programRun_keeps (fun _ _ => True) language blocks trivial fun _ _ _ => trivial
  have hnodup : (programRun language blocks).2.registry.keys.Nodup :=
    Block.keeps_chainsCode Pass.invariant_nodup_keys language.issuesFrom_any blocks (.start language) List.nodup_nil
  obtain ⟨-, definition, hm, hkey, hname⟩ := horderly.account _ _ _ h
  exact ⟨definition, hname, hkey ▸ Registry.filter_key_eq_singleton hnodup hm⟩

/-- **Generating a block again changes nothing.** If no construct visited in a block takes the end of a text, then once
its code has been generated, from any state, it is generated again from the state after it, and from all that
generating further blocks makes of that state, with the same code and without any change to the state. So a helper that
has been asked for is found under the same name from then on; in every state that a run reaches no key is hoisted twice,
and all calls of a helper in a program have the name of its one definition. -/
theorem generating_again_changes_nothing (language : Language) :
    (∀ (pass after : Pass) (block : Block) (bare : Bool) (code : String), .endString .last ∉ block.constructs.own →
      pass.perform (block.code (.standard language) bare) = (.ok code, after) → ∀ later, after.Later language later →
        later.perform (block.code (.standard language) bare) = (.ok code, later)) ∧
    (∀ (pass after : Pass) (helper : Helper) (name : String),
      pass.perform (Gen.provide helper.key helper.key helper.source) = (.ok name, after) → ∀ later,
        after.Later language later →
          later.perform (Gen.provide helper.key helper.key helper.source) = (.ok name, later)) ∧
    (∀ pass : Pass, pass.Reachable language → pass.registry.keys.Nodup) ∧
    ∀ (blocks : List Block) (form : Form) (helper : Helper) (name : String),
      .left form (.helper helper) name ∈ programChronicle language blocks →
        ∃ definition, definition.name = some name ∧
          (programRun language blocks).2.registry.entries.filter (·.key = helper.key) = [definition] := by
  refine ⟨fun pass after block bare code hvisited hr later hlater => ?_,
    fun pass after helper name hr later hlater => ?_, fun _ h => h.nodup_keys, fun _ _ _ _ h => helper_hoisted_once h⟩
  · exact ((block.settles_emission language).1 hvisited bare pass code after hr).2 later hlater.extends
  · exact (Gen.settles_provide _ _ _ pass name after hr).2 later hlater.extends

def meanProcedure : Block :=
  .mk { Head.bare Kind.procedureResult.name with titles := [(0, "f")] }
    [(0, .mk { Head.bare Kind.onList.name with titles := [(0, "AVERAGE")] } [(0, .variableGet "xs")] [] none)] [] none

/-- hoisting it brings the helper, and a variable that wants the name of the helper is given another -/
theorem meanProcedure_generated_again :
    let after := ((Pass.start .dart).perform (meanProcedure.code (.standard .dart) true)).2
    let later := (after.perform ((Block.variableGet "math_mean").code (.standard .dart) true)).2
    after.registry.keys = ["math_mean", "procedure_f"] ∧ later.names.variableNames = ["xs", "math_mean2"] ∧
      later.perform (meanProcedure.code (.standard .dart) true) = (.ok "", later) ∧
      later.perform (Gen.provide Target.Dart.mean.key Target.Dart.mean.key Target.Dart.mean.source) =
        (.ok "math_mean", later) ∧
      later.registry.keys.Nodup ∧
      ∃ definition, definition.name = some "math_mean" ∧
        (programRun .dart [meanProcedure]).2.registry.entries.filter (·.key = "math_mean") = [definition] := by
  intro after later
  obtain ⟨hagain, hhelper, hnodup, honce⟩ := generating_again_changes_nothing .dart
  have hrun : (Pass.start .dart).perform (meanProcedure.code (.standard .dart) true) = (.ok "", after) :=
    Prod.ext (by decide +kernel) rfl
  have hlater : after.Later .dart later := .code _ true .refl
  have hfound : after.perform (Gen.provide Target.Dart.mean.key Target.Dart.mean.key Target.Dart.mean.source) =
      (.ok "math_mean", after) := by decide +kernel
  exact ⟨by decide +kernel, by decide +kernel, hagain _ _ _ _ _ (by decide +kernel) hrun later hlater,
    hhelper _ _ _ _ hfound later hlater, hnodup later (.code _ true (.code _ true .start)),
    honce _ (.onList .average) Target.Dart.mean _ (by decide +kernel)⟩

end Blockwork
