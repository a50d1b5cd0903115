/-
Brackets around operands. A block is generated for a place that needs brackets around an operator, or for a bare
one.

- `Template.render_false`: the two codes of a template are the same, or the one for a place that needs brackets is
  the other in brackets; and since the steps do not know of the place, nothing else differs.
- `Gen.Yields`: what an action yields from any state with a property, and that it keeps the property. `Gen.Makes`: the
  same for the property that all names are identifiers.
- `Block.makes_code`: a block of a value kind, with value kinds in all value slots that are visited, gives balanced
  code, and atomic code where brackets were asked for.
- `Pass.Reachable`: what the operations of a run can make of its state; all names in such a state are identifiers.
- `operands_keep_together`: the main statement.
-/
import Blockwork.Proofs.Outside
import Blockwork.Proofs.Survey

namespace Blockwork

/-! ## Two places -/

/-- the place decides about brackets around the whole, and about nothing else -/
theorem Template.render_false (template : Template) (texts : List String) :
    template.render texts false = template.render texts true ∨
      template.render texts false = bracketed (template.render texts true) := by
  unfold render Layout.render
  simp only
  split_ifs
  · exact .inr rfl
  · exact .inl rfl

/-- two runs from one state: both fail alike, or both succeed with codes that differ in brackets around the whole at
most; and the states after them are the same -/
def Pass.DropsBrackets (pass : Pass) (code : Bool → Gen String) : Prop :=
  (∃ cause after, pass.perform (code true) = (.error cause, after) ∧
    pass.perform (code false) = (.error cause, after)) ∨
  ∃ bare guarded after, pass.perform (code true) = (.ok bare, after) ∧
    pass.perform (code false) = (.ok guarded, after) ∧ (guarded = bare ∨ guarded = bracketed bare)

theorem Template.dropsBrackets_run (template : Template) (site : Site) (pass : Pass) :
    pass.DropsBrackets (template.run site) := by
  unfold Pass.DropsBrackets Template.run
  rw [Pass.perform_bind, Pass.perform_bind]
  rcases pass.perform (Step.runAll site [] template.steps) with ⟨cause | texts, after⟩
  · exact .inl ⟨cause, after, rfl, rfl⟩
  · exact .inr ⟨_, _, after, rfl, rfl, template.render_false texts⟩

theorem Block.dropsBrackets_code (language : Language) (pass : Pass) (block : Block) :
    pass.DropsBrackets (block.code (.standard language)) := by
  obtain ⟨head, values, statements, next⟩ := block
  unfold Pass.DropsBrackets
  rw [perform_code, perform_code]
  cases head.form with
  | error cause => exact .inl ⟨cause, pass, rfl, rfl⟩
  | ok form => exact Template.dropsBrackets_run _ _ pass

/-! ## Actions with an invariant -/

/-- an action that, from a state with a property, keeps the property and yields only what `post` says -/
def Gen.Yields {α : Type} (inv : Pass → Prop) (action : Gen α) (post : α → Prop) : Prop :=
  ∀ pass : Pass, inv pass → inv (pass.perform action).2 ∧ ∀ a, (pass.perform action).1 = .ok a → post a

namespace Gen

variable {α β : Type} {inv : Pass → Prop} {post wider : α → Prop} {behind : β → Prop}

theorem yields_pure {a : α} (h : post a) : Yields inv (pure a) post := by
  refine fun pass hp => ⟨hp, ?_⟩
  rintro _ ⟨⟩
  exact h

theorem Yields.bind {first : Gen α} {second : α → Gen β} (h : Yields inv first post)
    (hs : ∀ a, post a → Yields inv (second a) behind) : Yields inv (first >>= second) behind := by
  intro pass hp
  obtain ⟨hafter, hpost⟩ := h pass hp
  rw [Pass.perform_bind]
  rcases hr : pass.perform first with ⟨cause | a, after⟩
  · rw [hr] at hafter
    exact ⟨hafter, fun _ h => nomatch h⟩
  · rw [hr] at hafter hpost
    exact hs a (hpost a rfl) after hafter

theorem Yields.imp {action : Gen α} (h : Yields inv action post) (hw : ∀ a, post a → wider a) :
    Yields inv action wider := by
  intro pass hp
  obtain ⟨hafter, hpost⟩ := h pass hp
  exact ⟨hafter, fun a ha => hw a (hpost a ha)⟩

theorem yields_any (action : Gen α) : Yields (fun _ => True) action fun _ => True :=
  fun _ _ => ⟨trivial, fun _ _ => trivial⟩

theorem yields_get : Yields inv (get : Gen Pass) inv := by
  refine fun pass hp => ⟨hp, ?_⟩
  rintro _ ⟨⟩
  exact hp

theorem yields_ofExcept (outcome : Except (Stop GenError) α) :
    Yields inv (ofExcept outcome) fun a => outcome = .ok a := by
  intro pass hp
  rw [Pass.perform_ofExcept]
  exact ⟨hp, fun _ h => h⟩

theorem yields_within (limit n : Nat) : Yields inv (within limit n) fun _ => n < limit := by
  intro pass hp
  rw [Pass.perform_within]
  refine ⟨hp, fun _ h => ?_⟩
  by_contra hn
  rw [if_neg hn] at h
  cases h

end Gen

/-! ## What slots give and steps leave -/

section

variable {inv : Pass → Prop} {site : Site} {slot : Nat}

theorem Site.yields_value? {bare : Bool} {post : Option String → Prop}
    (hnone : Slots.get? slot site.values = none → post none)
    (hsome : ∀ child, Slots.get? slot site.values = some child →
      (child.code bare).Yields inv fun code => post (if code.isEmpty then none else some code)) :
    (site.value? slot bare).Yields inv post := by
  unfold value?
  cases hc : Slots.get? slot site.values with
  | none => exact Gen.yields_pure (hnone hc)
  | some child => exact (hsome child hc).bind fun _ hcode => Gen.yields_pure hcode

/-- what is said of the code of a child is said of the code that is found in its slot -/
theorem Site.yields_found {bare : Bool} {post : String → Prop}
    (h : ∀ child, Slots.get? slot site.values = some child → (child.code bare).Yields inv post) :
    (site.value? slot bare).Yields inv fun found => ∀ text ∈ found, post text := by
  refine yields_value? (fun _ _ h => nomatch h) fun child hc => (h child hc).imp fun code hcode => ?_
  split_ifs
  · exact fun _ h => nomatch h
  · rintro _ ⟨⟩
    exact hcode

/-- the code of a value slot, with a text to stand in for none -/
theorem Site.yields_value {bare : Bool} {absent : String} {post : Option String → Prop} {behind : String → Prop}
    (h : (site.value? slot bare).Yields inv post) (hsome : ∀ text, post (some text) → behind text)
    (hnone : post none → behind absent) : (site.value slot bare absent).Yields inv behind := by
  refine h.bind fun found hfound => Gen.yields_pure ?_
  cases found with
  | none => exact hnone hfound
  | some text => exact hsome text hfound

theorem Site.yields_statement? {post : Option String → Prop}
    (hnone : Slots.get? slot site.statements = none → post none)
    (hsome : ∀ first, Slots.get? slot site.statements = some first → first.chain.Yields inv fun code =>
      post (if code.isEmpty then none else some (Text.prefixLines code Text.indentation))) :
    (site.statement? slot).Yields inv post := by
  refine (Gen.yields_within _ _).bind fun _ _ => ?_
  cases hc : Slots.get? slot site.statements with
  | none => exact Gen.yields_pure (hnone hc)
  | some first => exact (hsome first hc).bind fun _ hcode => Gen.yields_pure hcode

/-- a statement slot that gives a result has a number -/
theorem Site.yields_numbered {post : Option String → Prop}
    (h : slot < Slots.limit → (site.statement? slot).Yields inv post) : (site.statement? slot).Yields inv post := by
  by_cases hslot : slot < Slots.limit
  · exact h hslot
  · exact (Gen.yields_within _ _).bind fun _ hn => absurd hn hslot

/-- what is said of the indented code of a chain is said of what is found in its slot -/
theorem Site.yields_foundLines {post behind : String → Prop}
    (h : ∀ first, Slots.get? slot site.statements = some first → first.chain.Yields inv post)
    (hlines : ∀ code, code ≠ "" → post code → behind (Text.prefixLines code Text.indentation)) :
    (site.statement? slot).Yields inv fun found => ∀ text ∈ found, behind text := by
  refine yields_statement? (fun _ _ h => nomatch h) fun first hc => (h first hc).imp fun code hcode => ?_
  split_ifs with hempty
  · exact fun _ h => nomatch h
  · rintro _ ⟨⟩
    exact hlines code (by simpa using hempty) hcode

/-- the body of a compound statement: an empty slot is filled with a statement that does nothing -/
theorem Site.yields_branch {post : Option String → Prop} {behind : String → Prop}
    (h : (site.statement? slot).Yields inv post) (hsome : ∀ text, post (some text) → behind text)
    (hnone : post none → ∀ pass, inv pass → behind (Text.indentation ++ pass.language.noop ++ "\n")) :
    (site.branch slot).Yields inv behind := by
  refine h.bind fun found hfound => ?_
  cases found with
  | some text => exact Gen.yields_pure (hsome text hfound)
  | none => exact Gen.yields_get.bind fun pass hp => Gen.yields_pure (hnone hfound pass hp)

/-- the texts behind those that are there are left by steps, and each is what its step leaves -/
def Step.Appends (leaves : Step → String → Prop) (steps : List Step) (texts texts' : List String) : Prop :=
  ∃ left, texts' = texts ++ left ∧ List.Forall₂ leaves (steps.filter leavesText) left

namespace Step

variable {leaves : Step → String → Prop} {step : Step} {α : Type} {action : Gen α}

theorem yields_text {texts : List String} {made : α → String} (hl : step.leavesText)
    (h : action.Yields inv fun a => leaves step (made a)) :
    (action >>= fun a => pure (texts ++ [made a])).Yields inv (Appends leaves [step] texts) := by
  refine h.bind fun a ha => Gen.yields_pure ⟨[made a], rfl, ?_⟩
  rw [List.filter_cons_of_pos hl]
  exact .cons ha .nil

theorem yields_none {texts : List String} {post : α → Prop} (hl : step.leavesText = false) (h : action.Yields inv post) :
    (action >>= fun _ => pure texts).Yields inv (Appends leaves [step] texts) := by
  refine h.bind fun _ _ => Gen.yields_pure ⟨[], (List.append_nil texts).symm, ?_⟩
  rw [List.filter_cons_of_neg (Bool.not_eq_true _ ▸ hl)]
  exact .nil

/-- what each step leaves, steps in a row leave one after the other -/
theorem yields_runAll_of {steps : List Step}
    (h : ∀ step ∈ steps, ∀ texts, (step.run site texts).Yields inv (Appends leaves [step] texts))
    (texts : List String) : (runAll site texts steps).Yields inv (Appends leaves steps texts) := by
  induction steps generalizing texts with
  | nil => exact Gen.yields_pure ⟨[], (List.append_nil _).symm, .nil⟩
  | cons step rest ih =>
    obtain ⟨hstep, hrest⟩ := List.forall_mem_cons.1 h
    refine (hstep texts).bind fun between hbetween => ?_
    obtain ⟨left, rfl, hleft⟩ := hbetween
    refine (ih hrest (texts ++ left)).imp fun texts' htexts => ?_
    obtain ⟨more, rfl, hmore⟩ := htexts
    refine ⟨left ++ more, List.append_assoc .., ?_⟩
    rw [← List.singleton_append, List.filter_append]
    exact List.rel_append hleft hmore

end Step

end

/-! ## States whose names are identifiers -/

/-- every name that is bound or under which something is hoisted is an identifier -/
structure Pass.WellNamed (pass : Pass) : Prop where
  names : pass.names.WellFormed
  definitions : ∀ definition ∈ pass.registry.entries, ∀ name ∈ definition.name, Names.IsIdentifier name

namespace Pass.WellNamed

variable {pass : Pass}

theorem start (language : Language) : (Pass.start language).WellNamed :=
  ⟨Names.wellFormed_start _, List.forall_mem_nil _⟩

theorem bind (h : pass.WellNamed) (role : Role) (user : String) :
    WellNamed { pass with names := (pass.names.bind role user).2 } :=
  ⟨(h.names.bind role user).2, h.definitions⟩

theorem distinct (h : pass.WellNamed) (base : String) :
    WellNamed { pass with names := (pass.names.distinct base).2 } :=
  ⟨h.names.distinct base, h.definitions⟩

theorem define (h : pass.WellNamed) (key : String) {name : Option String} (hn : ∀ n ∈ name, Names.IsIdentifier n)
    (source : String) :
    WellNamed { pass with registry := (pass.registry.request key fun _ => (name, source)).2 } := by
  refine ⟨h.names, ?_⟩
  simp only [Registry.entries_request]
  split_ifs
  · exact h.definitions
  · exact List.forall_mem_append.2 ⟨h.definitions, List.forall_mem_singleton.2 hn⟩

end Pass.WellNamed

/-- an action that, from a state whose names are identifiers, keeps them so and yields only what `post` says -/
def Gen.Makes {α : Type} (action : Gen α) (post : α → Prop) : Prop :=
  ∀ pass : Pass, pass.WellNamed →
    (pass.perform action).2.WellNamed ∧ ∀ a, (pass.perform action).1 = .ok a → post a

namespace Gen

variable {α β : Type} {post : α → Prop} {post' : β → Prop}

theorem makes_pure {a : α} (h : post a) : Makes (pure a) post :=
  yields_pure h

theorem Makes.imp {action : Gen α} {weaker : α → Prop} (h : Makes action post) (himp : ∀ a, post a → weaker a) :
    Makes action weaker :=
  Yields.imp h himp

theorem Makes.bind {first : Gen α} {second : α → Gen β} (h : Makes first post)
    (hs : ∀ a, post a → Makes (second a) post') : Makes (first >>= second) post' :=
  Yields.bind h hs

theorem makes_nameOf (role : Role) (user : String) : Makes (nameOf role user) Names.IsIdentifier := by
  refine fun pass hp => ⟨hp.bind role user, ?_⟩
  rintro _ ⟨⟩
  exact (hp.names.bind role user).1

theorem makes_freshName (base : String) : Makes (freshName base) Names.IsIdentifier := by
  refine fun pass hp => ⟨hp.distinct base, ?_⟩
  rintro _ ⟨⟩
  exact Names.isIdentifier_distinct pass.names base

theorem makes_define (key : String) {name : Option String} (hn : ∀ n ∈ name, Names.IsIdentifier n) (source : String) :
    Makes (define key name source) fun _ => True :=
  fun _ hp => ⟨hp.define key hn source, fun _ _ => trivial⟩

theorem makes_require (key source : String) : Makes (require key source) fun _ => True :=
  makes_define key (by simp) source

/-- the name of a helper is an identifier, or missing when its key was taken by something without a name -/
theorem makes_provide (key base : String) (source : String → String) :
    Makes (provide key base source) fun name => name = "" ∨ Names.IsIdentifier name := by
  intro pass hp
  simp only [provide, Pass.perform_bind, Pass.perform_get]
  cases hf : pass.registry.find? key with
  | some definition =>
    refine makes_pure ?_ pass hp
    cases hname : definition.name with
    | none => exact .inl rfl
    | some name => exact .inr (hp.definitions definition (Registry.mem_of_find? hf) name hname)
  | none =>
    refine (makes_freshName base).bind (fun name hname => ?_) pass hp
    refine (makes_define key (fun n hn => ?_) (source name)).bind fun _ _ => makes_pure (.inr hname)
    exact Option.mem_some_iff.1 hn ▸ hname

theorem makes_declareTemporary (base : String) : Makes (declareTemporary base) Names.IsIdentifier := by
  refine (makes_freshName base).bind fun name hname => ?_
  refine (makes_define _ (fun n hn => ?_) _).bind fun _ _ => makes_pure hname
  exact Option.mem_some_iff.1 hn ▸ hname

end Gen

/-! ## Expressions -/

/-- a block of a value kind, with blocks of value kinds in all value slots that are visited, at every depth -/
inductive Block.IsValue : Block → Prop
  | mk {head : Head} {values statements : List (Nat × Block)} {next : Option Block} {kind : Kind} :
      Kind.read head.kind = .ok kind → kind.isStatement = false →
      (∀ form, head.form = .ok form → ∀ slot, .value slot ∈ form.visits → ∀ child,
        Slots.get? slot values = some child → IsValue child) →
      IsValue (.mk head values statements next)

theorem Block.IsValue.of_values (kind : Kind) {head : Head} {values statements : List (Nat × Block)}
    {next : Option Block} (hk : Kind.read head.kind = .ok kind) (hs : kind.isStatement = false)
    (hv : ∀ entry ∈ values, entry.2.IsValue) : (Block.mk head values statements next).IsValue := by
  refine .mk hk hs fun form _ slot _ child hc => ?_
  obtain ⟨entry, he, rfl⟩ := Slots.mem_of_get? hc
  exact hv entry he

/-- the construct of an expression is none of whole lines, and the slots it visits hold expressions -/
theorem Block.IsValue.of_form {head : Head} {values statements : List (Nat × Block)} {next : Option Block} {form : Form}
    (h : (Block.mk head values statements next).IsValue) (hf : head.form = .ok form) :
    form.isStatement = false ∧
      ∀ slot, .value slot ∈ form.visits → ∀ child, Slots.get? slot values = some child → child.IsValue := by
  cases h with
  | mk hkind hvalue hchildren =>
    obtain ⟨kind, hown, hread⟩ := Head.exists_kind hf
    obtain rfl := Except.ok.inj (hkind.symm.trans hown)
    exact ⟨(Form.isStatement_read hread).trans hvalue, hchildren form hf⟩

theorem Operand.identifier {atom : Bool} {name : String} (h : Names.IsIdentifier name) : Operand atom name :=
  ⟨.identifier h, fun _ => .identifier h⟩

section

variable {site : Site} {language : Language} {form : Form}

/-- a value slot gives an operand of the kind that was asked for -/
theorem Site.makes_value {slot : Nat} {bare : Bool} {absent : String} (ha : Balanced absent)
    (hs : ∀ child, Slots.get? slot site.values = some child → (child.code bare).Makes (Operand (!bare))) :
    (site.value slot bare absent).Makes (Operand (Step.value slot bare absent).isAtom) := by
  have habsent : Operand (Step.value slot bare absent).isAtom absent := by
    refine ⟨ha, fun h => ?_⟩
    simp only [Step.isAtom, Bool.and_eq_true, decide_eq_true_eq] at h
    exact h.2
  refine yields_value (yields_found hs) (fun text htext => ?_) fun _ => habsent
  have hoperand := htext text rfl
  refine ⟨hoperand.balanced, fun h => hoperand.atomic ?_⟩
  simp only [Step.isAtom, Bool.and_eq_true] at h
  exact h.1

/-- **One step**: it leaves what its kind promises. -/
theorem Step.makes_run {step : Step} (hm : step ∈ (language.template form).steps) (ho : step.isOperand)
    (hs : ∀ slot, .value slot ∈ form.visits → ∀ child, Slots.get? slot site.values = some child →
      ∀ bare, (child.code bare).Makes (Operand (!bare))) (texts : List String) :
    (step.run site texts).Makes (Appends (fun step => Operand step.isAtom) [step] texts) := by
  cases step with
  | value slot bare absent =>
    obtain ⟨hnested, issued, hsafe⟩ := Language.step_isNested hm
    have hvisit : .value slot ∈ form.visits := mem_visits_of_step hm List.mem_cons_self
    have habsent : Balanced absent := ⟨hsafe, beq_iff_eq.1 hnested⟩
    exact yields_text rfl (Site.makes_value habsent fun child hc => hs slot hvisit child hc bare)
  | userVariable user => exact yields_text rfl ((Gen.makes_nameOf _ user).imp fun _ => .identifier)
  | fresh base => exact yields_text rfl ((Gen.makes_freshName base).imp fun _ => .identifier)
  | temporary base => exact yields_text rfl ((Gen.makes_declareTemporary base).imp fun _ => .identifier)
  | helper helper =>
    refine yields_text rfl ((Gen.makes_provide _ _ _).imp fun text ht => ?_)
    rcases ht with rfl | ht
    · exact ⟨.empty, fun _ => by decide⟩
    · exact .identifier ht
  | require library => exact yields_none rfl (Gen.makes_require _ _)
  | _ => cases ho

theorem Step.makes_runAll_of {leaves : Step → String → Prop} {steps : List Step}
    (h : ∀ step ∈ steps, ∀ texts, (step.run site texts).Makes (Appends leaves [step] texts)) (texts : List String) :
    (Step.runAll site texts steps).Makes (Appends leaves steps texts) :=
  yields_runAll_of h texts

/-- **All steps in a row.** -/
theorem Step.makes_runAll {steps : List Step} (hm : ∀ step ∈ steps, step ∈ (language.template form).steps)
    (ho : ∀ step ∈ steps, step.isOperand)
    (hs : ∀ slot, .value slot ∈ form.visits → ∀ child, Slots.get? slot site.values = some child →
      ∀ bare, (child.code bare).Makes (Operand (!bare))) (texts : List String) :
    (Step.runAll site texts steps).Makes fun texts' => ∃ left, texts' = texts ++ left ∧
      List.Forall₂ Operand (Step.atoms steps) left := by
  simp only [Step.atoms, List.forall₂_map_left_iff]
  exact makes_runAll_of (fun step hstep => makes_run (hm step hstep) (ho step hstep) hs) texts

theorem Template.makes_run (hf : form.isStatement = false)
    (hs : ∀ slot, .value slot ∈ form.visits → ∀ child, Slots.get? slot site.values = some child →
      ∀ bare, (child.code bare).Makes (Operand (!bare))) (bare : Bool) :
    ((language.template form).run site bare).Makes (Operand (!bare)) := by
  refine (Step.makes_runAll (fun _ h => h) (language.steps_isOperand hf) hs []).bind fun texts htexts =>
    Gen.makes_pure ?_
  obtain ⟨left, rfl, hleft⟩ := htexts
  refine ⟨Template.balanced_render language form (Operand.balanced_of_mem hleft) bare, fun h => ?_⟩
  cases bare with
  | true => cases h
  | false => exact Template.atomic_render language hf hleft

end

/-- **The code of an expression** is balanced, and atomic where brackets were asked for. -/
theorem Block.makes_code (language : Language) {block : Block} (h : block.IsValue) (bare : Bool) :
    (block.code (.standard language) bare).Makes (Operand (!bare)) := by
  induction block generalizing bare with
  | mk head values statements next ihv _ _ =>
    intro pass hp
    rw [perform_code]
    cases hf : head.form with
    | error cause => exact ⟨hp, fun _ h => nomatch h⟩
    | ok form =>
      obtain ⟨hform, hchildren⟩ := h.of_form hf
      refine Template.makes_run hform (fun slot hvisit child hc bare => ?_) bare pass hp
      obtain ⟨plugged, hp, rfl⟩ := exists_of_get?_emissions hc
      obtain ⟨entry, he, rfl⟩ := Slots.mem_of_get? hp
      exact ihv entry he (hchildren slot hvisit entry.2 hp) bare

/-! ## States that runs reach -/

/-- what the operations of a run, in any order and whether they succeed or not, can make of its state -/
inductive Pass.Reachable (language : Language) : Pass → Prop
  | start : Reachable language (.start language)
  | nameOf {pass : Pass} (role : Role) (user : String) : Reachable language pass →
      Reachable language (pass.perform (Gen.nameOf role user)).2
  | freshName {pass : Pass} (base : String) : Reachable language pass →
      Reachable language (pass.perform (Gen.freshName base)).2
  | require {pass : Pass} (key source : String) : Reachable language pass →
      Reachable language (pass.perform (Gen.require key source)).2
  | provide {pass : Pass} (key base : String) (source : String → String) : Reachable language pass →
      Reachable language (pass.perform (Gen.provide key base source)).2
  | declareTemporary {pass : Pass} (base : String) : Reachable language pass →
      Reachable language (pass.perform (Gen.declareTemporary base)).2
  | code {pass : Pass} (block : Block) (bare : Bool) : Reachable language pass →
      Reachable language (pass.perform (block.code (.standard language) bare)).2
  | chain {pass : Pass} (block : Block) : Reachable language pass →
      Reachable language (pass.perform (block.chainCode (.standard language))).2

/-- the names in a state and the names of procedures left so far are identifiers -/
structure NamesInOrder (log : List Event) (pass : Pass) : Prop where
  state : pass.WellNamed
  procedures : ∀ form user name, .left form (.userProcedure user) name ∈ log → Names.IsIdentifier name

namespace NamesInOrder

variable {language : Language} {log log' : List Event} {pass pass' : Pass}

theorem of_wellNamed (h : pass.WellNamed) : NamesInOrder [] pass :=
  ⟨h, fun _ _ _ hm => nomatch hm⟩

/-- **Each event keeps the names in order.** What is hoisted under a name left before is a procedure. -/
theorem happens (h : NamesInOrder log pass) (hh : Happens language log pass log' pass') : NamesInOrder log' pass' := by
  have hissued : ∀ {name : String}, Names.IsIdentifier name → ∀ n ∈ some name, Names.IsIdentifier n :=
    fun hname n hn => Option.mem_some_iff.1 hn ▸ hname
  cases hh with
  | @step form before rest step texts left _ hsteps hdone hdoes =>
    have hstate : pass'.WellNamed := by
      cases hdoes with
      | userVariable => exact h.state.bind _ _
      | userProcedure => exact h.state.bind _ _
      | fresh => exact h.state.distinct _
      | @temporary base name hname =>
        have hid := hname ▸ Names.isIdentifier_distinct pass.names base
        exact (h.state.distinct base).define _ (hissued hid) _
      | @firstHelper helper name _ hname =>
        have hid := hname ▸ Names.isIdentifier_distinct pass.names helper.key
        exact (h.state.distinct helper.key).define _ (hissued hid) _
      | require => exact h.state.define _ (by simp) _
      | hoist =>
        obtain ⟨-, -, rfl, -, user, rfl, rfl⟩ := Language.steps_before_hoist hsteps
        have hleft := hdone.left
        cases hleft with
        | cons hfirst _ => exact h.state.define _ (hissued (h.procedures _ _ _ hfirst)) _
      | _ => exact h.state
    refine ⟨hstate, fun other user name hm => ?_⟩
    rcases List.mem_append.1 hm with hm | hm
    · exact h.procedures other user name hm
    · obtain ⟨text, ht, he⟩ := List.mem_map.1 hm
      cases he
      cases hdoes
      obtain rfl := List.mem_singleton.1 ht
      exact (h.state.names.bind _ _).1
  | code bare _ _ => exact ⟨h.state, fun other user name hm => h.procedures other user name (by simpa using hm)⟩
  | chain _ _ => exact ⟨h.state, fun other user name hm => h.procedures other user name (by simpa using hm)⟩

theorem unfolds (h : NamesInOrder log pass) (hu : Unfolds language log pass log' pass') : NamesInOrder log' pass' :=
  hu.keeps NamesInOrder h fun hh hi => hi.happens hh

end NamesInOrder

/-- **In every state that a run reaches, all names are identifiers**, and the target is its own. -/
theorem Pass.Reachable.wellNamed {language : Language} {pass : Pass} (h : pass.Reachable language) :
    pass.WellNamed ∧ pass.language = language := by
  induction h with
  | start => exact ⟨.start language, rfl⟩
  | nameOf role user _ ih => exact ⟨(Gen.makes_nameOf role user _ ih.1).1, ih.2⟩
  | freshName base _ ih => exact ⟨(Gen.makes_freshName base _ ih.1).1, ih.2⟩
  | require key source _ ih => exact ⟨(Gen.makes_require key source _ ih.1).1, ih.2⟩
  | @provide pass key base source _ ih =>
    refine ⟨(Gen.makes_provide key base source _ ih.1).1, Eq.trans ?_ ih.2⟩
    simp only [Gen.provide, Pass.perform_bind, Pass.perform_get]
    cases pass.registry.find? key <;> rfl
  | declareTemporary base _ ih => exact ⟨(Gen.makes_declareTemporary base _ ih.1).1, ih.2⟩
  | @code pass block bare _ ih =>
    obtain ⟨hunfolds, -⟩ := (block.tells_emission language).code bare [] pass ih.2
    exact ⟨((NamesInOrder.of_wellNamed ih.1).unfolds hunfolds).state, hunfolds.language_eq.trans ih.2⟩
  | @chain pass block _ ih =>
    obtain ⟨hunfolds, -⟩ := (block.tells_emission language).chain [] pass ih.2
    exact ⟨((NamesInOrder.of_wellNamed ih.1).unfolds hunfolds).state, hunfolds.language_eq.trans ih.2⟩

/-- **Operands keep together.** Whatever the state and the block, generating it for a bare place and for one that needs
brackets fails alike or gives codes that differ in brackets around the whole at most, and leaves the same state. If the
block and all blocks in value slots visited below it are of value kinds, and the names in the state are identifiers, as
they are in every state that a run reaches, then no blank of the second code stands outside its brackets and
literals. -/
theorem operands_keep_together (language : Language) (pass : Pass) (block : Block) :
    pass.DropsBrackets (block.code (.standard language)) ∧
    (pass.WellNamed → block.IsValue → ∀ guarded after,
      pass.perform (block.code (.standard language) false) = (.ok guarded, after) →
        Balanced guarded ∧ Atomic guarded) ∧
    (pass.Reachable language → pass.WellNamed) := by
  refine ⟨block.dropsBrackets_code language pass, fun hp hv guarded after hr => ?_, fun h => h.wellNamed.1⟩
  obtain ⟨-, hcode⟩ := Block.makes_code language hv false pass hp
  have hoperand := hcode guarded (by rw [hr])
  exact ⟨hoperand.balanced, hoperand.atomic rfl⟩

def joinedLength : Block :=
  .mk { Head.bare Kind.join.name with items := 2 }
    [(0, .mk (Head.bare Kind.length.name) [(0, .text "a b")] [] none), (1, .text "c d")] [] none

theorem joinedLength_keeps_together :
    joinedLength.IsValue ∧ (Pass.start .javascript).WellNamed ∧
      (Pass.start .javascript).perform (joinedLength.code (.standard .javascript) true) =
        (.ok "String('a b'.length) + String('c d')", .start .javascript) ∧
      (Pass.start .javascript).perform (joinedLength.code (.standard .javascript) false) =
        (.ok "(String('a b'.length) + String('c d'))", .start .javascript) ∧
      Atomic "(String('a b'.length) + String('c d'))" := by
  have htext : ∀ literal, (Block.text literal).IsValue := fun literal => .of_values .text rfl rfl (by simp)
  have hlength : (Block.mk (Head.bare Kind.length.name) [(0, .text "a b")] [] none).IsValue :=
    .of_values .length rfl rfl (by simpa using htext "a b")
  have hvalue : joinedLength.IsValue := .of_values .join rfl rfl (by simpa using ⟨hlength, htext "c d"⟩)
  have hguarded : (Pass.start .javascript).perform (joinedLength.code (.standard .javascript) false) =
      (.ok "(String('a b'.length) + String('c d'))", .start .javascript) := by rfl
  obtain ⟨-, hatomic, hnames⟩ := operands_keep_together .javascript (.start .javascript) joinedLength
  have hnamed := hnames .start
  exact ⟨hvalue, hnamed, by rfl, hguarded, (hatomic hnamed hvalue _ _ hguarded).2⟩

end Blockwork
