/-
Carrying out generation steps, as equations. Every result about generated programs opens a run through
these and never unfolds the state monad again.

- `perform_bind`: a run of two steps is the run of the first and, if it succeeds, of the second from the
  state the first left; a failure keeps its state.
- `Block.induction`: a fact about blocks may be proved from the same fact about every block plugged in.
- `Block.perform_code`: a block's code is its construct's template carried out at its site.
- `Keeps`: an invariant of the state that every single change keeps is kept by whole blocks and chains,
  whether they succeed or not.
-/
import Blockwork.Program
import Mathlib.Tactic

namespace Blockwork

/-! ## Single steps -/

namespace Pass

variable {α β : Type} (pass : Pass)

@[simp]
theorem perform_pure (a : α) : pass.perform (pure a) = (.ok a, pass) := rfl

theorem perform_bind (first : Gen α) (second : α → Gen β) :
    pass.perform (first >>= second) =
      match pass.perform first with
      | (.ok a, after) => after.perform (second a)
      | (.error cause, after) => (.error cause, after) := by
  unfold perform
  simp only [bind, ExceptT.bind, ExceptT.mk, ExceptT.run, StateT.run, StateT.bind, Id.run]
  rcases first pass with ⟨outcome, after⟩
  cases outcome <;> rfl

theorem perform_bind_of_ok {pass between : Pass} {first : Gen α} {second : α → Gen β} {a : α}
    (h : pass.perform first = (.ok a, between)) : pass.perform (first >>= second) = between.perform (second a) := by
  rw [perform_bind, h]

/-- a run of two steps succeeds only if both do, one after the other -/
theorem perform_bind_ok {pass after : Pass} {first : Gen α} {second : α → Gen β} {b : β}
    (h : pass.perform (first >>= second) = (.ok b, after)) :
    ∃ a between, pass.perform first = (.ok a, between) ∧ between.perform (second a) = (.ok b, after) := by
  rw [perform_bind] at h
  rcases hr : pass.perform first with ⟨cause | a, between⟩
  · rw [hr] at h
    cases h
  · rw [hr] at h
    exact ⟨a, between, rfl, h⟩

@[simp]
theorem perform_get : pass.perform (get : Gen Pass) = (.ok pass, pass) := rfl

@[simp]
theorem perform_ofExcept (outcome : Except (Stop GenError) α) : pass.perform (Gen.ofExcept outcome) = (outcome, pass) := by
  cases outcome <;> rfl

theorem perform_within (limit n : Nat) :
    pass.perform (Gen.within limit n) = (if n < limit then .ok () else .error .overflow, pass) := by
  unfold Gen.within
  split_ifs <;> rfl

@[simp]
theorem perform_nameOf (role : Role) (user : String) :
    pass.perform (Gen.nameOf role user) =
      (.ok (pass.names.bind role user).1, { pass with names := (pass.names.bind role user).2 }) := rfl

@[simp]
theorem perform_freshName (base : String) :
    pass.perform (Gen.freshName base) =
      (.ok (pass.names.distinct base).1, { pass with names := (pass.names.distinct base).2 }) := rfl

@[simp]
theorem perform_define (key : String) (name : Option String) (source : String) :
    pass.perform (Gen.define key name source) =
      (.ok (), { pass with registry := (pass.registry.request key fun _ => (name, source)).2 }) := rfl

end Pass

/-! ## Blocks and their slots -/

/-- a fact about all blocks follows from its step: from the blocks in the slots and the block below -/
@[induction_eliminator]
theorem Block.induction {motive : Block → Prop}
    (mk : ∀ head values statements next, (∀ entry ∈ values, motive entry.2) →
      (∀ entry ∈ statements, motive entry.2) → (∀ below ∈ next, motive below) →
      motive (.mk head values statements next)) (block : Block) : motive block :=
  @Block.rec motive (fun entries => ∀ entry ∈ entries, motive entry.2) (fun next => ∀ below ∈ next, motive below)
    (fun entry => motive entry.2) mk (fun _ h => nomatch h)
    (fun _ _ first rest => List.forall_mem_cons.2 ⟨first, rest⟩)
    (fun _ h => nomatch h) (fun _ h _ hb => Option.mem_some_iff.1 hb ▸ h) (fun _ _ h => h) block

namespace Slots

variable {α β : Type}

theorem mem_of_get? {slot : Nat} {entries : List (Nat × α)} {a : α} (h : get? slot entries = some a) :
    ∃ entry ∈ entries, entry.2 = a := by
  induction entries with
  | nil => simp [get?] at h
  | cons entry rest ih =>
    obtain ⟨s, b⟩ := entry
    simp only [get?] at h
    split_ifs at h with hs
    · exact ⟨(s, b), List.mem_cons_self, by simpa using h⟩
    · obtain ⟨e, he, hea⟩ := ih h
      exact ⟨e, List.mem_cons_of_mem _ he, hea⟩

theorem get?_map (f : α → β) (slot : Nat) (entries : List (Nat × α)) :
    get? slot (entries.map fun entry => (entry.1, f entry.2)) = (get? slot entries).map f := by
  induction entries with
  | nil => rfl
  | cons entry rest ih =>
    simp only [List.map_cons, get?]
    split_ifs
    · rfl
    · exact ih

end Slots

namespace Block

theorem emissions_eq_map (table : Table) (entries : List (Nat × Block)) :
    emissions table entries = entries.map fun entry => (entry.1, emission table entry.2) := by
  induction entries with
  | nil => rfl
  | cons entry rest ih => simp [emissions, ih]

@[simp]
theorem get?_emissions (table : Table) (slot : Nat) (entries : List (Nat × Block)) :
    Slots.get? slot (emissions table entries) = (Slots.get? slot entries).map (emission table) := by
  rw [emissions_eq_map, Slots.get?_map]

/-- whatever is found in a slot comes from a block -/
theorem exists_of_get?_emissions {table : Table} {entries : List (Nat × Block)} {slot : Nat} {child : Emission}
    (h : Slots.get? slot (emissions table entries) = some child) :
    ∃ block, Slots.get? slot entries = some block ∧ emission table block = child := by
  rwa [get?_emissions, Option.map_eq_some_iff] at h

/-- what holds of every block plugged in holds of whatever is found in a slot -/
theorem of_get?_emissions {table : Table} {entries : List (Nat × Block)} {prop : Emission → Prop}
    (h : ∀ entry ∈ entries, prop (emission table entry.2)) (slot : Nat) (child : Emission)
    (hc : Slots.get? slot (emissions table entries) = some child) : prop child := by
  obtain ⟨block, hb, rfl⟩ := exists_of_get?_emissions hc
  obtain ⟨entry, he, rfl⟩ := Slots.mem_of_get? hb
  exact h entry he

end Block

namespace Site

variable {site : Site} {slot : Nat} {found : Option String} {pass after : Pass}

/-- a value slot that gives a result leaves the state as the block in it left it -/
theorem perform_value?_ok {bare : Bool} (h : pass.perform (site.value? slot bare) = (.ok found, after)) :
    (Slots.get? slot site.values = none ∧ after = pass) ∨
      ∃ child code, Slots.get? slot site.values = some child ∧ pass.perform (child.code bare) = (.ok code, after) := by
  unfold value? at h
  cases hc : Slots.get? slot site.values with
  | none =>
    rw [hc] at h
    cases h
    exact .inl ⟨rfl, rfl⟩
  | some child =>
    rw [hc] at h
    obtain ⟨code, between, hcode, hrest⟩ := Pass.perform_bind_ok h
    cases hrest
    exact .inr ⟨child, code, rfl, hcode⟩

theorem perform_value_none (h : Slots.get? slot site.values = none) (bare : Bool) (absent : String) :
    pass.perform (site.value slot bare absent) = (.ok absent, pass) := by
  simp only [value, value?, h]
  rfl

theorem perform_value_some {child : Emission} {bare : Bool} {code : String}
    (h : Slots.get? slot site.values = some child) (hcode : pass.perform (child.code bare) = (.ok code, after))
    (hne : code ≠ "") (absent : String) : pass.perform (site.value slot bare absent) = (.ok code, after) := by
  simp only [value, value?, h, Pass.perform_bind, hcode]
  rw [if_neg fun hempty => hne (String.isEmpty_iff.1 hempty)]
  rfl

theorem lt_limit_of_statement?_ok (h : pass.perform (site.statement? slot) = (.ok found, after)) :
    slot < Slots.limit := by
  obtain ⟨_, between, hwithin, -⟩ := Pass.perform_bind_ok h
  rw [Pass.perform_within] at hwithin
  refine not_le.1 fun hover => ?_
  rw [if_neg (not_lt.2 hover)] at hwithin
  cases hwithin

/-- below the limit, a statement slot is what is plugged into it -/
theorem perform_statement?_eq (h : slot < Slots.limit) :
    pass.perform (site.statement? slot) =
      pass.perform (match Slots.get? slot site.statements with
        | none => pure none
        | some first => do
          let code ← first.chain
          pure (if code.isEmpty then none else some (Text.prefixLines code Text.indentation))) := by
  have hwithin : pass.perform (Gen.within Slots.limit slot) = (.ok (), pass) := by rw [Pass.perform_within, if_pos h]
  exact Pass.perform_bind_of_ok hwithin

/-- a statement slot that gives a result leaves the state as the chain in it left it -/
theorem perform_statement?_ok (h : pass.perform (site.statement? slot) = (.ok found, after)) :
    (Slots.get? slot site.statements = none ∧ after = pass) ∨
      ∃ first code, Slots.get? slot site.statements = some first ∧ pass.perform first.chain = (.ok code, after) := by
  rw [perform_statement?_eq (lt_limit_of_statement?_ok h)] at h
  cases hc : Slots.get? slot site.statements with
  | none =>
    rw [hc] at h
    cases h
    exact .inl ⟨rfl, rfl⟩
  | some first =>
    rw [hc] at h
    obtain ⟨code, between, hcode, hrest⟩ := Pass.perform_bind_ok h
    cases hrest
    exact .inr ⟨first, code, rfl, hcode⟩

end Site

/-! ## A block's code -/

namespace Stop

variable {ε α : Type} {outcome : Except ε α}

theorem refusing_eq_ok_iff {a : α} : refusing outcome = .ok a ↔ outcome = .ok a := by
  cases outcome <;> simp [refusing]

end Stop

theorem Form.readWithin_eq_ok_iff {kind : Kind} {head : Head} {form : Form} :
    readWithin kind head = .ok form ↔ read kind head = .ok form ∧ form.room < roomLimit := by
  unfold readWithin
  cases hread : read kind head with
  | error cause => simp [Stop.refusing, bind, Except.bind]
  | ok found =>
    by_cases hroom : found.room < roomLimit
    · simp only [Stop.refusing, bind, Except.bind, hroom, if_true, pure, Except.pure, Except.ok.injEq]
      exact ⟨fun h => ⟨h, h ▸ hroom⟩, And.left⟩
    · simp only [Stop.refusing, bind, Except.bind, hroom, if_false, reduceCtorEq, false_iff, Except.ok.injEq]
      rintro ⟨rfl, h⟩
      exact hroom h

/-- the construct that a block's own data stands for, or why it stands for none -/
def Head.form (head : Head) : Except (Stop GenError) Form := do
  Form.readWithin (← Stop.refusing (Kind.read head.kind)) head

theorem Kind.name_of_read {name : String} {kind : Kind} (h : read name = .ok kind) : kind.name = name := by
  unfold read ofName? at h
  cases hfound : all.find? fun kind => kind.name == name with
  | none =>
    rw [hfound] at h
    cases h
  | some found =>
    rw [hfound] at h
    obtain rfl : found = kind := Except.ok.inj h
    have hname := List.find?_some hfound
    exact eq_of_beq hname

/-- the construct of a block is read from its kind -/
theorem Head.exists_kind {head : Head} {form : Form} (h : head.form = .ok form) :
    ∃ kind, Kind.read head.kind = .ok kind ∧ Form.read kind head = .ok form := by
  unfold Head.form at h
  cases hk : Kind.read head.kind with
  | error cause =>
    rw [hk] at h
    cases h
  | ok kind =>
    rw [hk] at h
    exact ⟨kind, rfl, (Form.readWithin_eq_ok_iff.1 h).1⟩

theorem Table.get_standard (language : Language) (kind : Kind) (head : Head) :
    (Table.standard language).get kind head = language.template <$> Form.readWithin kind head := by
  have h : (Table.standard language).get? kind = some (language.writer kind) := by
    cases kind <;> rfl
  have hw : (Table.standard language).get kind = language.writer kind := by
    simp only [Table.get, h, Option.get_some]
  rw [hw]; rfl

namespace Block

/-- a run of the steps of a construct, from the reading of a block's own data on -/
theorem perform_code (language : Language) (head : Head) (values statements : List (Nat × Block))
    (next : Option Block) (bare : Bool) (pass : Pass) :
    pass.perform ((mk head values statements next).code (.standard language) bare) =
      match head.form with
      | .ok form => pass.perform ((language.template form).run
          ⟨emissions (.standard language) values, emissions (.standard language) statements⟩ bare)
      | .error cause => (.error cause, pass) := by
  simp only [code, emission, Head.code, Pass.perform_bind, Pass.perform_ofExcept, Table.get_standard, Head.form]
  cases hk : Kind.read head.kind with
  | error cause => rfl
  | ok kind =>
    simp only [Stop.refusing, bind, Except.bind]
    cases Form.readWithin kind head <;> rfl

end Block

/-! ## Invariants of the state -/

/-- an action keeps a property of the state, whether it succeeds or not -/
def Gen.Keeps {α : Type} (inv : Pass → Prop) (action : Gen α) : Prop :=
  ∀ pass, inv pass → inv (pass.perform action).2

/-- every change that a step can make keeps `inv`: binding a user's name, issuing a fresh name for one of
the `bases`, and hoisting a definition -/
structure Pass.Invariant (bases : String → Prop) (inv : Pass → Prop) : Prop where
  bind : ∀ pass role user, inv pass → inv { pass with names := (pass.names.bind role user).2 }
  distinct : ∀ pass base, bases base → inv pass → inv { pass with names := (pass.names.distinct base).2 }
  define : ∀ pass key name source, inv pass →
    inv { pass with registry := (pass.registry.request key fun _ => (name, source)).2 }

/-- what a step issues a fresh name for -/
def Step.base? : Step → Option String
  | fresh base => some base
  | temporary base => some base
  | helper h => some h.key
  | _ => none

namespace Gen

variable {α β : Type} {inv : Pass → Prop}

theorem keeps_pure (a : α) : Keeps inv (pure a) := fun _ h => h

theorem keeps_bind {first : Gen α} {second : α → Gen β} (h1 : Keeps inv first) (h2 : ∀ a, Keeps inv (second a)) :
    Keeps inv (first >>= second) := by
  intro pass h
  have hp := h1 pass h
  rw [Pass.perform_bind]
  rcases hr : pass.perform first with ⟨outcome, after⟩
  rw [hr] at hp
  cases outcome with
  | ok a => exact h2 a after hp
  | error cause => exact hp

theorem keeps_get : Keeps inv (get : Gen Pass) := fun _ h => h

theorem keeps_ofExcept (outcome : Except (Stop GenError) α) : Keeps inv (ofExcept outcome) := by
  intro pass h
  rw [Pass.perform_ofExcept]
  exact h

theorem keeps_within (limit n : Nat) : Keeps inv (within limit n) := by
  intro pass h
  rw [Pass.perform_within]
  exact h

variable {bases : String → Prop}

theorem keeps_provide (hi : Pass.Invariant bases inv) (key base : String) (source : String → String) (hb : bases base) :
    Keeps inv (provide key base source) := by
  refine keeps_bind keeps_get fun pass => ?_
  split
  · exact keeps_pure _
  · exact keeps_bind (fun p h => hi.distinct p base hb h) fun name =>
      keeps_bind (fun p h => hi.define p key _ _ h) fun _ => keeps_pure _

theorem keeps_declareTemporary (hi : Pass.Invariant bases inv) (base : String) (hb : bases base) :
    Keeps inv (declareTemporary base) :=
  keeps_bind (fun p h => hi.distinct p base hb h) fun _ =>
    keeps_bind (fun p h => hi.define p _ _ _ h) fun _ => keeps_pure _

end Gen

open Gen

/-- whatever is generated in this way keeps the property -/
structure Emission.Keeps (inv : Pass → Prop) (emission : Emission) : Prop where
  code : ∀ bare, Gen.Keeps inv (emission.code bare)
  chain : Gen.Keeps inv emission.chain

/-- whatever is plugged into a site keeps the property -/
structure Site.Keeps (inv : Pass → Prop) (site : Site) : Prop where
  values : ∀ slot child, Slots.get? slot site.values = some child → child.Keeps inv
  statements : ∀ slot child, Slots.get? slot site.statements = some child → child.Keeps inv

section

variable {bases : String → Prop} {inv : Pass → Prop} {site : Site}

theorem Site.Keeps.value? (hs : site.Keeps inv) (slot : Nat) (bare : Bool) : Gen.Keeps inv (site.value? slot bare) := by
  unfold Site.value?
  split
  · exact keeps_pure _
  · rename_i child hc
    exact keeps_bind ((hs.values slot child hc).code bare) fun _ => keeps_pure _

theorem Site.Keeps.statement? (hs : site.Keeps inv) (slot : Nat) : Gen.Keeps inv (site.statement? slot) := by
  refine keeps_bind (keeps_within _ _) fun _ => ?_
  split
  · exact keeps_pure _
  · rename_i child hc
    exact keeps_bind (hs.statements slot child hc).chain fun _ => keeps_pure _

theorem Site.Keeps.branch (hs : site.Keeps inv) (slot : Nat) : Gen.Keeps inv (site.branch slot) := by
  refine keeps_bind (hs.statement? slot) fun code => ?_
  split
  · exact keeps_pure _
  · exact keeps_bind keeps_get fun _ => keeps_pure _

theorem Step.keeps_run (hi : Pass.Invariant bases inv) (hs : site.Keeps inv) (texts : List String) (step : Step)
    (hb : ∀ base ∈ step.base?, bases base) : Gen.Keeps inv (step.run site texts) := by
  cases step with
  | value slot bare absent =>
    exact keeps_bind (keeps_bind (hs.value? slot bare) fun _ => keeps_pure _) fun _ => keeps_pure _
  | branch slot => exact keeps_bind (hs.branch slot) fun _ => keeps_pure _
  | body slot => exact keeps_bind (hs.statement? slot) fun _ => keeps_pure _
  | userVariable name => exact keeps_bind (fun p h => hi.bind p _ _ h) fun _ => keeps_pure _
  | userProcedure name => exact keeps_bind (fun p h => hi.bind p _ _ h) fun _ => keeps_pure _
  | fresh base => exact keeps_bind (fun p h => hi.distinct p base (hb base rfl) h) fun _ => keeps_pure _
  | temporary base => exact keeps_bind (keeps_declareTemporary hi base (hb base rfl)) fun _ => keeps_pure _
  | helper helper => exact keeps_bind (keeps_provide hi _ _ _ (hb helper.key rfl)) fun _ => keeps_pure _
  | require library => exact keeps_bind (fun p h => hi.define p _ _ _ h) fun _ => keeps_pure _
  | hoist key name source => exact keeps_bind (fun p h => hi.define p _ _ _ h) fun _ => keeps_pure _

theorem Step.keeps_runAll (hi : Pass.Invariant bases inv) (hs : site.Keeps inv) (texts : List String)
    (steps : List Step) (hb : ∀ step ∈ steps, ∀ base ∈ step.base?, bases base) :
    Gen.Keeps inv (Step.runAll site texts steps) := by
  induction steps generalizing texts with
  | nil => exact keeps_pure _
  | cons step rest ih =>
    obtain ⟨h1, h2⟩ := List.forall_mem_cons.1 hb
    exact keeps_bind (Step.keeps_run hi hs texts step h1) fun texts => ih texts h2

theorem Template.keeps_run (hi : Pass.Invariant bases inv) (hs : site.Keeps inv) (template : Template) (bare : Bool)
    (hb : ∀ step ∈ template.steps, ∀ base ∈ step.base?, bases base) : Gen.Keeps inv (template.run site bare) :=
  keeps_bind (Step.keeps_runAll hi hs [] template.steps hb) fun _ => keeps_pure _

/-- every fresh name that a target's templates issue has an allowed base -/
def Language.IssuesFrom (language : Language) (bases : String → Prop) : Prop :=
  ∀ form, ∀ step ∈ (language.template form).steps, ∀ base ∈ step.base?, bases base

theorem Head.keeps_link {head : Head} {code : Bool → Gen String} (h : Gen.Keeps inv (code true)) :
    Gen.Keeps inv (head.link code) := by
  refine keeps_bind (keeps_ofExcept _) fun kind => keeps_bind h fun code => ?_
  split
  · exact keeps_pure _
  · exact keeps_bind keeps_get fun _ => keeps_pure _

/-- what every single change keeps is kept by the code of a block and of the chain below it -/
theorem Block.emission_keeps {language : Language} (hi : Pass.Invariant bases inv) (hl : language.IssuesFrom bases)
    (block : Block) : (emission (.standard language) block).Keeps inv := by
  induction block with
  | mk head values statements next hv hs hn =>
    have hsite : Site.Keeps inv ⟨emissions (.standard language) values, emissions (.standard language) statements⟩ :=
      ⟨of_get?_emissions hv, of_get?_emissions hs⟩
    have hcode : ∀ bare, Gen.Keeps inv ((mk head values statements next).code (.standard language) bare) := by
      intro bare pass h
      rw [perform_code]
      cases head.form with
      | error cause => exact h
      | ok form => exact Template.keeps_run hi hsite _ bare (hl form) pass h
    refine ⟨hcode, ?_⟩
    refine keeps_bind (Head.keeps_link (hcode true)) fun own => keeps_bind ?_ fun _ => keeps_pure _
    cases next with
    | none => exact keeps_pure _
    | some below => exact (hn below rfl).chain

theorem Block.keeps_chainsCode {language : Language} (hi : Pass.Invariant bases inv) (hl : language.IssuesFrom bases)
    (blocks : List Block) : Gen.Keeps inv (chainsCode (.standard language) blocks) := by
  induction blocks with
  | nil => exact keeps_pure _
  | cons block rest ih =>
    exact keeps_bind (block.emission_keeps hi hl).chain fun _ => keeps_bind ih fun _ => keeps_pure _

end

/-! ## Whole programs -/

/-- the run behind a program: the body or why there is none, and the state at the end -/
def programRun (language : Language) (blocks : List Block) : Except (Stop GenError) String × Pass :=
  (Pass.start language).perform (Block.chainsCode (.standard language) blocks)

theorem generate_eq (language : Language) (blocks : List Block) :
    generate language blocks = (programRun language blocks).1.map (programRun language blocks).2.finish := by
  unfold generate programRun
  rcases (Pass.start language).perform _ with ⟨outcome, pass⟩
  cases outcome <;> rfl

/-- a program is the body of a run that succeeds, finished -/
theorem generate_ok_iff {language : Language} {blocks : List Block} {program : String} :
    generate language blocks = .ok program ↔
      ∃ body pass, programRun language blocks = (.ok body, pass) ∧ program = pass.finish body := by
  rw [generate_eq]
  constructor
  · intro h
    rcases hrun : programRun language blocks with ⟨outcome, pass⟩
    rw [hrun] at h
    cases outcome with
    | error cause => cases h
    | ok body =>
      cases h
      exact ⟨body, pass, rfl, rfl⟩
  · rintro ⟨body, pass, hrun, rfl⟩
    rw [hrun]
    rfl

end Blockwork
