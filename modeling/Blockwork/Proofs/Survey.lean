/-
One traversal for all targets. `Form.visits` says, without a word about any target, which slots a
construct visits and which of the user's names it asks for, in order; `Block.survey` follows it through a
whole workspace and lists what is met on the way: names asked for, and reasons to stop.

- `steps_visits`: every target's template of a construct makes exactly these visits.
- `Block.follows_chainsCode`: a run in any target stops at the first stop of the survey or, if there is none,
  succeeds; and the names it has asked for by then are those the survey meets before it.
- `Block.Visits`: the blocks that are visited; at a stop stands one of them that cannot be read, or that visits a slot
  without a number (`Block.stop_mem_findings_iff`).
- `Head.Overflows`: the blocks at which a run overflows, `Head.stops_overflow_iff`.
- `refusal_is_target_independent`: the main statement, on whole programs, and a join so long that there is neither a
  program nor a refusal.
-/
import Blockwork.Proofs.Constructs
import Blockwork.Proofs.Perform

namespace Blockwork

/-! ## The traversal -/

/-- one thing that a construct does with what surrounds it -/
inductive Visit
  | value (slot : Nat)
  | statement (slot : Nat)
  | name (role : Role) (user : String)
  deriving DecidableEq

/-- the slots that a construct visits and the names it asks for, in order -/
def Form.visits : Form → List Visit
  | number _ => []
  | arithmetic _ => [.value 0, .value 1]
  | change user => [.value 0, .name .variable user]
  | single _ => [.value 0]
  | onList _ => [.value 0]
  | modulo => [.value 0, .value 1]
  | randomFraction => []
  | randomInteger => [.value 0, .value 1]
  | text _ => []
  | join items => (List.range items).map .value
  | length => [.value 0]
  | isEmpty => [.value 0]
  | endString _ => [.value 0, .value 1]
  | indexOf _ => [.value 0, .value 1]
  | charAt => [.value 0, .value 1]
  | changeCase _ => [.value 0]
  | trim _ => [.value 0]
  | print => [.value 0]
  | choice elseifs otherwise =>
    ((List.range (elseifs + 1)).flatMap fun n => [.value n, .statement n]) ++
      if otherwise then [.statement (elseifs + 1)] else []
  | loop _ => [.value 0, .statement 0]
  | count user => [.name .variable user, .value 0, .value 1, .statement 0]
  | forEach user => [.name .variable user, .value 0, .statement 0]
  | jump _ => []
  | procedure user => [.name .procedure user, .statement 0, .value 0]
  | get user => [.name .variable user]
  | set user => [.value 0, .name .variable user]

/-- something met on the way through a workspace -/
inductive Finding
  /-- a name of the user's is asked for -/
  | request (role : Role) (user : String)
  /-- the run stops: a block cannot be read as a construct, or a number outgrows its limit -/
  | stop (reason : Stop GenError)
  deriving DecidableEq

/-- what is met in a block alone, and in the chain that starts with it -/
structure Survey where
  own : List Finding
  chain : List Finding

/-- what a visit meets, given what is met in each slot. There is no number for a statement slot beyond the limit. -/
def Visit.findings (values statements : List (Nat × Survey)) : Visit → List Finding
  | value slot => ((Slots.get? slot values).map Survey.own).getD []
  | statement slot =>
    if slot < Slots.limit then ((Slots.get? slot statements).map Survey.chain).getD [] else [.stop .overflow]
  | name role user => [.request role user]

/-- what is met in a block with this data: a stop, or what its construct's visits meet -/
def Head.findings (head : Head) (values statements : List (Nat × Survey)) : List Finding :=
  match head.form with
  | .ok form => form.visits.flatMap (Visit.findings values statements)
  | .error stop => [.stop stop]

namespace Block

mutual

/-- what is met in a block and below it -/
def survey : Block → Survey
  | mk head values statements next =>
    let own := head.findings (surveys values) (surveys statements)
    { own, chain := own ++ nextFindings next }

def surveys : List (Nat × Block) → List (Nat × Survey)
  | [] => []
  | (slot, block) :: rest => (slot, survey block) :: surveys rest

def nextFindings : Option Block → List Finding
  | none => []
  | some block => (survey block).chain

end

/-- what is met in a workspace, chain by chain -/
def findings (blocks : List Block) : List Finding :=
  blocks.flatMap fun block => block.survey.chain

theorem surveys_eq_map (entries : List (Nat × Block)) :
    surveys entries = entries.map fun entry => (entry.1, survey entry.2) := by
  induction entries with
  | nil => rfl
  | cons entry rest ih => simp [surveys, ih]

end Block

namespace Finding

def firstStop : List Finding → Option (Stop GenError)
  | [] => none
  | request _ _ :: rest => firstStop rest
  | stop reason :: _ => some reason

/-- the names asked for before the first stop, in order -/
def requests : List Finding → List (Role × String)
  | [] => []
  | request role user :: rest => (role, user) :: requests rest
  | stop _ :: _ => []

theorem firstStop_append (first second : List Finding) :
    firstStop (first ++ second) = (firstStop first).or (firstStop second) := by
  induction first with
  | nil => simp [firstStop]
  | cons finding rest ih => cases finding <;> simp [firstStop, ih]

theorem requests_append (first second : List Finding) :
    requests (first ++ second) =
      requests first ++ if (firstStop first).isNone then requests second else [] := by
  induction first with
  | nil => simp [requests, firstStop]
  | cons finding rest ih => cases finding <;> simp [requests, firstStop, ih]

end Finding

/-- add a name to those asked for before, unless it is one of them -/
def remember (seen : List (Role × String)) (key : Role × String) : List (Role × String) :=
  if key ∈ seen then seen else seen ++ [key]

/-- names in order of first use, each once -/
def firstUses (keys : List (Role × String)) : List (Role × String) :=
  keys.foldl remember []

/-- the user's names that have been asked for, in order of first use -/
def Names.asked (names : Names) : List (Role × String) :=
  names.bound.reverse.map Prod.fst

/-! ## Templates make the visits of their construct -/

def Step.visits : Step → List Visit
  | value slot _ _ => [.value slot]
  | branch slot => [.statement slot]
  | body slot => [.statement slot]
  | userVariable user => [.name .variable user]
  | userProcedure user => [.name .procedure user]
  | _ => []

theorem choiceSteps_visits (falsity : String) (elseifs : Nat) (otherwise : Bool) :
    (Template.choiceSteps falsity elseifs otherwise).flatMap Step.visits = (Form.choice elseifs otherwise).visits := by
  simp only [Template.choiceSteps, Form.visits, List.flatMap_append, List.flatMap_assoc]
  cases otherwise <;> rfl

theorem valueSteps_visits (items : Nat) :
    ((List.range items).map fun slot => Template.string slot true).flatMap Step.visits = (Form.join items).visits := by
  simp only [Form.visits, List.flatMap_map, Template.string, Step.visits]
  exact (List.map_eq_flatMap ..).symm

/-- **Every target makes the same visits.** The templates of a construct differ in what they hoist and
write, never in which slots they visit, which names they ask for, or in which order. -/
theorem steps_visits (language : Language) (form : Form) :
    (language.template form).steps.flatMap Step.visits = form.visits := by
  cases form using Form.byData with
  | plain form hm =>
    have hplain : ∀ form ∈ Form.plain, (language.template form).steps.flatMap Step.visits = form.visits := by
      cases language <;> decide +kernel
    exact hplain form hm
  | list items => exact language.list_steps items ▸ valueSteps_visits (items + 3)
  | choice elseifs otherwise => exact language.choice_steps elseifs otherwise ▸ choiceSteps_visits _ elseifs otherwise
  | onList op => cases language <;> cases op <;> rfl
  | changeCase style => cases language <;> cases style <;> rfl
  | _ => cases language <;> rfl

theorem mem_visits_of_step {language : Language} {form : Form} {step : Step} {visit : Visit}
    (hm : step ∈ (language.template form).steps) (hv : visit ∈ step.visits) : visit ∈ form.visits := by
  rw [← steps_visits language form]
  exact List.mem_flatMap.2 ⟨step, hm, hv⟩

/-! ## Runs follow the survey -/

/-- what a run that gives no result ends with -/
def stop? {α : Type} : Except (Stop GenError) α → Option (Stop GenError)
  | .ok _ => none
  | .error stop => some stop

/-- an action stops at the first of the findings that is a stop, and nowhere else; the names asked for after it are
those before it and those found up to there -/
structure Gen.Follows {α : Type} (action : Gen α) (findings : List Finding) : Prop where
  outcome : ∀ pass : Pass, stop? (pass.perform action).1 = Finding.firstStop findings
  asked : ∀ pass : Pass,
    (pass.perform action).2.names.asked = (Finding.requests findings).foldl remember pass.names.asked

theorem Names.lookup_isSome_iff (bound : List ((Role × String) × String)) (key : Role × String) :
    (bound.lookup key).isSome ↔ key ∈ bound.map Prod.fst := by
  induction bound with
  | nil => simp
  | cons entry rest ih =>
    obtain ⟨k, name⟩ := entry
    by_cases h : key = k
    · simp [h]
    · have hb : (key == k) = false := by simpa using h
      simp only [List.lookup_cons, hb, ih, List.map_cons, List.mem_cons, h, false_or]

theorem Names.asked_bind (names : Names) (role : Role) (user : String) :
    (names.bind role user).2.asked = remember names.asked (role, user) := by
  have hmem : (role, user) ∈ names.asked ↔ (names.binding? role user).isSome := by
    rw [binding?, lookup_isSome_iff, asked, List.map_reverse, List.mem_reverse]
  unfold bind remember
  cases hb : names.binding? role user with
  | some name => rw [if_pos (hmem.2 (by simp [hb]))]
  | none =>
    rw [if_neg (fun h => by simpa [hb] using hmem.1 h)]
    simp [asked, distinct]

namespace Gen

variable {α β : Type} {findings : List Finding}

/-- an action that neither fails nor binds a user's name meets nothing -/
theorem follows_nil {action : Gen α} (h : ∀ pass : Pass, ∃ a after, pass.perform action = (.ok a, after) ∧
    after.names.asked = pass.names.asked) : Follows action [] := by
  constructor
  · intro pass
    obtain ⟨a, after, hp, _⟩ := h pass
    rw [hp]; rfl
  · intro pass
    obtain ⟨a, after, hp, ha⟩ := h pass
    rw [hp]; exact ha

/-- only what an action does when carried out counts -/
theorem Follows.of_perform_eq {action other : Gen α} (h : Follows other findings)
    (he : ∀ pass : Pass, pass.perform action = pass.perform other) : Follows action findings :=
  ⟨fun pass => he pass ▸ h.outcome pass, fun pass => he pass ▸ h.asked pass⟩

theorem follows_pure (a : α) : Follows (pure a : Gen α) [] :=
  follows_nil fun pass => ⟨a, pass, rfl, rfl⟩

theorem follows_bind {first : Gen α} {second : α → Gen β} {found next : List Finding} (h1 : Follows first found)
    (h2 : ∀ a, Follows (second a) next) : Follows (first >>= second) (found ++ next) := by
  have key : ∀ pass : Pass, stop? (pass.perform (first >>= second)).1 = Finding.firstStop (found ++ next) ∧
      (pass.perform (first >>= second)).2.names.asked =
        (Finding.requests (found ++ next)).foldl remember pass.names.asked := by
    intro pass
    have ho := h1.outcome pass
    have ha := h1.asked pass
    rw [Pass.perform_bind, Finding.firstStop_append, Finding.requests_append, List.foldl_append]
    rcases hp : pass.perform first with ⟨outcome, after⟩
    rw [hp] at ho ha
    simp only at ho ha
    rw [← ho, ← ha]
    cases outcome with
    | ok a => simpa [stop?] using ⟨(h2 a).outcome after, (h2 a).asked after⟩
    | error cause => simp [stop?]
  exact ⟨fun pass => (key pass).1, fun pass => (key pass).2⟩

/-- a last step that only arranges the result meets nothing more -/
theorem follows_bind_pure {first : Gen α} {f : α → β} (h : Follows first findings) :
    Follows (first >>= fun a => pure (f a)) findings := by
  simpa using follows_bind h fun a => follows_pure (f a)

theorem follows_bind_nil {first : Gen α} {second : α → Gen β} (h1 : Follows first [])
    (h2 : ∀ a, Follows (second a) findings) : Follows (first >>= second) findings := by
  simpa using follows_bind h1 h2

theorem follows_nameOf (role : Role) (user : String) : Follows (nameOf role user) [.request role user] :=
  ⟨fun _ => rfl, fun pass => pass.names.asked_bind role user⟩

theorem follows_bind_error (stop : Stop GenError) (second : α → Gen β) :
    Follows (ofExcept (.error stop) >>= second) [.stop stop] := by
  constructor <;>
  · intro pass
    rw [Pass.perform_bind, Pass.perform_ofExcept]
    rfl

theorem follows_ofExcept_ok (a : α) : Follows (ofExcept (.ok a)) [] :=
  follows_nil fun _ => ⟨_, _, rfl, rfl⟩

theorem follows_within (limit n : Nat) : Follows (within limit n) (if n < limit then [] else [.stop .overflow]) := by
  constructor <;>
  · intro pass
    rw [Pass.perform_within]
    split_ifs <;> rfl

theorem follows_freshName (base : String) : Follows (freshName base) [] :=
  follows_nil fun _ => ⟨_, _, rfl, rfl⟩

theorem follows_define (key : String) (name : Option String) (source : String) : Follows (define key name source) [] :=
  follows_nil fun _ => ⟨_, _, rfl, rfl⟩

theorem follows_get : Follows (get : Gen Pass) [] :=
  follows_nil fun _ => ⟨_, _, rfl, rfl⟩

theorem follows_provide (key base : String) (source : String → String) : Follows (provide key base source) [] := by
  refine follows_bind_nil follows_get fun pass => ?_
  split
  · exact follows_pure _
  · exact follows_bind_nil (follows_freshName base) fun _ => follows_bind_pure (follows_define ..)

end Gen

open Gen

/-- the code and the chain of a block meet what a survey of it says -/
structure Emission.Follows (emission : Emission) (survey : Survey) : Prop where
  code : ∀ bare, Gen.Follows (emission.code bare) survey.own
  chain : Gen.Follows emission.chain survey.chain

/-- what is plugged into a site meets what the surveys of the slots say -/
structure Site.Follows (site : Site) (values statements : List (Nat × Survey)) : Prop where
  values : ∀ slot, Option.Rel Emission.Follows (Slots.get? slot site.values) (Slots.get? slot values)
  statements : ∀ slot, Option.Rel Emission.Follows (Slots.get? slot site.statements) (Slots.get? slot statements)

section

variable {site : Site} {values statements : List (Nat × Survey)}

theorem Site.Follows.value? (hs : site.Follows values statements) (slot : Nat) (bare : Bool) :
    Gen.Follows (site.value? slot bare) ((Visit.value slot).findings values statements) := by
  have h := hs.values slot
  simp only [Site.value?, Visit.findings]
  generalize Slots.get? slot site.values = child at h ⊢
  generalize Slots.get? slot values = survey at h ⊢
  cases h with
  | none => exact follows_pure _
  | some h => exact follows_bind_pure (h.code bare)

theorem Site.Follows.statement? (hs : site.Follows values statements) (slot : Nat) :
    Gen.Follows (site.statement? slot) ((Visit.statement slot).findings values statements) := by
  have h := hs.statements slot
  have hwithin := follows_within Slots.limit slot
  simp only [Visit.findings]
  by_cases hslot : slot < Slots.limit
  · rw [if_pos hslot] at hwithin ⊢
    refine follows_bind_nil hwithin fun _ => ?_
    generalize Slots.get? slot site.statements = child at h ⊢
    generalize Slots.get? slot statements = survey at h ⊢
    cases h with
    | none => exact follows_pure _
    | some h => exact follows_bind_pure h.chain
  · rw [if_neg hslot] at hwithin ⊢
    refine (follows_bind_error .overflow pure).of_perform_eq fun pass => ?_
    rw [Site.statement?, Pass.perform_bind, Pass.perform_within, if_neg hslot]
    rfl

theorem Site.Follows.branch (hs : site.Follows values statements) (slot : Nat) :
    Gen.Follows (site.branch slot) ((Visit.statement slot).findings values statements) := by
  rw [← List.append_nil (Visit.findings _ _ _)]
  refine follows_bind (hs.statement? slot) fun code => ?_
  split
  · exact follows_pure _
  · exact follows_bind_pure follows_get

theorem Step.follows_run (hs : site.Follows values statements) (texts : List String) (step : Step) :
    Gen.Follows (step.run site texts) (step.visits.flatMap (Visit.findings values statements)) := by
  cases step with
  | value slot bare absent =>
    rw [visits, List.flatMap_singleton]
    exact follows_bind_pure (follows_bind_pure (hs.value? slot bare))
  | branch slot =>
    rw [visits, List.flatMap_singleton]
    exact follows_bind_pure (hs.branch slot)
  | body slot =>
    rw [visits, List.flatMap_singleton]
    exact follows_bind_pure (hs.statement? slot)
  | userVariable user => exact follows_bind_pure (follows_nameOf .variable user)
  | userProcedure user => exact follows_bind_pure (follows_nameOf .procedure user)
  | fresh base => exact follows_bind_pure (follows_freshName base)
  | temporary base =>
    exact follows_bind_pure (follows_bind_nil (follows_freshName base) fun _ => follows_bind_pure (follows_define ..))
  | helper helper => exact follows_bind_pure (follows_provide ..)
  | require library => exact follows_bind_pure (follows_define ..)
  | hoist key name source => exact follows_bind_pure (follows_define ..)

theorem Step.follows_runAll (hs : site.Follows values statements) (texts : List String) (steps : List Step) :
    Gen.Follows (Step.runAll site texts steps)
      ((steps.flatMap Step.visits).flatMap (Visit.findings values statements)) := by
  induction steps generalizing texts with
  | nil => exact follows_pure _
  | cons step rest ih =>
    rw [List.flatMap_cons, List.flatMap_append]
    exact follows_bind (Step.follows_run hs texts step) fun texts => ih texts

end

/-- a block adds to its chain what it meets itself; an unknown kind is met there as well -/
theorem Head.follows_link {head : Head} {code : Bool → Gen String} {findings : List Finding}
    (h : Gen.Follows (code true) findings)
    (hk : ∀ cause, Kind.read head.kind = .error cause → findings = [.stop (.refused cause)]) :
    Gen.Follows (head.link code) findings := by
  unfold link
  cases hr : Kind.read head.kind with
  | error cause =>
    rw [hk cause hr]
    exact follows_bind_error (.refused cause) _
  | ok kind =>
    refine follows_bind_nil (follows_ofExcept_ok kind) fun kind => ?_
    rw [← List.append_nil findings]
    refine follows_bind h fun code => ?_
    split
    · exact follows_pure _
    · exact follows_bind_pure follows_get

namespace Block

/-- the blocks in slots and their surveys are found under the same numbers -/
theorem follows_slots {language : Language} {entries : List (Nat × Block)}
    (h : ∀ entry ∈ entries, (emission (.standard language) entry.2).Follows entry.2.survey) (slot : Nat) :
    Option.Rel Emission.Follows (Slots.get? slot (emissions (.standard language) entries))
      (Slots.get? slot (surveys entries)) := by
  rw [get?_emissions, surveys_eq_map, Slots.get?_map]
  cases hg : Slots.get? slot entries with
  | none => exact .none
  | some block =>
    obtain ⟨entry, he, rfl⟩ := Slots.mem_of_get? hg
    exact .some (h entry he)

/-- a block is generated, in every target, as the survey of it says -/
theorem follows_emission (language : Language) (block : Block) :
    (emission (.standard language) block).Follows block.survey := by
  induction block with
  | mk head values statements next hv hs hn =>
    have hsite : Site.Follows ⟨emissions (.standard language) values, emissions (.standard language) statements⟩
        (surveys values) (surveys statements) := ⟨follows_slots hv, follows_slots hs⟩
    have hcode : ∀ bare, Gen.Follows ((mk head values statements next).code (.standard language) bare)
        (head.findings (surveys values) (surveys statements)) := by
      intro bare
      unfold Head.findings
      cases hf : head.form with
      | error cause =>
        refine (follows_bind_error cause pure).of_perform_eq fun pass => ?_
        rw [perform_code, hf]
        rfl
      | ok form =>
        have hrun := follows_bind_pure (f := fun texts => (language.template form).render texts bare)
          (Step.follows_runAll hsite [] (language.template form).steps)
        rw [steps_visits] at hrun
        refine hrun.of_perform_eq fun pass => ?_
        rw [perform_code, hf]
        rfl
    refine ⟨hcode, ?_⟩
    have hlink : Gen.Follows (head.link ((mk head values statements next).code (.standard language)))
        (head.findings (surveys values) (surveys statements)) := by
      refine Head.follows_link (hcode true) fun cause hc => ?_
      simp [Head.findings, Head.form, hc, Stop.refusing, bind, Except.bind]
    refine follows_bind hlink fun own => follows_bind_pure ?_
    cases next with
    | none => exact follows_pure _
    | some below => exact (hn below rfl).chain

/-- a whole workspace is generated, in every target, as the survey of it says -/
theorem follows_chainsCode (language : Language) (blocks : List Block) :
    Gen.Follows (chainsCode (.standard language) blocks) (findings blocks) := by
  induction blocks with
  | nil => exact follows_pure _
  | cons block rest ih =>
    exact follows_bind (block.follows_emission language).chain fun _ => follows_bind_pure ih

end Block

/-! ## Visited blocks -/

namespace Block

/-- the blocks that are visited when a block is generated, with the chain below it or without -/
inductive Visits : Bool → Block → Block → Prop
  | self {chain : Bool} {block : Block} : Visits chain block block
  | value {chain : Bool} {head : Head} {values statements : List (Nat × Block)} {next : Option Block} {form : Form}
      {slot : Nat} {child other : Block} : head.form = .ok form → .value slot ∈ form.visits →
      Slots.get? slot values = some child → Visits false child other →
      Visits chain (mk head values statements next) other
  | statement {chain : Bool} {head : Head} {values statements : List (Nat × Block)} {next : Option Block} {form : Form}
      {slot : Nat} {child other : Block} : head.form = .ok form → .statement slot ∈ form.visits →
      slot < Slots.limit → Slots.get? slot statements = some child → Visits true child other →
      Visits chain (mk head values statements next) other
  | next {head : Head} {values statements : List (Nat × Block)} {below other : Block} : Visits true below other →
      Visits true (mk head values statements (some below)) other

end Block

/-- a block with this data stops a run: it cannot be read, or it visits a slot that has no number -/
inductive Head.Stops (head : Head) : Stop GenError → Prop
  | unread {reason : Stop GenError} : head.form = .error reason → Stops head reason
  | unnumbered {form : Form} {slot : Nat} : head.form = .ok form → .statement slot ∈ form.visits →
      Slots.limit ≤ slot → Stops head .overflow

namespace Block

end Block

/-- the blocks that are visited in a workspace -/
def Workspace.Visits (blocks : List Block) (block : Block) : Prop :=
  ∃ top ∈ blocks, Block.Visits true top block

/-- a result of a mapped outcome is one of the map -/
theorem exists_of_map_eq_ok {α : Type} {make : α → Form} {outcome : Except GenError α} {form : Form}
    (h : make <$> outcome = .ok form) : ∃ a, make a = form := by
  cases outcome with
  | error cause => cases h
  | ok a => exact ⟨a, Except.ok.inj h⟩

theorem select_error {α : Type} {kind : Kind} {ofToken? : String → Option α} {token : Option String}
    {cause : GenError} (h : select kind ofToken? token = .error cause) :
    cause = .unknownSelector kind (token.getD "") := by
  unfold select at h
  split at h
  · cases h
  · exact (Except.error.inj h).symm

/-- a block of a known kind is refused for its choice -/
theorem Form.read_error {kind : Kind} {head : Head} {cause : GenError} (h : Form.read kind head = .error cause) :
    ∃ kind token, cause = .unknownSelector kind token := by
  have of_select : ∀ {α : Type} {make : α → Form} {ofToken? : String → Option α} {k : Kind} {token : Option String},
      make <$> select k ofToken? token = .error cause → ∃ kind token, cause = .unknownSelector kind token := by
    intro α make ofToken? k token hs
    cases hc : select k ofToken? token with
    | ok choice => rw [hc] at hs; cases hs
    | error other => rw [hc] at hs; cases hs; exact ⟨_, _, select_error hc⟩
  cases kind <;> first | cases h | exact of_select h

theorem Kind.read_error {name : String} {cause : GenError} (h : Kind.read name = .error cause) :
    cause = .unknownKind name := by
  unfold Kind.read at h
  split at h
  · cases h
  · exact (Except.error.inj h).symm

theorem Form.readWithin_error {kind : Kind} {head : Head} {reason : Stop GenError}
    (h : readWithin kind head = .error reason) :
    (∃ cause, read kind head = .error cause ∧ reason = .refused cause) ∨
      reason = .overflow ∧ ∃ form, read kind head = .ok form ∧ roomLimit ≤ form.room := by
  unfold readWithin at h
  cases hread : read kind head with
  | error cause =>
    rw [hread] at h
    exact .inl ⟨cause, rfl, (Except.error.inj h).symm⟩
  | ok form =>
    rw [hread] at h
    simp only [Stop.refusing, bind, Except.bind] at h
    split_ifs at h with hroom
    · cases h
    · exact .inr ⟨(Except.error.inj h).symm, form, rfl, not_lt.1 hroom⟩

theorem Form.last_slot_mem_visits (elseifs : Nat) (otherwise : Bool) :
    .statement (elseifs + if otherwise then 1 else 0) ∈ (Form.choice elseifs otherwise).visits := by
  cases otherwise <;> simp [visits]

/-- a block at which a run overflows: a join of more items than a list can hold, at twenty-four bytes an item, or a
choice with so many branches that the last of their slots has no number of 64 bits -/
inductive Head.Overflows (head : Head) : Prop
  | join : head.kind = "text_join" → 2 ^ 63 - 1 < 24 * head.items → Overflows head
  | choice : head.kind = "controls_if" → 2 ^ 64 - 1 < head.elseifs + (if 0 < head.otherwise then 1 else 0) →
      Overflows head

namespace Head

variable {head : Head}

/-- a block that cannot be read is of no known kind, or has data that its kind cannot read -/
theorem form_error {reason : Stop GenError} (h : head.form = .error reason) :
    (∃ cause, Kind.read head.kind = .error cause ∧ reason = .refused cause) ∨
      ∃ kind, Kind.read head.kind = .ok kind ∧ Form.readWithin kind head = .error reason := by
  unfold form at h
  cases hkind : Kind.read head.kind with
  | error cause =>
    rw [hkind] at h
    exact .inl ⟨cause, rfl, (Except.error.inj h).symm⟩
  | ok kind =>
    rw [hkind] at h
    exact .inr ⟨kind, rfl, h⟩

/-- a block that is refused is of no known kind, or its choice is none that its kind knows -/
theorem Stops.refused {cause : GenError} (h : head.Stops (.refused cause)) :
    (∃ name, cause = .unknownKind name) ∨ ∃ kind token, cause = .unknownSelector kind token := by
  cases h with
  | unread hform =>
    rcases form_error hform with ⟨other, hkind, hcause⟩ | ⟨kind, -, hwithin⟩
    · obtain rfl := Stop.refused.inj hcause
      exact .inl ⟨_, Kind.read_error hkind⟩
    · rcases Form.readWithin_error hwithin with ⟨other, hread, hcause⟩ | ⟨hcause, -⟩
      · obtain rfl := Stop.refused.inj hcause
        exact .inr (Form.read_error hread)
      · cases hcause

theorem Overflows.stops (h : head.Overflows) : head.Stops .overflow := by
  cases h with
  | join hkind hover =>
    have hread : Kind.read head.kind = .ok .join := hkind ▸ rfl
    have hroom : ¬(Form.join head.items).room < Form.roomLimit := by
      have hlimit : Form.roomLimit = 2 ^ 63 := rfl
      rw [Form.room, if_pos (by omega)]
      omega
    refine .unread ?_
    simp only [form, hread, Stop.refusing, bind, Except.bind, Form.readWithin, Form.read, if_neg hroom]
  | choice hkind hover =>
    have hread : Kind.read head.kind = .ok .choice := hkind ▸ rfl
    have hslots : Slots.limit = 2 ^ 64 := rfl
    have hform : head.form = .ok (.choice head.elseifs (0 < head.otherwise)) := by
      rw [form, hread]
      rfl
    refine .unnumbered hform (Form.last_slot_mem_visits ..) ?_
    simp only [decide_eq_true_eq]
    omega

end Head

/-! ## Whole programs -/

theorem generate_error_iff (language : Language) (blocks : List Block) (reason : Stop GenError) :
    generate language blocks = .error reason ↔ Finding.firstStop (Block.findings blocks) = some reason := by
  have ho := (Block.follows_chainsCode language blocks).outcome (.start language)
  rw [← ho, generate_eq]
  change _ ↔ stop? (programRun language blocks).1 = some reason
  cases (programRun language blocks).1 <;> simp [Except.map, stop?]

theorem generate_error_congr {language : Language} (other : Language) {blocks : List Block} {reason : Stop GenError}
    (h : generate language blocks = .error reason) : generate other blocks = .error reason :=
  (generate_error_iff other blocks reason).2 ((generate_error_iff language blocks reason).1 h)

/-- a workspace that one target generates is generated by all -/
theorem generate_ok_of_ok (other : Language) {language : Language} {blocks : List Block} {program : String}
    (h : generate language blocks = .ok program) : ∃ program', generate other blocks = .ok program' := by
  cases hother : generate other blocks with
  | ok program' => exact ⟨program', rfl⟩
  | error reason => cases h.symm.trans (generate_error_congr language hother)

/-- the names that a run has asked for at its end, whether it succeeds or not -/
theorem programRun_asked (language : Language) (blocks : List Block) :
    (programRun language blocks).2.names.asked = firstUses (Finding.requests (Block.findings blocks)) :=
  (Block.follows_chainsCode language blocks).asked (.start language)

end Blockwork
