/-
What happens while a program is generated, as a chronicle of events.

- `Event`, `Block.chronicle`, `programChronicle`: the events of a run in the order in which they happen. A step of
  a template leaves a text, a block is generated, a chain is generated. The states in between are those of the
  run itself.
- `Happens`: everything that can happen next, once and for all, with what must have happened before it: a value is
  the code of a block generated before or the text that stands in for none, a name is what the allocator
  answers, code is laid out from the texts left by all steps of its template.
- `Block.tells_chainsCode`: every run unfolds in this way, event by event, whether it succeeds or not.

So a property of states and chronicles that each single event keeps (`Unfolds.keeps`) holds of whole programs,
of every fragment of code generated on the way and of everything hoisted.
-/
import Blockwork.Proofs.Perform

namespace Blockwork

/-! ## Events -/

/-- something that happens while code is generated -/
inductive Event
  /-- a step in the template of a construct left a text -/
  | left (form : Form) (step : Step) (text : String)
  /-- a block was generated: the construct it stands for, the texts left by the steps of its template, and its
  code -/
  | code (form : Form) (bare : Bool) (texts : List String) (text : String)
  /-- a chain was generated -/
  | chain (text : String)
  deriving DecidableEq

/-- what happens while a block, or the chain that starts with it, is generated from a state -/
structure Chronicle where
  code : Bool → Pass → List Event
  chain : Pass → List Event

/-- what happens after an action, if it succeeds -/
def Pass.afterwards {α : Type} (pass : Pass) (action : Gen α) (next : α → Pass → List Event) : List Event :=
  match pass.perform action with
  | (.ok a, after) => next a after
  | (.error _, _) => []

theorem Pass.afterwards_ok {α : Type} {pass after : Pass} {action : Gen α} {a : α}
    (h : pass.perform action = (.ok a, after)) (next : α → Pass → List Event) :
    pass.afterwards action next = next a after := by
  rw [afterwards, h]

/-- what happens in a statement slot: nothing, if it has no number -/
def Chronicle.inSlot (statements : List (Nat × Chronicle)) (slot : Nat) (pass : Pass) : List Event :=
  if slot < Slots.limit then ((Slots.get? slot statements).map fun first => first.chain pass).getD [] else []

/-- what happens in the slot that a step visits -/
def Step.inner (values statements : List (Nat × Chronicle)) (pass : Pass) : Step → List Event
  | value slot bare _ => ((Slots.get? slot values).map fun child => child.code bare pass).getD []
  | branch slot => Chronicle.inSlot statements slot pass
  | body slot => Chronicle.inSlot statements slot pass
  | _ => []

/-- what happens while steps of a construct's template are carried out -/
def Step.chronicle (form : Form) (site : Site) (values statements : List (Nat × Chronicle)) :
    List String → List Step → Pass → List Event
  | _, [], _ => []
  | texts, step :: rest, pass =>
    step.inner values statements pass ++
      pass.afterwards (step.run site texts) fun texts' after =>
        (texts'.drop texts.length).map (.left form step) ++ chronicle form site values statements texts' rest after

/-- what happens while a block with this data is generated -/
def Head.chronicle (language : Language) (head : Head) (site : Site) (values statements : List (Nat × Chronicle))
    (bare : Bool) (pass : Pass) : List Event :=
  match head.form with
  | .error _ => []
  | .ok form =>
    Step.chronicle form site values statements [] (language.template form).steps pass ++
      pass.afterwards (Step.runAll site [] (language.template form).steps) fun texts _ =>
        [.code form bare texts ((language.template form).render texts bare)]

namespace Block

mutual

/-- what happens while a block is generated -/
def chronicle (language : Language) : Block → Chronicle
  | mk head values statements next =>
    let block := mk head values statements next
    let code := head.chronicle language (block.site (.standard language)) (chronicles language values)
      (chronicles language statements)
    { code
      chain := fun pass =>
        code true pass ++
          (pass.afterwards (head.link (block.code (.standard language))) fun _ after =>
            nextEvents language next after) ++
          pass.afterwards (block.chainCode (.standard language)) fun text _ => [.chain text] }

def chronicles (language : Language) : List (Nat × Block) → List (Nat × Chronicle)
  | [] => []
  | (slot, block) :: rest => (slot, chronicle language block) :: chronicles language rest

def nextEvents (language : Language) : Option Block → Pass → List Event
  | none, _ => []
  | some block, pass => (chronicle language block).chain pass

end

def chainsEvents (language : Language) : List Block → Pass → List Event
  | [], _ => []
  | block :: rest, pass =>
    (chronicle language block).chain pass ++
      pass.afterwards (block.chainCode (.standard language)) fun _ after => chainsEvents language rest after

theorem chain_eq (table : Table) (head : Head) (values statements : List (Nat × Block)) (next : Option Block) :
    (emission table (mk head values statements next)).chain =
      (do
        let own ← head.link ((mk head values statements next).code table)
        let rest ← nextChain table next
        pure (own ++ rest)) := rfl

/-- the events of a block whose steps are all carried out: those of the steps, and then its code -/
theorem chronicle_code {language : Language} {head : Head} {values statements : List (Nat × Block)} {form : Form}
    {pass after : Pass} {texts : List String} (next : Option Block) (bare : Bool) (hf : head.form = .ok form)
    (hr : pass.perform (Step.runAll ⟨emissions (.standard language) values, emissions (.standard language) statements⟩ []
      (language.template form).steps) = (.ok texts, after)) :
    (chronicle language (mk head values statements next)).code bare pass =
      Step.chronicle form ⟨emissions (.standard language) values, emissions (.standard language) statements⟩
          (chronicles language values) (chronicles language statements) [] (language.template form).steps pass ++
        [.code form bare texts ((language.template form).render texts bare)] := by
  simp only [chronicle, Head.chronicle, hf, site, Block.values, Block.statements, Pass.afterwards_ok hr]

theorem chronicle_chain (language : Language) (head : Head) (values statements : List (Nat × Block))
    (next : Option Block) (pass : Pass) :
    (chronicle language (mk head values statements next)).chain pass =
      (chronicle language (mk head values statements next)).code true pass ++
        (pass.afterwards (head.link ((mk head values statements next).code (.standard language))) fun _ after =>
          nextEvents language next after) ++
        pass.afterwards ((mk head values statements next).chainCode (.standard language)) fun text _ =>
          [.chain text] := rfl

theorem chronicles_eq_map (language : Language) (entries : List (Nat × Block)) :
    chronicles language entries = entries.map fun entry => (entry.1, chronicle language entry.2) := by
  induction entries with
  | nil => rfl
  | cons entry rest ih => simp [chronicles, ih]

end Block

def programChronicle (language : Language) (blocks : List Block) : List Event :=
  Block.chainsEvents language blocks (.start language)

/-! ## What can happen -/

/-- whether a step leaves a text -/
def Step.leavesText : Step → Bool
  | require _ => false
  | hoist _ _ _ => false
  | _ => true

def Form.isStatement : Form → Bool
  | change _ => true
  | print => true
  | choice _ _ => true
  | loop _ => true
  | count _ => true
  | forEach _ => true
  | jump _ => true
  | procedure _ => true
  | set _ => true
  | _ => false

/-- what a construct's code adds to a chain -/
def Form.line (form : Form) (language : Language) (code : String) : String :=
  if form.isStatement || code.isEmpty then code else language.expressionStatement code

/-- the steps of a template that have been carried out: each that leaves a text has left the text in its place,
and each library asked for is there -/
structure Done (log : List Event) (pass : Pass) (form : Form) (steps : List Step) (texts : List String) : Prop where
  left : List.Forall₂ (fun step text => .left form step text ∈ log) (steps.filter Step.leavesText) texts
  required : ∀ library, .require library ∈ steps → pass.registry.contains library.key

/-- the text of the step carried out last, if it left one, is the latest event -/
def Latest (log : List Event) (form : Form) (steps : List Step) (texts : List String) : Prop :=
  ∀ step, steps.getLast? = some step → step.leavesText →
    ∃ text, texts.getLast? = some text ∧ log.getLast? = some (.left form step text)

/-- what carrying out a step can do in a state, after the events of `log` and with the texts of the steps before
it: the texts it leaves, none or one, and the state after it -/
inductive Step.Does (language : Language) (log : List Event) (pass : Pass) (texts : List String) :
    Step → List String → Pass → Prop
  | absent {slot : Nat} {bare : Bool} {text : String} : Does language log pass texts (.value slot bare text) [text] pass
  | value {slot : Nat} {bare : Bool} {absent text : String} {form : Form} {used : List String} :
      .code form bare used text ∈ log → text ≠ "" →
      Does language log pass texts (.value slot bare absent) [text] pass
  | noop {slot : Nat} :
      Does language log pass texts (.branch slot) [Text.indentation ++ language.noop ++ "\n"] pass
  | branch {slot : Nat} {code : String} : .chain code ∈ log → code ≠ "" →
      Does language log pass texts (.branch slot) [Text.prefixLines code Text.indentation] pass
  | nobody {slot : Nat} : Does language log pass texts (.body slot) [""] pass
  | body {slot : Nat} {code : String} : .chain code ∈ log → code ≠ "" →
      Does language log pass texts (.body slot) [Text.prefixLines code Text.indentation] pass
  | userVariable {user : String} :
      Does language log pass texts (.userVariable user) [(pass.names.bind .variable user).1]
        { pass with names := (pass.names.bind .variable user).2 }
  | userProcedure {user : String} :
      Does language log pass texts (.userProcedure user) [(pass.names.bind .procedure user).1]
        { pass with names := (pass.names.bind .procedure user).2 }
  | fresh {base : String} :
      Does language log pass texts (.fresh base) [(pass.names.distinct base).1]
        { pass with names := (pass.names.distinct base).2 }
  | temporary {base name : String} : (pass.names.distinct base).1 = name →
      Does language log pass texts (.temporary base) [name]
        { pass with
          names := (pass.names.distinct base).2
          registry := (pass.registry.request ("temp_" ++ name) fun _ => (some name, "var " ++ name ++ ";")).2 }
  | helper {helper : Helper} {definition : Definition} : pass.registry.find? helper.key = some definition →
      Does language log pass texts (.helper helper) [definition.name.getD ""] pass
  | firstHelper {helper : Helper} {name : String} : pass.registry.find? helper.key = none →
      (pass.names.distinct helper.key).1 = name →
      Does language log pass texts (.helper helper) [name]
        { pass with
          names := (pass.names.distinct helper.key).2
          registry := (pass.registry.request helper.key fun _ => (some name, helper.source name)).2 }
  | require {library : Library} :
      Does language log pass texts (.require library) []
        { pass with registry := (pass.registry.request library.key fun _ => (none, library.source)).2 }
  | hoist {key : String} {name : Nat} {source : List Piece} :
      Does language log pass texts (.hoist key name source) []
        { pass with
          registry := (pass.registry.request (key ++ Piece.textAt texts name) fun _ =>
            (some (Piece.textAt texts name), Piece.renderAll texts source)).2 }

/-- what can happen next, after the events of `log` and in a state: the events then, and the state then -/
inductive Happens (language : Language) (log : List Event) (pass : Pass) : List Event → Pass → Prop
  | step {form : Form} {before rest : List Step} {step : Step} {texts left : List String} {after : Pass} :
      (language.template form).steps = before ++ step :: rest → Done log pass form before texts →
      step.Does language log pass texts left after →
      Happens language log pass (log ++ left.map (.left form step)) after
  | code {form : Form} {texts : List String} (bare : Bool) :
      Done log pass form (language.template form).steps texts → Latest log form (language.template form).steps texts →
      Happens language log pass (log ++ [.code form bare texts ((language.template form).render texts bare)]) pass
  | chain {form : Form} {texts : List String} {code rest : String} : .code form true texts code ∈ log →
      (rest = "" ∨ .chain rest ∈ log) →
      Happens language log pass (log ++ [.chain (form.line language code ++ rest)]) pass

/-- one thing after the other -/
inductive Unfolds (language : Language) (log : List Event) (pass : Pass) : List Event → Pass → Prop
  | refl : Unfolds language log pass log pass
  | next {log' log'' : List Event} {pass' pass'' : Pass} : Unfolds language log pass log' pass' →
      Happens language log' pass' log'' pass'' → Unfolds language log pass log'' pass''

/-! ## What stays -/

namespace Registry

theorem contains_iff (registry : Registry) (key : String) :
    registry.contains key ↔ ∃ definition ∈ registry.entries, definition.key = key := by
  simp [contains_eq, find?_eq]

/-- a request writes a definition or changes nothing -/
theorem entries_request (registry : Registry) (key : String) (name : Option String) (source : String) :
    (registry.request key fun _ => (name, source)).2.entries =
      if registry.contains key then registry.entries else registry.entries ++ [⟨key, name, source⟩] := by
  rw [contains_eq]
  cases h : registry.find? key with
  | some definition => rw [request_of_some h]; rfl
  | none => rw [request_of_none h]; rfl

theorem entries_prefix_request (registry : Registry) (key : String) (name : Option String) (source : String) :
    registry.entries <+: (registry.request key fun _ => (name, source)).2.entries := by
  rw [entries_request]
  split_ifs
  · exact List.prefix_rfl
  · exact List.prefix_append _ _

theorem contains_of_prefix {registry later : Registry} (h : registry.entries <+: later.entries) {key : String}
    (hc : registry.contains key) : later.contains key := by
  rw [contains_iff] at hc ⊢
  obtain ⟨definition, hm, hk⟩ := hc
  exact ⟨definition, h.subset hm, hk⟩

theorem contains_request (registry : Registry) (key : String) (name : Option String) (source : String) :
    (registry.request key fun _ => (name, source)).2.contains key := by
  rw [contains_iff, entries_request]
  split_ifs with h
  · exact (contains_iff _ _).1 h
  · exact ⟨_, List.mem_append_right _ List.mem_cons_self, rfl⟩

end Registry

section

variable {language : Language} {log log' : List Event} {pass pass' after : Pass} {form : Form}
  {texts left : List String} {step : Step}

theorem Step.Does.entries_prefix (h : step.Does language log pass texts left after) :
    pass.registry.entries <+: after.registry.entries := by
  cases h with
  | temporary _ => exact Registry.entries_prefix_request _ _ _ _
  | firstHelper _ _ => exact Registry.entries_prefix_request _ _ _ _
  | require => exact Registry.entries_prefix_request _ _ _ _
  | hoist => exact Registry.entries_prefix_request _ _ _ _
  | _ => exact List.prefix_rfl

theorem Step.Does.language_eq (h : step.Does language log pass texts left after) : after.language = pass.language := by
  cases h <;> rfl

/-- a step leaves one text or, if it only hoists, none -/
theorem Step.Does.left_eq (h : step.Does language log pass texts left after) :
    (step.leavesText = true ∧ ∃ text, left = [text]) ∨ (step.leavesText = false ∧ left = []) := by
  cases h with
  | require => exact .inr ⟨rfl, rfl⟩
  | hoist => exact .inr ⟨rfl, rfl⟩
  | _ => exact .inl ⟨rfl, _, rfl⟩

namespace Happens

theorem entries_prefix (h : Happens language log pass log' pass') :
    pass.registry.entries <+: pass'.registry.entries := by
  cases h with
  | step _ _ hdoes => exact hdoes.entries_prefix
  | _ => exact List.prefix_rfl

theorem language_eq (h : Happens language log pass log' pass') : pass'.language = pass.language := by
  cases h with
  | step _ _ hdoes => exact hdoes.language_eq
  | _ => rfl

theorem log_prefix (h : Happens language log pass log' pass') : log <+: log' := by
  cases h <;> exact List.prefix_append _ _

end Happens

namespace Unfolds

theorem trans {log'' : List Event} {pass'' : Pass} (h : Unfolds language log pass log' pass')
    (h' : Unfolds language log' pass' log'' pass'') : Unfolds language log pass log'' pass'' := by
  induction h' with
  | refl => exact h
  | next _ hh ih => exact .next ih hh

/-- **What each event keeps, a whole run keeps.** -/
theorem keeps (inv : List Event → Pass → Prop) (h : Unfolds language log pass log' pass') (hi : inv log pass)
    (hstep : ∀ {log pass log' pass'}, Happens language log pass log' pass' → inv log pass → inv log' pass') :
    inv log' pass' := by
  induction h with
  | refl => exact hi
  | next _ hh ih => exact hstep hh ih

theorem entries_prefix (h : Unfolds language log pass log' pass') :
    pass.registry.entries <+: pass'.registry.entries :=
  h.keeps (fun _ later => pass.registry.entries <+: later.registry.entries) List.prefix_rfl
    fun hh hp => hp.trans hh.entries_prefix

theorem language_eq (h : Unfolds language log pass log' pass') : pass'.language = pass.language :=
  h.keeps (fun _ later => later.language = pass.language) rfl fun hh hp => hh.language_eq.trans hp

end Unfolds

namespace Done

variable {steps : List Step}

theorem nil (log : List Event) (pass : Pass) (form : Form) : Done log pass form [] [] :=
  ⟨.nil, fun _ h => nomatch h⟩

theorem mono (h : Done log pass form steps texts) (hlog : log ⊆ log')
    (hentries : pass.registry.entries <+: pass'.registry.entries) : Done log' pass' form steps texts :=
  ⟨h.left.imp fun _ _ hm => hlog hm, fun library hm => Registry.contains_of_prefix hentries (h.required library hm)⟩

theorem text_mem (h : Done log pass form steps texts) {text : String} (hm : text ∈ texts) :
    ∃ step, .left form step text ∈ log := by
  obtain ⟨hlength, hzip⟩ := List.forall₂_iff_zip.1 h.left
  have hsecond : ((steps.filter Step.leavesText).zip texts).map Prod.snd = texts := List.map_snd_zip hlength.ge
  rw [← hsecond] at hm
  obtain ⟨⟨step, _⟩, hplaced, rfl⟩ := List.mem_map.1 hm
  exact ⟨step, hzip hplaced⟩

theorem snoc (h : Done log pass form steps texts) (hdoes : step.Does language log pass texts left after) :
    Done (log ++ left.map (.left form step)) after form (steps ++ [step]) (texts ++ left) := by
  have hold : Done (log ++ left.map (.left form step)) after form steps texts :=
    h.mono (List.subset_append_left _ _) hdoes.entries_prefix
  constructor
  · rw [List.filter_append]
    rcases hdoes.left_eq with ⟨hl, text, rfl⟩ | ⟨hl, rfl⟩
    · rw [List.filter_cons_of_pos hl]
      exact List.rel_append hold.left (.cons (List.mem_append_right _ List.mem_cons_self) .nil)
    · rw [List.filter_cons_of_neg (by simp [hl])]
      simpa using hold.left
  · intro library hm
    rcases List.mem_append.1 hm with hm | hm
    · exact hold.required library hm
    · obtain rfl := List.mem_singleton.1 hm
      cases hdoes
      exact Registry.contains_request _ _ _ _

end Done

namespace Latest

theorem nil (log : List Event) (form : Form) : Latest log form [] [] :=
  fun _ h => nomatch h

theorem snoc (steps : List Step) (hdoes : step.Does language log pass texts left after) :
    Latest (log ++ left.map (.left form step)) form (steps ++ [step]) (texts ++ left) := by
  intro last hl hleaves
  rw [List.getLast?_concat] at hl
  obtain rfl := Option.some.inj hl
  rcases hdoes.left_eq with ⟨-, text, rfl⟩ | ⟨hnone, -⟩
  · exact ⟨text, List.getLast?_concat, List.getLast?_concat⟩
  · rw [hnone] at hleaves
    cases hleaves

end Latest

end

/-! ## Runs unfold -/

/-- an action whose events, from any state and after any others, are among those that can happen; what it yields is
as `post` says of the events by then -/
def Gen.Tells {α : Type} (language : Language) (action : Gen α) (events : Pass → List Event)
    (post : List Event → α → Prop) : Prop :=
  ∀ (log : List Event) (pass : Pass), pass.language = language →
    Unfolds language log pass (log ++ events pass) (pass.perform action).2 ∧
      ∀ a, (pass.perform action).1 = .ok a → post (log ++ events pass) a

namespace Gen

variable {α β : Type} {language : Language} {post : List Event → α → Prop} {post' : List Event → β → Prop}

theorem tells_pure {a : α} (h : ∀ log, post log a) : Tells language (pure a) (fun _ => []) post := by
  intro log pass _
  rw [List.append_nil]
  refine ⟨.refl, ?_⟩
  rintro _ ⟨⟩
  exact h log

/-- nothing happens where a number outgrows its limit -/
theorem tells_within {limit n : Nat} {events : Pass → List Event} {action : Gen α}
    (h : n < limit → Tells language action events post) :
    Tells language (within limit n >>= fun _ => action) (fun pass => if n < limit then events pass else [])
      post := by
  intro log pass hp
  rw [Pass.perform_bind, Pass.perform_within]
  split_ifs with hn
  · exact h hn log pass hp
  · rw [List.append_nil]
    exact ⟨.refl, fun _ h => nomatch h⟩

theorem Tells.bind_pure {action : Gen α} {events : Pass → List Event} {f : α → β}
    (h : Tells language action events post) (hf : ∀ log a, post log a → post' log (f a)) :
    Tells language (action >>= fun a => pure (f a)) events post' := by
  intro log pass hp
  obtain ⟨hunfolds, hpost⟩ := h log pass hp
  rw [Pass.perform_bind]
  rcases hr : pass.perform action with ⟨outcome, after⟩
  rw [hr] at hunfolds hpost
  cases outcome with
  | error cause => exact ⟨hunfolds, fun _ h => nomatch h⟩
  | ok a =>
    refine ⟨hunfolds, ?_⟩
    rintro _ ⟨⟩
    exact hf _ a (hpost a rfl)

end Gen

/-- a block that is generated as a chronicle tells -/
structure Emission.Tells (language : Language) (emission : Emission) (chronicle : Chronicle) : Prop where
  code : ∀ bare, Gen.Tells language (emission.code bare) (chronicle.code bare) fun log text =>
    ∃ form texts, .code form bare texts text ∈ log
  chain : Gen.Tells language emission.chain chronicle.chain fun log text => .chain text ∈ log

structure Site.Tells (language : Language) (site : Site) (values statements : List (Nat × Chronicle)) : Prop where
  values : ∀ slot, Option.Rel (Emission.Tells language) (Slots.get? slot site.values) (Slots.get? slot values)
  statements : ∀ slot,
    Option.Rel (Emission.Tells language) (Slots.get? slot site.statements) (Slots.get? slot statements)

section

variable {language : Language} {site : Site} {values statements : List (Nat × Chronicle)} {log : List Event}
  {pass : Pass} {form : Form} {texts : List String}

/-- a value slot gives the code of a block, unless it is empty -/
theorem Site.Tells.value? (hs : site.Tells language values statements) (slot : Nat) (bare : Bool) :
    Gen.Tells language (site.value? slot bare)
      (fun pass => ((Slots.get? slot values).map fun child => child.code bare pass).getD [])
      fun log found => ∀ text ∈ found, text ≠ "" ∧ ∃ form texts, .code form bare texts text ∈ log := by
  have h := hs.values slot
  unfold Site.value?
  generalize Slots.get? slot site.values = child at h ⊢
  generalize Slots.get? slot values = chronicle at h ⊢
  cases h with
  | none => exact Gen.tells_pure fun _ _ ht => nomatch ht
  | some h =>
    refine (h.code bare).bind_pure fun log code hcode text ht => ?_
    split_ifs at ht with he
    · cases ht
    · obtain rfl := Option.some.inj ht
      exact ⟨fun h => he (by rw [h]; rfl), hcode⟩

/-- a statement slot gives the indented code of a chain, unless it is empty -/
theorem Site.Tells.statement? (hs : site.Tells language values statements) (slot : Nat) :
    Gen.Tells language (site.statement? slot) (Chronicle.inSlot statements slot)
      fun log found => ∀ text ∈ found, ∃ code, .chain code ∈ log ∧ code ≠ "" ∧
        text = Text.prefixLines code Text.indentation := by
  refine Gen.tells_within fun hslot => ?_
  have h := hs.statements slot
  generalize Slots.get? slot site.statements = child at h ⊢
  generalize Slots.get? slot statements = chronicle at h ⊢
  cases h with
  | none => exact Gen.tells_pure fun _ _ ht => nomatch ht
  | some h =>
    refine h.chain.bind_pure fun log code hcode text ht => ?_
    split_ifs at ht with he
    · cases ht
    · obtain rfl := Option.some.inj ht
      exact ⟨code, hcode, fun h => he (by rw [h]; rfl), rfl⟩

/-- a step first lets happen what happens in the slot it visits, if it visits one; then it fails as that fails, or
does what a step of its kind can do -/
theorem Step.tells_run (hs : site.Tells language values statements) (log : List Event) (texts : List String)
    (step : Step) (pass : Pass) (hp : pass.language = language) :
    ∃ visited, Unfolds language log pass (log ++ step.inner values statements pass) visited ∧
      ((∃ cause, pass.perform (step.run site texts) = (.error cause, visited)) ∨
        ∃ left after, pass.perform (step.run site texts) = (.ok (texts ++ left), after) ∧
          step.Does language (log ++ step.inner values statements pass) visited texts left after) := by
  have hquiet : Unfolds language log pass (log ++ []) pass := by
    rw [List.append_nil]
    exact .refl
  cases step with
  | value slot bare absent =>
    obtain ⟨hunfolds, hfound⟩ := hs.value? slot bare log pass hp
    simp only [run, Site.value, Pass.perform_bind]
    generalize pass.perform (site.value? slot bare) = run at hunfolds hfound ⊢
    rcases run with ⟨cause | found, visited⟩
    · exact ⟨visited, hunfolds, .inl ⟨cause, rfl⟩⟩
    · refine ⟨visited, hunfolds, .inr ⟨_, _, rfl, ?_⟩⟩
      cases found with
      | none => exact .absent
      | some text =>
        obtain ⟨hne, form, used, hcode⟩ := hfound _ rfl text rfl
        exact .value hcode hne
  | branch slot =>
    obtain ⟨hunfolds, hfound⟩ := hs.statement? slot log pass hp
    have hlanguage := hunfolds.language_eq.trans hp
    simp only [run, Site.branch, Pass.perform_bind]
    generalize pass.perform (site.statement? slot) = run at hunfolds hfound hlanguage ⊢
    rcases run with ⟨cause | found, visited⟩
    · exact ⟨visited, hunfolds, .inl ⟨cause, rfl⟩⟩
    · refine ⟨visited, hunfolds, .inr ?_⟩
      cases found with
      | none =>
        refine ⟨_, _, rfl, ?_⟩
        rw [hlanguage]
        exact .noop
      | some text =>
        obtain ⟨code, hchain, hne, rfl⟩ := hfound _ rfl text rfl
        exact ⟨_, _, rfl, .branch hchain hne⟩
  | body slot =>
    obtain ⟨hunfolds, hfound⟩ := hs.statement? slot log pass hp
    simp only [run, Pass.perform_bind]
    generalize pass.perform (site.statement? slot) = run at hunfolds hfound ⊢
    rcases run with ⟨cause | found, visited⟩
    · exact ⟨visited, hunfolds, .inl ⟨cause, rfl⟩⟩
    · refine ⟨visited, hunfolds, .inr ⟨_, _, rfl, ?_⟩⟩
      cases found with
      | none => exact .nobody
      | some text =>
        obtain ⟨code, hchain, hne, rfl⟩ := hfound _ rfl text rfl
        exact .body hchain hne
  | userVariable user => exact ⟨pass, hquiet, .inr ⟨_, _, rfl, .userVariable⟩⟩
  | userProcedure user => exact ⟨pass, hquiet, .inr ⟨_, _, rfl, .userProcedure⟩⟩
  | fresh base => exact ⟨pass, hquiet, .inr ⟨_, _, rfl, .fresh⟩⟩
  | temporary base => exact ⟨pass, hquiet, .inr ⟨_, _, rfl, .temporary rfl⟩⟩
  | helper helper =>
    refine ⟨pass, hquiet, .inr ?_⟩
    simp only [run, Gen.provide, Pass.perform_bind, Pass.perform_get]
    cases hf : pass.registry.find? helper.key with
    | some definition => exact ⟨_, _, rfl, .helper hf⟩
    | none => exact ⟨_, _, rfl, .firstHelper hf rfl⟩
  | require library => exact ⟨pass, hquiet, .inr ⟨[], _, by rw [List.append_nil]; rfl, .require⟩⟩
  | hoist key name source => exact ⟨pass, hquiet, .inr ⟨[], _, by rw [List.append_nil]; rfl, .hoist⟩⟩

/-- **The steps of a template unfold one after the other.** -/
theorem Step.tells_runAll (hs : site.Tells language values statements) {before rest : List Step}
    (hsteps : (language.template form).steps = before ++ rest) (hp : pass.language = language)
    (hdone : Done log pass form before texts) (hlatest : Latest log form before texts) :
    Unfolds language log pass (log ++ Step.chronicle form site values statements texts rest pass)
        (pass.perform (Step.runAll site texts rest)).2 ∧
      ∀ texts', (pass.perform (Step.runAll site texts rest)).1 = .ok texts' →
        Done (log ++ Step.chronicle form site values statements texts rest pass)
            (pass.perform (Step.runAll site texts rest)).2 form (language.template form).steps texts' ∧
          Latest (log ++ Step.chronicle form site values statements texts rest pass) form
            (language.template form).steps texts' := by
  induction rest generalizing before texts log pass with
  | nil =>
    rw [Step.chronicle, List.append_nil]
    refine ⟨.refl, ?_⟩
    rintro _ ⟨⟩
    rw [hsteps, List.append_nil]
    exact ⟨hdone, hlatest⟩
  | cons step rest ih =>
    obtain ⟨visited, hunfolds, hrun⟩ := Step.tells_run hs log texts step pass hp
    simp only [Step.chronicle, Step.runAll, Pass.perform_bind, Pass.afterwards]
    rcases hrun with ⟨cause, hrun⟩ | ⟨left, after, hrun, hdoes⟩
    · rw [hrun, List.append_nil]
      exact ⟨hunfolds, fun _ h => by cases h⟩
    · simp only [hrun, List.drop_left]
      have hvisited : Done (log ++ step.inner values statements pass) visited form before texts :=
        hdone.mono (List.subset_append_left _ _) hunfolds.entries_prefix
      have hhappens := Happens.step hsteps hvisited hdoes
      have hlanguage := hdoes.language_eq.trans (hunfolds.language_eq.trans hp)
      obtain ⟨hrest, htexts⟩ := ih (by rw [hsteps, List.append_assoc]; rfl) hlanguage (hvisited.snoc hdoes)
        (Latest.snoc before hdoes)
      rw [← List.append_assoc, ← List.append_assoc]
      exact ⟨(hunfolds.next hhappens).trans hrest, htexts⟩

/-- the code of a template is laid out when all its steps are done -/
theorem Template.tells_run (hs : site.Tells language values statements) (form : Form) (bare : Bool) :
    Gen.Tells language ((language.template form).run site bare)
      (fun pass => Step.chronicle form site values statements [] (language.template form).steps pass ++
        pass.afterwards (Step.runAll site [] (language.template form).steps) fun texts _ =>
          [.code form bare texts ((language.template form).render texts bare)])
      fun log text => ∃ texts, .code form bare texts text ∈ log := by
  intro log pass hp
  have hsteps : (language.template form).steps = [] ++ (language.template form).steps := rfl
  obtain ⟨hunfolds, hdone⟩ := Step.tells_runAll hs hsteps hp (Done.nil log pass form) (Latest.nil log form)
  simp only [Template.run, Pass.afterwards, Pass.perform_bind]
  rcases hr : pass.perform (Step.runAll site [] (language.template form).steps) with ⟨_ | texts, after⟩
  · rw [hr] at hunfolds
    simp only [List.append_nil]
    exact ⟨hunfolds, fun _ h => by cases h⟩
  · rw [hr] at hunfolds hdone
    simp only [Pass.perform_pure]
    rw [← List.append_assoc]
    obtain ⟨hall, hlatest⟩ := hdone texts rfl
    refine ⟨hunfolds.next (.code bare hall hlatest), ?_⟩
    rintro _ ⟨⟩
    exact ⟨texts, List.mem_append_right _ List.mem_cons_self⟩

end

theorem Form.isStatement_read {kind : Kind} {head : Head} {form : Form} (h : Form.read kind head = .ok form) :
    form.isStatement = kind.isStatement := by
  have of_map : ∀ {α : Type} {make : α → Form} {outcome : Except GenError α} {b : Bool},
      (∀ a, (make a).isStatement = b) → make <$> outcome = .ok form → form.isStatement = b := by
    intro α make outcome b hm he
    cases outcome with
    | error cause => cases he
    | ok a =>
      cases he
      exact hm a
  cases kind <;> first | (cases h; rfl) | exact of_map (fun _ => rfl) h

/-- what a block adds to its chain is the line of its construct -/
theorem Head.perform_link {language : Language} {head : Head} {code : Bool → Gen String} {form : Form} {text : String}
    {pass after : Pass} (hf : head.form = .ok form) (hr : pass.perform (code true) = (.ok text, after))
    (hp : after.language = language) :
    pass.perform (head.link code) = (.ok (form.line language text), after) := by
  obtain ⟨kind, hkind, hread⟩ := Head.exists_kind hf
  simp only [link, Pass.perform_bind, Pass.perform_ofExcept, hkind, Stop.refusing, hr, Form.line,
    Form.isStatement_read hread]
  split_ifs
  · rfl
  · rw [← hp]
    rfl

/-- a block that cannot be generated adds nothing to its chain -/
theorem Head.perform_link_error {head : Head} {code : Bool → Gen String} {stop : Stop GenError} {pass after : Pass}
    (hf : ∀ stop, head.form = .error stop → after = pass) (hr : pass.perform (code true) = (.error stop, after)) :
    ∃ stop, pass.perform (head.link code) = (.error stop, after) := by
  simp only [link, Pass.perform_bind, Pass.perform_ofExcept]
  cases hk : Kind.read head.kind with
  | error cause =>
    have hform : head.form = .error (.refused cause) := by
      unfold Head.form
      rw [hk]
      rfl
    rw [hf _ hform]
    exact ⟨_, rfl⟩
  | ok kind =>
    simp only [Stop.refusing, hr]
    exact ⟨stop, rfl⟩

namespace Block

theorem tells_slots {language : Language} {entries : List (Nat × Block)}
    (h : ∀ entry ∈ entries, (emission (.standard language) entry.2).Tells language (chronicle language entry.2))
    (slot : Nat) :
    Option.Rel (Emission.Tells language) (Slots.get? slot (emissions (.standard language) entries))
      (Slots.get? slot (chronicles language entries)) := by
  rw [get?_emissions, chronicles_eq_map, Slots.get?_map]
  cases hg : Slots.get? slot entries with
  | none => exact .none
  | some block =>
    obtain ⟨entry, he, rfl⟩ := Slots.mem_of_get? hg
    exact .some (h entry he)

/-- **A block unfolds as its chronicle tells.** -/
theorem tells_emission (language : Language) (block : Block) :
    (emission (.standard language) block).Tells language (chronicle language block) := by
  induction block with
  | mk head values statements next hv hs hn =>
    have hsite : Site.Tells language (site (.standard language) (mk head values statements next))
        (chronicles language values) (chronicles language statements) := ⟨tells_slots hv, tells_slots hs⟩
    have hcode : ∀ bare, Gen.Tells language ((mk head values statements next).code (.standard language) bare)
        ((chronicle language (mk head values statements next)).code bare)
        fun log text => ∃ form texts, head.form = .ok form ∧ .code form bare texts text ∈ log := by
      intro bare log pass hp
      rw [perform_code]
      simp only [chronicle, Head.chronicle]
      cases hf : head.form with
      | error cause =>
        rw [List.append_nil]
        exact ⟨.refl, fun _ h => by cases h⟩
      | ok form =>
        obtain ⟨hunfolds, htext⟩ := Template.tells_run hsite form bare log pass hp
        refine ⟨hunfolds, fun text ht => ?_⟩
        obtain ⟨texts, hm⟩ := htext text ht
        exact ⟨form, texts, rfl, hm⟩
    refine ⟨fun bare log pass hp => ?_, fun log pass hp => ?_⟩
    · obtain ⟨hunfolds, htext⟩ := hcode bare log pass hp
      refine ⟨hunfolds, fun text ht => ?_⟩
      obtain ⟨form, texts, -, hm⟩ := htext text ht
      exact ⟨form, texts, hm⟩
    · have hnext : Gen.Tells language (nextChain (.standard language) next) (nextEvents language next)
          fun log rest => rest = "" ∨ .chain rest ∈ log := by
        cases next with
        | none => exact Gen.tells_pure fun _ => .inl rfl
        | some below =>
          intro log pass hp
          obtain ⟨hunfolds, htext⟩ := (hn below rfl).chain log pass hp
          exact ⟨hunfolds, fun rest hr => .inr (htext rest hr)⟩
      obtain ⟨hunfolds, htext⟩ := hcode true log pass hp
      have hlanguage := hunfolds.language_eq.trans hp
      rw [chain_eq, chronicle_chain]
      simp only [Pass.afterwards, chainCode, chain_eq, Pass.perform_bind]
      rcases hr : pass.perform ((mk head values statements next).code (.standard language) true) with
        ⟨cause | text, after⟩
      · have hstuck : ∀ cause, head.form = .error cause → after = pass := by
          intro other hf
          rw [perform_code, hf] at hr
          exact (Prod.mk.inj hr).2.symm
        obtain ⟨cause', hlink⟩ := Head.perform_link_error hstuck hr
        rw [hr] at hunfolds
        simp only [hlink, List.append_nil]
        exact ⟨hunfolds, fun _ h => by cases h⟩
      · rw [hr] at hunfolds htext hlanguage
        obtain ⟨form, texts, hf, hm⟩ := htext text rfl
        obtain ⟨hbelow, hrest⟩ := hnext _ after hlanguage
        simp only [Head.perform_link hf hr hlanguage]
        rcases hr' : after.perform (nextChain (.standard language) next) with ⟨cause | rest, last⟩
        · rw [hr'] at hbelow
          simp only [List.append_nil]
          rw [← List.append_assoc]
          exact ⟨hunfolds.trans hbelow, fun _ h => by cases h⟩
        · rw [hr'] at hbelow hrest
          simp only [Pass.perform_pure]
          rw [← List.append_assoc, ← List.append_assoc]
          have hown := List.mem_append_left (nextEvents language next after) hm
          refine ⟨(hunfolds.trans hbelow).next (.chain hown (hrest rest rfl)), ?_⟩
          rintro _ ⟨⟩
          exact List.mem_append_right _ List.mem_cons_self

/-- a whole workspace unfolds event by event, and its body is made of chains generated on the way -/
theorem tells_chainsCode (language : Language) (blocks : List Block) :
    Gen.Tells language (chainsCode (.standard language) blocks) (chainsEvents language blocks) fun log body =>
      ∃ chains : List String, (∀ text ∈ chains, .chain text ∈ log) ∧ body = chains.foldr (· ++ ·) "" := by
  induction blocks with
  | nil => exact Gen.tells_pure fun _ => ⟨[], List.forall_mem_nil _, rfl⟩
  | cons block rest ih =>
    intro log pass hp
    obtain ⟨hunfolds, htext⟩ := (tells_emission language block).chain log pass hp
    have hlanguage := hunfolds.language_eq.trans hp
    simp only [chainsCode, chainsEvents, chainCode, Pass.perform_bind, Pass.afterwards]
    rcases hr : pass.perform (emission (.standard language) block).chain with ⟨cause | first, after⟩
    · rw [hr] at hunfolds
      simp only [List.append_nil]
      exact ⟨hunfolds, fun _ h => by cases h⟩
    · rw [hr] at hunfolds htext hlanguage
      obtain ⟨hothers, hbody⟩ := ih _ after hlanguage
      simp only
      rw [← List.append_assoc]
      rcases hr' : after.perform (chainsCode (.standard language) rest) with ⟨cause | others, last⟩
      · rw [hr'] at hothers
        exact ⟨hunfolds.trans hothers, fun _ h => by cases h⟩
      · rw [hr'] at hothers hbody
        refine ⟨hunfolds.trans hothers, ?_⟩
        rintro _ ⟨⟩
        obtain ⟨chains, hchains, rfl⟩ := hbody others rfl
        refine ⟨first :: chains, List.forall_mem_cons.2 ⟨?_, hchains⟩, rfl⟩
        exact List.mem_append_left _ (htext first rfl)

end Block

/-! ## Whole programs -/

/-- **The run behind a program unfolds as its chronicle tells**, and its body is made of chains in it. -/
theorem programRun_unfolds (language : Language) (blocks : List Block) :
    Unfolds language [] (.start language) (programChronicle language blocks) (programRun language blocks).2 ∧
      ∀ body, (programRun language blocks).1 = .ok body → ∃ chains : List String,
        (∀ text ∈ chains, .chain text ∈ programChronicle language blocks) ∧ body = chains.foldr (· ++ ·) "" :=
  Block.tells_chainsCode language blocks [] (.start language) rfl

/-- every code was laid out from the texts that the steps of its template left -/
theorem programChronicle_laid {language : Language} {blocks : List Block} {form : Form} {bare : Bool}
    {texts : List String} {text : String} (h : .code form bare texts text ∈ programChronicle language blocks) :
    text = (language.template form).render texts bare ∧
      List.Forall₂ (fun step text => .left form step text ∈ programChronicle language blocks)
        ((language.template form).steps.filter Step.leavesText) texts := by
  have hlaid := (programRun_unfolds language blocks).1.keeps
    (fun log _ => ∀ form bare texts text, .code form bare texts text ∈ log →
      text = (language.template form).render texts bare ∧
        List.Forall₂ (fun step text => .left form step text ∈ log)
          ((language.template form).steps.filter Step.leavesText) texts)
    (fun _ _ _ _ hm => nomatch hm) ?_
  · exact hlaid form bare texts text h
  · intro log pass log' pass' hh ih form bare texts text hm
    have hold : .code form bare texts text ∈ log → _ := fun hm =>
      (ih form bare texts text hm).imp id fun hleft => hleft.imp fun _ _ hl => hh.log_prefix.subset hl
    cases hh with
    | step _ _ _ => exact hold (by simpa using hm)
    | chain _ _ => exact hold (by simpa using hm)
    | code _ hdone _ =>
      rcases List.mem_append.1 hm with hm | hm
      · exact hold hm
      · cases List.mem_singleton.1 hm
        exact ⟨rfl, hdone.left.imp fun _ _ hl => List.mem_append_left _ hl⟩

end Blockwork
