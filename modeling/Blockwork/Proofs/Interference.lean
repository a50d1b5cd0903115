/-
Two workspaces that differ only in the content of text blocks have programs that differ only inside string
literals.

The two runs are followed side by side. `Pass.Alike` relates their states: the same names, and definitions
that are alike one by one. `Gen.Alike` says that two actions, started from alike states, fail with the same
cause or succeed with related results, and leave alike states.

- `Step.alike_run`, `Template.alike_run`: a safe template, carried out at two sites whose plugged-in blocks are
  alike, gives alike code.
- `Block.alike_emission`, `Block.alike_chainsCode`: blocks that agree outside text content give alike code.
- `text_content_does_not_interfere`: the main statement, on whole programs.
-/
import Blockwork.Proofs.Naming
import Blockwork.Proofs.Perform
import Blockwork.Proofs.SafeTemplates

namespace Blockwork

/-! ## Two runs side by side -/

/-- definitions under the same key and name, with alike sources -/
structure Definition.Alike (one other : Definition) : Prop where
  key : one.key = other.key
  name : one.name = other.name
  plain : ∀ name ∈ one.name, '\'' ∉ name.toList
  source : AlikeCode one.source other.source

/-- states of two runs that differ only inside literals -/
structure Pass.Alike (one other : Pass) : Prop where
  language : one.language = other.language
  names : one.names = other.names
  wellFormed : one.names.WellFormed
  entries : List.Forall₂ Definition.Alike one.registry.entries other.registry.entries

/-- both outcomes are the same failure, or successes with related results -/
inductive OutcomeAlike {α β : Type} (rel : α → β → Prop) :
    Except (Stop GenError) α → Except (Stop GenError) β → Prop
  | ok {a : α} {b : β} : rel a b → OutcomeAlike rel (.ok a) (.ok b)
  | error (stop : Stop GenError) : OutcomeAlike rel (.error stop) (.error stop)

/-- two actions that differ only inside literals, their results being related by `rel` -/
def Gen.Alike {α β : Type} (rel : α → β → Prop) (one : Gen α) (other : Gen β) : Prop :=
  ∀ pass pass' : Pass, pass.Alike pass' →
    OutcomeAlike rel (pass.perform one).1 (pass'.perform other).1 ∧
      (pass.perform one).2.Alike (pass'.perform other).2

/-- a definition is found in both registries or in neither -/
theorem Pass.Alike.find? {pass pass' : Pass} (h : pass.Alike pass') (key : String) :
    Option.Rel Definition.Alike (pass.registry.find? key) (pass'.registry.find? key) := by
  have he := h.entries
  rw [Registry.find?_eq, Registry.find?_eq]
  generalize pass.registry.entries = entries at he ⊢
  generalize pass'.registry.entries = entries' at he ⊢
  induction he with
  | nil => exact .none
  | cons hd _ ih =>
    rw [List.find?_cons, List.find?_cons, hd.key]
    split
    · exact .some hd
    · exact ih

namespace Gen

variable {α β γ δ : Type} {rel : α → β → Prop} {rel' : γ → δ → Prop}

theorem alike_pure {a : α} {b : β} (h : rel a b) : Alike rel (pure a) (pure b) :=
  fun _ _ hp => ⟨.ok h, hp⟩

theorem alike_bind {one : Gen α} {other : Gen β} {next : α → Gen γ} {next' : β → Gen δ} (h : Alike rel one other)
    (hn : ∀ a b, rel a b → Alike rel' (next a) (next' b)) : Alike rel' (one >>= next) (other >>= next') := by
  intro pass pass' hp
  obtain ⟨ho, hafter⟩ := h pass pass' hp
  rw [Pass.perform_bind, Pass.perform_bind]
  generalize pass.perform one = run at ho hafter ⊢
  generalize pass'.perform other = run' at ho hafter ⊢
  obtain ⟨outcome, after⟩ := run
  obtain ⟨outcome', after'⟩ := run'
  cases ho with
  | ok hr => exact hn _ _ hr after after' hafter
  | error cause => exact ⟨.error cause, hafter⟩

theorem alike_bind_pure {one : Gen α} {other : Gen β} {f : α → γ} {g : β → δ} (h : Alike rel one other)
    (hf : ∀ a b, rel a b → rel' (f a) (g b)) :
    Alike rel' (do pure (f (← one))) (do pure (g (← other))) :=
  alike_bind h fun a b hr => alike_pure (hf a b hr)

theorem alike_get : Alike Pass.Alike (get : Gen Pass) get :=
  fun _ _ hp => ⟨.ok hp, hp⟩

theorem alike_ofExcept (outcome : Except (Stop GenError) α) : Alike Eq (ofExcept outcome) (ofExcept outcome) := by
  intro pass pass' hp
  rw [Pass.perform_ofExcept, Pass.perform_ofExcept]
  refine ⟨?_, hp⟩
  cases outcome with
  | ok a => exact .ok rfl
  | error stop => exact .error stop

theorem alike_within (limit n : Nat) : Alike Eq (within limit n) (within limit n) := by
  intro pass pass' hp
  rw [Pass.perform_within, Pass.perform_within]
  refine ⟨?_, hp⟩
  split_ifs
  · exact .ok rfl
  · exact .error .overflow

/-- the same name, without a quote in it -/
def SameName (name name' : String) : Prop := name = name' ∧ '\'' ∉ name.toList

theorem SameName.alikeCode {name name' : String} (h : SameName name name') : AlikeCode name name' :=
  h.1 ▸ .of_not_mem h.2

theorem alike_nameOf (role : Role) (user : String) : Alike SameName (nameOf role user) (nameOf role user) := by
  intro pass pass' hp
  rw [Pass.perform_nameOf, Pass.perform_nameOf, ← hp.names]
  obtain ⟨hname, hwell⟩ := hp.wellFormed.bind role user
  exact ⟨.ok ⟨rfl, hname.quote_not_mem⟩, hp.language, rfl, hwell, hp.entries⟩

theorem alike_freshName (base : String) : Alike SameName (freshName base) (freshName base) := by
  intro pass pass' hp
  rw [Pass.perform_freshName, Pass.perform_freshName, ← hp.names]
  have hname := Names.isIdentifier_distinct pass.names base
  exact ⟨.ok ⟨rfl, hname.quote_not_mem⟩, hp.language, rfl, hp.wellFormed.distinct base, hp.entries⟩

theorem alike_define (key : String) {name : Option String} {source source' : String}
    (hn : ∀ text ∈ name, '\'' ∉ text.toList) (hs : AlikeCode source source') :
    Alike Eq (define key name source) (define key name source') := by
  intro pass pass' hp
  rw [Pass.perform_define, Pass.perform_define]
  refine ⟨.ok rfl, hp.language, hp.names, hp.wellFormed, ?_⟩
  have hfind := hp.find? key
  generalize hfound : pass.registry.find? key = found at hfind
  generalize hfound' : pass'.registry.find? key = found' at hfind
  cases hfind with
  | some _ =>
    rw [Registry.request_of_some hfound, Registry.request_of_some hfound']
    exact hp.entries
  | none =>
    rw [Registry.request_of_none hfound, Registry.request_of_none hfound']
    exact List.rel_append hp.entries (.cons ⟨rfl, rfl, hn, hs⟩ .nil)

theorem alike_provide (key base : String) {source : String → String}
    (hs : ∀ name, '\'' ∉ name.toList → AlikeCode (source name) (source name)) :
    Alike SameName (provide key base source) (provide key base source) := by
  refine alike_bind alike_get fun pass pass' hp => ?_
  have hfind := hp.find? key
  generalize pass.registry.find? key = found at hfind ⊢
  generalize pass'.registry.find? key = found' at hfind ⊢
  cases hfind with
  | @some one other hd =>
    refine alike_pure ⟨congrArg (Option.getD · "") hd.name, ?_⟩
    cases hname : one.name with
    | none => exact List.not_mem_nil
    | some name => exact hd.plain name hname
  | none =>
    refine alike_bind (alike_freshName base) fun name name' hname => ?_
    obtain ⟨rfl, hq⟩ := hname
    refine alike_bind (alike_define key ?_ (hs name hq)) fun _ _ _ => alike_pure ⟨rfl, hq⟩
    exact fun text ht => Option.mem_some_iff.1 ht ▸ hq

theorem alike_declareTemporary (base : String) :
    Alike SameName (declareTemporary base) (declareTemporary base) := by
  refine alike_bind (alike_freshName base) fun name name' hname => ?_
  obtain ⟨rfl, hq⟩ := hname
  have hsource : AlikeCode ("var " ++ name ++ ";") ("var " ++ name ++ ";") :=
    ((AlikeCode.of_isClosed rfl).append (.of_not_mem hq)).append (.of_isClosed rfl)
  refine alike_bind (alike_define _ ?_ hsource) fun _ _ _ => alike_pure ⟨rfl, hq⟩
  exact fun text ht => Option.mem_some_iff.1 ht ▸ hq

end Gen

open Gen

/-! ## Steps and templates -/

/-- blocks that are generated alike -/
structure Emission.Alike (one other : Emission) : Prop where
  code : ∀ bare, Gen.Alike AlikeCode (one.code bare) (other.code bare)
  chain : Gen.Alike AlikeCode one.chain other.chain

structure Site.Alike (site site' : Site) : Prop where
  values : ∀ slot, Option.Rel Emission.Alike (Slots.get? slot site.values) (Slots.get? slot site'.values)
  statements : ∀ slot, Option.Rel Emission.Alike (Slots.get? slot site.statements) (Slots.get? slot site'.statements)

section

variable {site site' : Site} {issued : List Bool} {texts texts' : List String}

theorem relGetD_alike {code code' : Option String} (h : Option.Rel AlikeCode code code') {absent : String}
    (ha : AlikeCode absent absent) : AlikeCode (code.getD absent) (code'.getD absent) := by
  cases h with
  | none => exact ha
  | some h => exact h

theorem Site.Alike.value? (hs : site.Alike site') (slot : Nat) (bare : Bool) :
    Gen.Alike (Option.Rel AlikeCode) (site.value? slot bare) (site'.value? slot bare) := by
  have h := hs.values slot
  unfold Site.value?
  generalize Slots.get? slot site.values = child at h ⊢
  generalize Slots.get? slot site'.values = child' at h ⊢
  cases h with
  | none => exact alike_pure .none
  | some h =>
    refine alike_bind_pure (h.code bare) fun code code' hc => ?_
    rw [hc.isEmpty_eq]
    split_ifs
    · exact .none
    · exact .some hc

theorem Site.Alike.statement? (hs : site.Alike site') (slot : Nat) :
    Gen.Alike (Option.Rel AlikeCode) (site.statement? slot) (site'.statement? slot) := by
  refine alike_bind (alike_within _ _) fun _ _ _ => ?_
  have h := hs.statements slot
  generalize Slots.get? slot site.statements = child at h ⊢
  generalize Slots.get? slot site'.statements = child' at h ⊢
  cases h with
  | none => exact alike_pure .none
  | some h =>
    refine alike_bind_pure h.chain fun code code' hc => ?_
    rw [hc.isEmpty_eq]
    split_ifs
    · exact .none
    · exact .some (hc.prefixLines (by decide))

theorem Site.Alike.branch (hs : site.Alike site') (slot : Nat) :
    Gen.Alike AlikeCode (site.branch slot) (site'.branch slot) := by
  refine alike_bind (hs.statement? slot) fun code code' hc => ?_
  cases hc with
  | some hc => exact alike_pure hc
  | none =>
    refine alike_bind_pure alike_get fun pass pass' hp => ?_
    rw [hp.language]
    refine ((AlikeCode.of_isClosed rfl).append ?_).append (.of_isClosed rfl)
    cases pass'.language <;> exact .of_isClosed rfl

theorem Helper.alike_source {helper : Helper} (h : helper.isSafe) {name : String} (hn : '\'' ∉ name.toList) :
    AlikeCode (helper.source name) (helper.source name) := by
  simp only [isSafe, Bool.and_eq_true, List.all_eq_true] at h
  obtain ⟨⟨hb, ha⟩, hl⟩ := h
  have hfirst : AlikeCode (helper.before ++ name ++ helper.after) (helper.before ++ name ++ helper.after) :=
    ((AlikeCode.of_isClosed hb).append (.of_not_mem hn)).append (.of_isClosed ha)
  exact .joinWith rfl (.cons hfirst (List.forall₂_same.2 fun line hm => .of_isClosed (hl line hm)))

/-- **A safe step leaves alike texts.** -/
theorem Step.alike_run (hs : site.Alike site') (ht : TextsAlike issued texts texts') (step : Step)
    (hsafe : step.isSafe issued) :
    Gen.Alike (TextsAlike (issued ++ step.leaves)) (step.run site texts) (step.run site' texts') := by
  -- a text that is code, and a text that is a name
  have hcode : ∀ code code', AlikeCode code code' →
      TextsAlike (issued ++ [false]) (texts ++ [code]) (texts' ++ [code']) :=
    fun _ _ h => ht.snoc h fun hf => absurd hf Bool.false_ne_true
  have hname : ∀ name name', SameName name name' →
      TextsAlike (issued ++ [true]) (texts ++ [name]) (texts' ++ [name']) :=
    fun _ _ h => ht.snoc h.alikeCode fun _ => h.2
  cases step with
  | value slot bare absent =>
    have hvalue := hs.value? slot bare
    exact alike_bind_pure (alike_bind_pure hvalue fun _ _ h => relGetD_alike h (.of_isClosed hsafe)) hcode
  | branch slot => exact alike_bind_pure (hs.branch slot) hcode
  | body slot => exact alike_bind_pure (hs.statement? slot) fun _ _ h => hcode _ _ (relGetD_alike h .empty)
  | userVariable name => exact alike_bind_pure (alike_nameOf .variable name) hname
  | userProcedure name => exact alike_bind_pure (alike_nameOf .procedure name) hname
  | fresh base => exact alike_bind_pure (alike_freshName base) hname
  | temporary base => exact alike_bind_pure (alike_declareTemporary base) hname
  | helper helper =>
    exact alike_bind_pure (alike_provide helper.key helper.key fun _ hn => Helper.alike_source hsafe hn) hname
  | require library =>
    rw [leaves, List.append_nil]
    have hnone : ∀ text ∈ (none : Option String), '\'' ∉ text.toList := fun _ h => nomatch h
    exact alike_bind_pure (alike_define library.key hnone (.of_isClosed hsafe)) fun _ _ _ => ht
  | hoist key name source =>
    rw [leaves, List.append_nil]
    simp only [isSafe, Bool.and_eq_true] at hsafe
    obtain ⟨hissued, hsource⟩ := hsafe
    have hplain : ∀ text ∈ some (Piece.textAt texts name), '\'' ∉ text.toList :=
      fun text h => Option.mem_some_iff.1 h ▸ ht.name name hissued
    simp only [run, ← ht.name_eq hissued]
    exact alike_bind_pure (alike_define _ hplain (ht.renderAll source hsource)) fun _ _ _ => ht

theorem Step.alike_runAll (hs : site.Alike site') (ht : TextsAlike issued texts texts') (steps : List Step)
    (hsafe : Step.areSafe issued steps) :
    Gen.Alike (fun after after' => ∃ issued, TextsAlike issued after after') (Step.runAll site texts steps)
      (Step.runAll site' texts' steps) := by
  induction steps generalizing issued texts texts' with
  | nil => exact alike_pure ⟨issued, ht⟩
  | cons step rest ih =>
    simp only [areSafe, Bool.and_eq_true] at hsafe
    exact alike_bind (Step.alike_run hs ht step hsafe.1) fun _ _ h => ih h hsafe.2

/-- **A safe template gives alike code at alike sites.** -/
theorem Template.alike_run (hs : site.Alike site') {template : Template} (hsafe : template.isSafe) (bare : Bool) :
    Gen.Alike AlikeCode (template.run site bare) (template.run site' bare) := by
  simp only [isSafe, Bool.and_eq_true] at hsafe
  refine alike_bind_pure (Step.alike_runAll hs .nil template.steps hsafe.1) fun texts texts' h => ?_
  obtain ⟨issued, h⟩ := h
  exact h.template_render hsafe.2 bare

theorem Language.alike_text (language : Language) (content content' : String) (bare : Bool) :
    Gen.Alike AlikeCode ((language.template (.text content)).run site bare)
      ((language.template (.text content')).run site' bare) := by
  have hquote : AlikeCode (language.quote content) (language.quote content') := by
    unfold AlikeCode quote
    rw [String.toList_ofList, String.toList_ofList]
    exact Text.alike_quoteChars _ _ _
  cases language <;> exact alike_pure (hquote.append .empty)

end

/-! ## Blocks that differ in the content of texts -/

/-- a block's own data without the content it holds if it is a text -/
def Head.withoutText (head : Head) : Head :=
  if head.kind = Kind.text.name then { head with titles := head.titles.filter fun entry => entry.1 != 1 } else head

namespace Block

mutual

/-- a block without the content of every text in it -/
def withoutText : Block → Block
  | mk head values statements next =>
    mk head.withoutText (withoutTexts values) (withoutTexts statements) (nextWithoutText next)

def withoutTexts : List (Nat × Block) → List (Nat × Block)
  | [] => []
  | (slot, block) :: rest => (slot, withoutText block) :: withoutTexts rest

def nextWithoutText : Option Block → Option Block
  | none => none
  | some block => some (withoutText block)

end

theorem withoutTexts_eq_map (entries : List (Nat × Block)) :
    withoutTexts entries = entries.map fun entry => (entry.1, withoutText entry.2) := by
  induction entries with
  | nil => rfl
  | cons entry rest ih => simp [withoutTexts, ih]

end Block

theorem Head.withoutText_kind (head : Head) : head.withoutText.kind = head.kind := by
  unfold withoutText
  split_ifs <;> rfl

/-- two heads that agree outside text content are the same, or both of a text -/
theorem Head.eq_or_text {head head' : Head} (h : head.withoutText = head'.withoutText) :
    head = head' ∨ ∃ content content', head.form = .ok (.text content) ∧ head'.form = .ok (.text content') := by
  have hform : ∀ head : Head, head.kind = Kind.text.name → head.form = .ok (.text ((head.title? 1).getD "")) := by
    intro head hk
    unfold form
    rw [hk]
    rfl
  have hkind : head.kind = head'.kind := by
    rw [← head.withoutText_kind, h, head'.withoutText_kind]
  by_cases hk : head.kind = Kind.text.name
  · exact .inr ⟨_, _, hform head hk, hform head' (hkind ▸ hk)⟩
  · left
    unfold withoutText at h
    rwa [if_neg hk, if_neg (hkind ▸ hk)] at h

theorem Head.alike_link {head head' : Head} (hk : head.kind = head'.kind) {code code' : Bool → Gen String}
    (h : Gen.Alike AlikeCode (code true) (code' true)) : Gen.Alike AlikeCode (head.link code) (head'.link code') := by
  unfold link
  rw [hk]
  refine alike_bind (alike_ofExcept _) fun kind kind' he => ?_
  subst he
  refine alike_bind h fun own own' ho => ?_
  rw [ho.isEmpty_eq]
  split_ifs
  · exact alike_pure ho
  · refine alike_bind_pure alike_get fun pass pass' hp => ?_
    rw [hp.language]
    cases pass'.language <;> exact ho.append (.of_isClosed rfl)

namespace Block

theorem alike_slots {language : Language} {entries entries' : List (Nat × Block)}
    (ih : ∀ entry ∈ entries, ∀ block', entry.2.withoutText = block'.withoutText →
      (emission (.standard language) entry.2).Alike (emission (.standard language) block'))
    (h : withoutTexts entries = withoutTexts entries') (slot : Nat) :
    Option.Rel Emission.Alike (Slots.get? slot (emissions (.standard language) entries))
      (Slots.get? slot (emissions (.standard language) entries')) := by
  have hget := congrArg (Slots.get? slot) h
  rw [withoutTexts_eq_map, withoutTexts_eq_map, Slots.get?_map, Slots.get?_map] at hget
  rw [get?_emissions, get?_emissions]
  cases he : Slots.get? slot entries with
  | none =>
    rw [he, Option.map_none, eq_comm, Option.map_eq_none_iff] at hget
    rw [hget]
    exact .none
  | some block =>
    rw [he, Option.map_some, eq_comm, Option.map_eq_some_iff] at hget
    obtain ⟨block', he', hb⟩ := hget
    obtain ⟨entry, hm, rfl⟩ := Slots.mem_of_get? he
    rw [he']
    exact .some (ih entry hm block' hb.symm)

/-- blocks that agree outside text content are generated alike -/
theorem alike_emission (language : Language) (block block' : Block) (h : block.withoutText = block'.withoutText) :
    (emission (.standard language) block).Alike (emission (.standard language) block') := by
  induction block generalizing block' with
  | mk head values statements next hv hs hn =>
    obtain ⟨head', values', statements', next'⟩ := block'
    simp only [withoutText, mk.injEq] at h
    obtain ⟨hhead, hvalues, hstatements, hnext⟩ := h
    have hsite : Site.Alike ⟨emissions (.standard language) values, emissions (.standard language) statements⟩
        ⟨emissions (.standard language) values', emissions (.standard language) statements'⟩ :=
      ⟨alike_slots hv hvalues, alike_slots hs hstatements⟩
    have hcode : ∀ bare, Gen.Alike AlikeCode ((mk head values statements next).code (.standard language) bare)
        ((mk head' values' statements' next').code (.standard language) bare) := by
      intro bare pass pass' hp
      rw [perform_code, perform_code]
      rcases Head.eq_or_text hhead with rfl | ⟨content, content', hf, hf'⟩
      · cases head.form with
        | error cause => exact ⟨.error cause, hp⟩
        | ok form =>
          by_cases ht : ∃ content, form = .text content
          · obtain ⟨content, rfl⟩ := ht
            exact language.alike_text content content bare pass pass' hp
          · exact Template.alike_run hsite (language.template_isSafe form (not_exists.1 ht)) bare pass pass' hp
      · rw [hf, hf']
        exact language.alike_text content content' bare pass pass' hp
    refine ⟨hcode, ?_⟩
    have hkind : head.kind = head'.kind := by
      rw [← head.withoutText_kind, hhead, head'.withoutText_kind]
    refine alike_bind (Head.alike_link hkind (hcode true)) fun own own' ho =>
      alike_bind_pure ?_ fun rest rest' hr => ho.append hr
    cases next with
    | none =>
      cases next' with
      | none => exact alike_pure .empty
      | some below' => cases hnext
    | some below =>
      cases next' with
      | none => cases hnext
      | some below' => exact (hn below rfl below' (Option.some.inj hnext)).chain

/-- workspaces that agree outside text content are generated alike -/
theorem alike_chainsCode (language : Language) {blocks blocks' : List Block}
    (h : blocks.map withoutText = blocks'.map withoutText) :
    Gen.Alike AlikeCode (chainsCode (.standard language) blocks) (chainsCode (.standard language) blocks') := by
  induction blocks generalizing blocks' with
  | nil =>
    rw [List.map_nil, eq_comm, List.map_eq_nil_iff] at h
    subst h
    exact alike_pure .empty
  | cons block rest ih =>
    cases blocks' with
    | nil => cases h
    | cons block' rest' =>
      obtain ⟨hb, hr⟩ := List.cons.inj h
      exact alike_bind (alike_emission language block block' hb).chain fun _ _ ho =>
        alike_bind_pure (ih hr) fun _ _ hrest => ho.append hrest

end Block

/-! ## Whole programs -/

namespace Pass.Alike

variable {pass pass' : Pass}

theorem start (language : Language) : (Pass.start language).Alike (Pass.start language) :=
  ⟨rfl, rfl, Names.wellFormed_start _, .nil⟩

theorem keys_eq (h : pass.Alike pass') : pass.registry.keys = pass'.registry.keys := by
  have he := h.entries
  unfold Registry.keys
  generalize pass.registry.entries = entries at he ⊢
  generalize pass'.registry.entries = entries' at he ⊢
  induction he with
  | nil => rfl
  | cons hd _ ih => rw [List.map_cons, List.map_cons, hd.key, ih]

/-- the sources of the definitions that a look at their names selects -/
theorem sources (h : pass.Alike pass') (select : Option String → Bool) :
    List.Forall₂ AlikeCode ((pass.registry.entries.filter fun d => select d.name).map Definition.source)
      ((pass'.registry.entries.filter fun d => select d.name).map Definition.source) := by
  have he := h.entries
  generalize pass.registry.entries = entries at he ⊢
  generalize pass'.registry.entries = entries' at he ⊢
  induction he with
  | nil => exact .nil
  | cons hd _ ih =>
    rw [List.filter_cons, List.filter_cons, hd.name]
    split_ifs
    · exact .cons hd.source ih
    · exact ih

theorem render (h : pass.Alike pass') : AlikeCode pass.registry.render pass'.registry.render := by
  have himports : AlikeCode pass.registry.importBlock pass'.registry.importBlock :=
    .joinWith rfl (h.sources Option.isNone)
  refine .joinWith rfl ?_
  unfold Registry.sections
  simp only [himports.isEmpty_eq]
  split_ifs
  · exact h.sources Option.isSome
  · exact .cons himports (h.sources Option.isSome)

theorem definitionSections (h : pass.Alike pass') :
    List.Forall₂ AlikeCode pass.definitionSections pass'.definitionSections := by
  have hempty : pass.registry.entries.isEmpty = pass'.registry.entries.isEmpty := by
    have he := h.entries
    generalize pass.registry.entries = entries at he ⊢
    generalize pass'.registry.entries = entries' at he ⊢
    cases he <;> rfl
  unfold Pass.definitionSections
  rw [hempty]
  split_ifs
  · exact .nil
  · exact .cons h.render .nil

theorem variableSections (h : pass.Alike pass') :
    List.Forall₂ AlikeCode pass.variableSections pass'.variableSections := by
  have hnames : List.Forall₂ AlikeCode pass.names.variableNames pass.names.variableNames :=
    List.forall₂_same.2 fun name hm => .of_not_mem (h.wellFormed.variableNames name hm).quote_not_mem
  unfold Pass.variableSections
  rw [← h.language, ← h.names]
  split_ifs
  · exact .cons (((AlikeCode.of_isClosed rfl).append (.joinWith rfl hnames)).append (.of_isClosed rfl)) .nil
  · exact .nil

theorem bodySections (h : pass.Alike pass') {body body' : String} (hb : AlikeCode body body') :
    List.Forall₂ AlikeCode (pass.bodySections body) (pass'.bodySections body') := by
  unfold Pass.bodySections
  rw [h.language, hb.isEmpty_eq]
  split_ifs
  · refine .cons (((AlikeCode.of_isClosed rfl).append (hb.prefixLines (by decide))).append (.of_isClosed rfl)) .nil
  · exact .nil
  · exact .cons hb.dropFinalNewlines .nil

theorem finish (h : pass.Alike pass') {body body' : String} (hb : AlikeCode body body') :
    AlikeCode (pass.finish body) (pass'.finish body') := by
  have hsections := List.rel_append (List.rel_append h.definitionSections h.variableSections) (h.bodySections hb)
  exact (AlikeCode.joinWith rfl hsections).append (.of_isClosed rfl)

end Pass.Alike

/-- **The content of texts cannot influence a program or escape into it.** Two workspaces that are the same
but for the content of text blocks, anywhere in them, both fail with the same cause, or both succeed with
programs that are the same text once the interior of every literal is blanked out; what is hoisted has the
same keys, and the declared variables are the same. -/
theorem text_content_does_not_interfere (language : Language) (blocks blocks' : List Block)
    (h : blocks.map Block.withoutText = blocks'.map Block.withoutText) :
    ((∃ cause, generate language blocks = .error cause ∧ generate language blocks' = .error cause) ∨
      ∃ program program', generate language blocks = .ok program ∧ generate language blocks' = .ok program' ∧
        Text.blank program = Text.blank program') ∧
    (programRun language blocks).2.registry.keys = (programRun language blocks').2.registry.keys ∧
    (programRun language blocks).2.names.variableNames = (programRun language blocks').2.names.variableNames := by
  obtain ⟨houtcome, hpass⟩ : OutcomeAlike AlikeCode (programRun language blocks).1 (programRun language blocks').1 ∧
      (programRun language blocks).2.Alike (programRun language blocks').2 :=
    Block.alike_chainsCode language h _ _ (.start language)
  refine ⟨?_, hpass.keys_eq, congrArg Names.variableNames hpass.names⟩
  rw [generate_eq, generate_eq]
  generalize programRun language blocks = run at houtcome hpass ⊢
  generalize programRun language blocks' = run' at houtcome hpass ⊢
  obtain ⟨outcome, pass⟩ := run
  obtain ⟨outcome', pass'⟩ := run'
  cases houtcome with
  | error cause => exact .inl ⟨cause, rfl, rfl⟩
  | @ok body body' hbody =>
    have hprogram := hpass.finish hbody
    refine .inr ⟨pass.finish body, pass'.finish body', rfl, rfl, ?_⟩
    unfold Text.blank
    rw [Text.Alike.blank_eq hprogram]

def textOperandWorkspace (content : String) : List Block :=
  [.mk (.bare Kind.print.name)
    [(0, .mk { Head.bare Kind.arithmetic.name with labels := [(1, "ADD")] } [(0, .text content)] [] none)] [] none]

theorem textOperandWorkspace_agree (content content' : String) :
    (textOperandWorkspace content).map Block.withoutText = (textOperandWorkspace content').map Block.withoutText := by
  have hhead : ∀ content : String, Head.withoutText { Head.bare Kind.text.name with titles := [(1, content)] } =
      Head.bare Kind.text.name := fun content => (if_pos rfl).trans rfl
  simp only [textOperandWorkspace, List.map_cons, List.map_nil, Block.withoutText, Block.withoutTexts, Block.text,
    Block.leaf, hhead]

/-- a text that looks like a negative number and one that looks like the end of its literal, where a number
is expected -/
theorem textOperand_does_not_interfere :
    (textOperandWorkspace "-1").map Block.withoutText = (textOperandWorkspace "'); f('").map Block.withoutText ∧
    ((∃ cause, generate .dart (textOperandWorkspace "-1") = .error cause ∧
        generate .dart (textOperandWorkspace "'); f('") = .error cause) ∨
      ∃ program program', generate .dart (textOperandWorkspace "-1") = .ok program ∧
        generate .dart (textOperandWorkspace "'); f('") = .ok program' ∧ Text.blank program = Text.blank program') :=
  ⟨textOperandWorkspace_agree _ _,
    (text_content_does_not_interfere .dart _ _ (textOperandWorkspace_agree _ _)).1⟩

end Blockwork
