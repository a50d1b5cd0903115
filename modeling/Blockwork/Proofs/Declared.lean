/-
Top-level names: every name that a program declares is declared once and means one thing.

- `Definition.Origin`: where a hoisted definition comes from, as its key tells: a library, a helper, a temporary or
  a procedure.
- `Orderly`: what holds of the chronicle and the state of a run, beside the record of what the allocator was asked.
  Each event keeps it (`Orderly.happens`), so every run does (`programRun_keeps`).
- `top_level_names_are_unambiguous`: the main statement, about the state that a program is put together from.
-/
import Blockwork.Proofs.Allocation
import Blockwork.Proofs.Chronicle
import Blockwork.Proofs.Constructs

namespace Blockwork

/-! ## Keys -/

def libraryKeys : List String :=
  ["import_math", "import_random", "import_re", "from_numbers_import_number", "import_dart_math"]

def helperKeys : List String :=
  ["math_mean", "math_median", "math_modes", "math_standard_deviation", "math_random_item", "text_toTitleCase"]

/-- whether a step hoists, if at all, under a key that tells what it hoists -/
def Step.isKeyed : Step → Bool
  | helper h => helperKeys.contains h.key
  | require library => libraryKeys.contains library.key
  | hoist _ _ _ => false
  | _ => true

theorem Template.choiceSteps_leaving (falsity : String) (elseifs : Nat) (otherwise : Bool) :
    (choiceSteps falsity elseifs otherwise).filter Step.leavesText = choiceSteps falsity elseifs otherwise :=
  List.filter_eq_self.2 (choiceSteps_forall (fun _ => rfl) (fun _ => rfl) elseifs otherwise)

/-- only procedures in Dart hoist what the user wrote; all else is hoisted under a key that tells what it is -/
theorem Language.steps_isKeyed (language : Language) (form : Form) :
    (language.template form).steps.all Step.isKeyed ∨ language = .dart ∧ ∃ user, form = .procedure user := by
  cases form using Form.byData with
  | plain form hm =>
    have hplain : ∀ form ∈ Form.plain, (language.template form).steps.all Step.isKeyed := by
      cases language <;> decide +kernel
    exact .inl (hplain form hm)
  | list items => exact .inl (list_steps_all (fun _ => rfl) items)
  | choice elseifs otherwise => exact .inl (choice_steps_all (fun _ => rfl) (fun _ => rfl) elseifs otherwise)
  | onList op => left; cases language <;> cases op <;> rfl
  | changeCase style => left; cases language <;> cases style <;> rfl
  | procedure user =>
    cases language with
    | dart => exact .inr ⟨rfl, user, rfl⟩
    | _ => exact .inl rfl
  | _ => left; cases language <;> rfl

section

variable {language : Language} {form : Form}

theorem Language.helper_key {helper : Helper} (h : .helper helper ∈ (language.template form).steps) :
    helper.key ∈ helperKeys := by
  rcases language.steps_isKeyed form with hall | ⟨rfl, user, rfl⟩
  · have hkey := List.all_eq_true.1 hall _ h
    exact List.contains_iff_mem.1 hkey
  · simp [template, Target.Dart.template, Target.Dart.procedure, Target.Brace.procedureSteps, Template.tight] at h

theorem Language.library_key {library : Library} (h : .require library ∈ (language.template form).steps) :
    library.key ∈ libraryKeys := by
  rcases language.steps_isKeyed form with hall | ⟨rfl, user, rfl⟩
  · have hkey := List.all_eq_true.1 hall _ h
    exact List.contains_iff_mem.1 hkey
  · simp [template, Target.Dart.template, Target.Dart.procedure, Target.Brace.procedureSteps, Template.tight] at h

/-- what is hoisted in the middle of a template is a procedure, under the name its first step left -/
theorem Language.steps_before_hoist {before rest : List Step} {key : String} {name : Nat} {source : List Piece}
    (h : (language.template form).steps = before ++ .hoist key name source :: rest) :
    language = .dart ∧ key = "procedure_" ∧ name = 0 ∧
      source = (["dynamic ", 0, "() \x7b\n", Target.Brace.procedureBody .dart, "\x7d"] : List Piece) ∧
      ∃ user, form = .procedure user ∧ before = Target.Brace.procedureSteps user := by
  rcases language.steps_isKeyed form with hall | ⟨rfl, user, rfl⟩
  · rw [h, List.all_append, List.all_cons] at hall
    simp [Step.isKeyed] at hall
  · change Target.Brace.procedureSteps user ++ [.hoist "procedure_" 0 _] = _ at h
    rcases before with _ | ⟨a, _ | ⟨b, _ | ⟨c, _ | ⟨d, more⟩⟩⟩⟩
    all_goals simp only [Target.Brace.procedureSteps, List.cons_append, List.nil_append, List.cons.injEq] at h
    · cases h.1
    · cases h.2.1
    · cases h.2.2.1
    · obtain ⟨rfl, rfl, rfl, hhoist, rfl⟩ := h
      cases hhoist
      exact ⟨rfl, rfl, rfl, rfl, user, rfl, rfl⟩
    · have hlength := congrArg List.length h.2.2.2.2
      simp at hlength

end

/-- the key of a library or a helper is no key of a temporary or a procedure -/
theorem fixedKey_ne {key : String} (h : key ∈ helperKeys ++ libraryKeys) (name : String) :
    key ≠ "temp_" ++ name ∧ key ≠ "procedure_" ++ name := by
  have hkeys : ∀ key ∈ helperKeys ++ libraryKeys, ¬ "temp_".toList <+: key.toList ∧
      ¬ "procedure_".toList <+: key.toList := by
    decide
  obtain ⟨ht, hp⟩ := hkeys key h
  constructor
  · rintro rfl
    rw [String.toList_append] at ht
    exact ht (List.prefix_append _ _)
  · rintro rfl
    rw [String.toList_append] at hp
    exact hp (List.prefix_append _ _)

theorem temp_ne_procedure (name name' : String) : "temp_" ++ name ≠ "procedure_" ++ name' := by
  intro he
  have hhead := congrArg (fun text : String => text.toList.head?) he
  simp at hhead

/-! ## Where definitions come from -/

/-- where a hoisted definition comes from, the names in it being those of the record -/
inductive Definition.Origin (language : Language) (record : List (Names.Request × String)) : Definition → Prop
  | library {form : Form} {library : Library} : .require library ∈ (language.template form).steps →
      Origin language record ⟨library.key, none, library.source⟩
  | helper {form : Form} {helper : Helper} {name : String} : .helper helper ∈ (language.template form).steps →
      (.distinct helper.key, name) ∈ record → Origin language record ⟨helper.key, some name, helper.source name⟩
  | temporary {base name : String} : (.distinct base, name) ∈ record →
      Origin language record ⟨"temp_" ++ name, some name, "var " ++ name ++ ";"⟩
  | procedure {user name source : String} : (.bind .procedure user, name) ∈ record →
      Origin language record ⟨"procedure_" ++ name, some name, source⟩

namespace Definition.Origin

variable {language : Language} {record record' : List (Names.Request × String)} {definition : Definition}

theorem mono (h : definition.Origin language record) (hsub : record ⊆ record') :
    definition.Origin language record' := by
  cases h with
  | library hm => exact .library hm
  | helper hm hr => exact .helper hm (hsub hr)
  | temporary hr => exact .temporary (hsub hr)
  | procedure hr => exact .procedure (hsub hr)

/-- the name of a definition is one of the record: a fresh one, or that of the procedure which the key tells -/
theorem request (h : definition.Origin language record) {name : String} (hn : definition.name = some name) :
    (∃ base, (.distinct base, name) ∈ record) ∨
      definition.key = "procedure_" ++ name ∧ ∃ user, (.bind .procedure user, name) ∈ record := by
  cases h with
  | library _ => cases hn
  | helper _ hr => cases hn; exact .inl ⟨_, hr⟩
  | temporary hr => cases hn; exact .inl ⟨_, hr⟩
  | procedure hr => cases hn; exact .inr ⟨rfl, _, hr⟩

theorem name_mem (h : definition.Origin language record) {name : String} (hn : definition.name = some name) :
    ∃ request, (request, name) ∈ record := by
  rcases h.request hn with ⟨base, hr⟩ | ⟨-, user, hr⟩
  · exact ⟨_, hr⟩
  · exact ⟨_, hr⟩

/-- the key of a temporary belongs to a definition of that name -/
theorem name_of_temporary (h : definition.Origin language record) {name : String}
    (hk : definition.key = "temp_" ++ name) : definition.name = some name := by
  cases h with
  | library hm => exact absurd hk (fixedKey_ne (List.mem_append_right _ (Language.library_key hm)) name).1
  | helper hm _ => exact absurd hk (fixedKey_ne (List.mem_append_left _ (Language.helper_key hm)) name).1
  | temporary _ =>
    have hname := congrArg String.toList hk
    simp only [String.toList_append, List.append_cancel_left_eq, String.toList_inj] at hname
    rw [hname]
  | procedure _ => exact absurd hk.symm (temp_ne_procedure _ _)

/-- the key of a helper belongs to a definition with a fresh name -/
theorem name_of_helper (h : definition.Origin language record) (hk : definition.key ∈ helperKeys) :
    ∃ base name, definition.name = some name ∧ (.distinct base, name) ∈ record := by
  have hapart : ∀ key ∈ libraryKeys, key ∉ helperKeys := by decide
  cases h with
  | library hm => exact absurd hk (hapart _ (Language.library_key hm))
  | helper _ hr => exact ⟨_, _, rfl, hr⟩
  | temporary hr => exact ⟨_, _, rfl, hr⟩
  | procedure _ => exact absurd rfl (fixedKey_ne (List.mem_append_left _ hk) _).2

end Definition.Origin

/-! ## What a step settles -/

def Registry.names (registry : Registry) : List String :=
  registry.entries.filterMap Definition.name

theorem Registry.mem_names {registry : Registry} {name : String} :
    name ∈ registry.names ↔ ∃ definition ∈ registry.entries, definition.name = some name :=
  List.mem_filterMap

def temporaryDefinition (name : String) : Definition :=
  ⟨"temp_" ++ name, some name, "var " ++ name ++ ";"⟩

/-- what the text that a step left is, if it is a name -/
def Step.Accounts (record : List (Names.Request × String)) (registry : Registry) (text : String) : Step → Prop
  | userVariable user => (.bind .variable user, text) ∈ record
  | userProcedure user => (.bind .procedure user, text) ∈ record
  | fresh base => (.distinct base, text) ∈ record
  | temporary base => (.distinct base, text) ∈ record ∧ temporaryDefinition text ∈ registry.entries
  | helper h => (∃ base, (.distinct base, text) ∈ record) ∧
      ∃ definition ∈ registry.entries, definition.key = h.key ∧ definition.name = some text
  | _ => True

theorem Step.Accounts.mono {step : Step} {record record' : List (Names.Request × String)} {registry later : Registry}
    {text : String} (h : step.Accounts record registry text) (hrecord : record ⊆ record')
    (hentries : registry.entries <+: later.entries) : step.Accounts record' later text := by
  cases step with
  | userVariable user => exact hrecord h
  | userProcedure user => exact hrecord h
  | fresh base => exact hrecord h
  | temporary base => exact ⟨hrecord h.1, hentries.subset h.2⟩
  | helper helper =>
    obtain ⟨⟨base, hr⟩, definition, hm, hdefinition⟩ := h
    exact ⟨⟨base, hrecord hr⟩, definition, hentries.subset hm, hdefinition⟩
  | _ => trivial

/-- whether the text that a step leaves is a name -/
def Step.isName : Step → Bool
  | userVariable _ => true
  | userProcedure _ => true
  | fresh _ => true
  | temporary _ => true
  | helper _ => true
  | _ => false

/-- whether a step issues a name of its own at each visit -/
def Step.isTemporary : Step → Bool
  | temporary _ => true
  | fresh _ => true
  | _ => false

/-- a state in order: its names are those of the record, and so are the names of its definitions, each name in one
definition only -/
structure Settled (language : Language) (record : List (Names.Request × String)) (pass : Pass) : Prop where
  books : pass.names.Books language.reservedWords record
  origin : ∀ definition ∈ pass.registry.entries, definition.Origin language record
  nodup : pass.registry.names.Nodup

namespace Settled

variable {language : Language} {record record' : List (Names.Request × String)} {pass after : Pass} {log : List Event}
  {step : Step} {texts left : List String}

theorem start (language : Language) : Settled language [] (.start language) :=
  ⟨Names.books_start _, List.forall_mem_nil _, List.nodup_nil⟩

/-- a name that the allocator has not issued is in no definition -/
theorem new_name (h : Settled language record pass) {name : String} (hn : name ∉ pass.names.issued) :
    name ∉ pass.registry.names := by
  intro hm
  obtain ⟨definition, hd, hname⟩ := Registry.mem_names.1 hm
  obtain ⟨request, hr⟩ := (h.origin definition hd).name_mem hname
  exact (h.books.fresh hn).2 _ hr rfl

theorem issue (h : Settled language record pass) {names : Names} (hsub : record ⊆ record')
    (hbooks : names.Books language.reservedWords record') : Settled language record' { pass with names } :=
  ⟨hbooks, fun definition hm => (h.origin definition hm).mono hsub, h.nodup⟩

/-- a definition is hoisted whose name, if its key is new, is in no other -/
theorem hoist (h : Settled language record pass) (definition : Definition) (ho : definition.Origin language record)
    (hnew : ¬ pass.registry.contains definition.key →
      ∀ name, definition.name = some name → name ∉ pass.registry.names) :
    Settled language record { pass with
      registry := (pass.registry.request definition.key fun _ => (definition.name, definition.source)).2 } := by
  by_cases hk : pass.registry.contains definition.key
  · have hsame := Registry.entries_request pass.registry definition.key definition.name definition.source
    rw [if_pos hk] at hsame
    refine ⟨h.books, ?_, ?_⟩
    · simpa only [hsame] using h.origin
    · simpa only [Registry.names, hsame] using h.nodup
  · have hmore := Registry.entries_request pass.registry definition.key definition.name definition.source
    rw [if_neg hk] at hmore
    refine ⟨h.books, ?_, ?_⟩
    · simp only [hmore]
      exact List.forall_mem_append.2 ⟨h.origin, List.forall_mem_singleton.2 ho⟩
    · simp only [Registry.names, hmore, List.filterMap_append]
      refine List.nodup_append.2 ⟨h.nodup, ?_, ?_⟩
      · cases definition.name <;> simp
      · intro name hm other hother
        cases hn : definition.name with
        | none => simp [hn] at hother
        | some own =>
          obtain rfl : other = own := by simpa [hn] using hother
          rintro rfl
          exact hnew hk name hn hm

/-- a fresh name is issued, and a definition hoisted under it with a new key -/
theorem hoistFresh (h : Settled language record pass) {base key name source : String}
    (hname : (pass.names.distinct base).1 = name) (hkey : ¬ pass.registry.contains key)
    (ho : Definition.Origin language (record ++ [(.distinct base, name)]) ⟨key, some name, source⟩) :
    Settled language (record ++ [(.distinct base, name)])
        { pass with
          names := (pass.names.distinct base).2
          registry := (pass.registry.request key fun _ => (some name, source)).2 } ∧
      ⟨key, some name, source⟩ ∈ (pass.registry.request key fun _ => (some name, source)).2.entries := by
  subst hname
  constructor
  · have hissued := h.issue (List.subset_append_left _ _) (h.books.distinct base)
    refine hissued.hoist _ ho fun _ name hn => ?_
    obtain rfl := Option.some.inj hn
    exact h.new_name (Names.distinct_not_mem pass.names base)
  · rw [Registry.entries_request, if_neg hkey]
    exact List.mem_append_right _ List.mem_cons_self

/-- the key of a temporary under a name not yet issued is new -/
theorem temporary_key (h : Settled language record pass) {name : String} (hn : name ∉ pass.names.issued) :
    ¬ pass.registry.contains ("temp_" ++ name) := by
  intro hc
  obtain ⟨definition, hm, hk⟩ := (Registry.contains_iff _ _).1 hc
  exact h.new_name hn (Registry.mem_names.2 ⟨definition, hm, (h.origin definition hm).name_of_temporary hk⟩)

/-- a procedure whose key is new is in no definition: whoever has its name is that procedure -/
theorem procedure_name (h : Settled language record pass) {user name : String}
    (hr : (.bind .procedure user, name) ∈ record) (hkey : ¬ pass.registry.contains ("procedure_" ++ name)) :
    name ∉ pass.registry.names := by
  intro hm
  obtain ⟨definition, hd, hname⟩ := Registry.mem_names.1 hm
  rcases (h.origin definition hd).request hname with ⟨base, hbase⟩ | ⟨hk, -⟩
  · cases h.books.eq_bind hr hbase
  · exact hkey ((Registry.contains_iff _ _).2 ⟨definition, hd, hk⟩)

/-- what the texts before a hoisted definition say: the name it goes under is that of a procedure -/
theorem hoist_name {form : Form} {before rest : List Step} {key : String} {place : Nat} {source : List Piece}
    (haccount : ∀ form step text, .left form step text ∈ log → step.Accounts record pass.registry text)
    (hsteps : (language.template form).steps = before ++ .hoist key place source :: rest)
    (hdone : Done log pass form before texts) :
    key = "procedure_" ∧ ∃ user, (.bind .procedure user, Piece.textAt texts place) ∈ record := by
  obtain ⟨-, rfl, rfl, -, user, rfl, rfl⟩ := Language.steps_before_hoist hsteps
  refine ⟨rfl, user, ?_⟩
  have hleft := hdone.left
  cases hleft with
  | cons hfirst _ => exact haccount _ _ _ hfirst

/-- **A step keeps the state in order**, and the text it leaves is what a step of its kind leaves; a name of its own
is new. -/
theorem does (h : Settled language record pass) {form : Form} {before rest : List Step}
    (haccount : ∀ form step text, .left form step text ∈ log → step.Accounts record pass.registry text)
    (hsteps : (language.template form).steps = before ++ step :: rest) (hdone : Done log pass form before texts)
    (hdoes : step.Does language log pass texts left after) :
    ∃ record', record ⊆ record' ∧ Settled language record' after ∧
      ∀ text ∈ left, step.Accounts record' after.registry text ∧
        (step.isTemporary → ∀ entry ∈ record, entry.2 ≠ text) := by
  have hmem : step ∈ (language.template form).steps := by
    rw [hsteps]
    exact List.mem_append_right _ List.mem_cons_self
  cases hdoes with
  | userVariable =>
    refine ⟨_, List.subset_append_left _ _, h.issue (List.subset_append_left _ _) (h.books.bind _ _), ?_⟩
    refine List.forall_mem_singleton.2 ⟨?_, fun ht => by cases ht⟩
    exact List.mem_append_right _ List.mem_cons_self
  | userProcedure =>
    refine ⟨_, List.subset_append_left _ _, h.issue (List.subset_append_left _ _) (h.books.bind _ _), ?_⟩
    refine List.forall_mem_singleton.2 ⟨?_, fun ht => by cases ht⟩
    exact List.mem_append_right _ List.mem_cons_self
  | @fresh base =>
    refine ⟨_, List.subset_append_left _ _, h.issue (List.subset_append_left _ _) (h.books.distinct _), ?_⟩
    refine List.forall_mem_singleton.2 ⟨List.mem_append_right _ List.mem_cons_self, fun _ => ?_⟩
    exact (h.books.fresh (Names.distinct_not_mem pass.names base)).2
  | @temporary base name hname =>
    have hnew : name ∉ pass.names.issued := hname ▸ Names.distinct_not_mem pass.names base
    have hr : (.distinct base, name) ∈ record ++ [(.distinct base, name)] :=
      List.mem_append_right _ List.mem_cons_self
    obtain ⟨hsettled, hm⟩ := h.hoistFresh hname (h.temporary_key hnew) (.temporary hr)
    refine ⟨_, List.subset_append_left _ _, hsettled, ?_⟩
    exact List.forall_mem_singleton.2 ⟨⟨hr, hm⟩, fun _ => (h.books.fresh hnew).2⟩
  | @helper helper definition hfind =>
    have hd := Registry.mem_of_find? hfind
    have hk : definition.key = helper.key := Registry.key_of_find? hfind
    obtain ⟨base, name, hn, hr⟩ := (h.origin definition hd).name_of_helper (hk ▸ Language.helper_key hmem)
    refine ⟨record, List.Subset.refl _, h, List.forall_mem_singleton.2 ⟨?_, fun ht => by cases ht⟩⟩
    rw [hn]
    exact ⟨⟨base, hr⟩, definition, hd, hk, hn⟩
  | @firstHelper helper name hfind hname =>
    have hkey : ¬ pass.registry.contains helper.key := by simp [Registry.contains_eq, hfind]
    have hr : (.distinct helper.key, name) ∈ record ++ [(.distinct helper.key, name)] :=
      List.mem_append_right _ List.mem_cons_self
    obtain ⟨hsettled, hm⟩ := h.hoistFresh hname hkey (.helper hmem hr)
    refine ⟨_, List.subset_append_left _ _, hsettled, List.forall_mem_singleton.2 ⟨?_, fun ht => by cases ht⟩⟩
    exact ⟨⟨_, hr⟩, _, hm, rfl, rfl⟩
  | @require library =>
    refine ⟨record, List.Subset.refl _, ?_, List.forall_mem_nil _⟩
    exact h.hoist ⟨library.key, none, library.source⟩ (.library hmem) fun _ _ hn => by cases hn
  | @hoist key place source =>
    obtain ⟨rfl, user, hr⟩ := hoist_name haccount hsteps hdone
    refine ⟨record, List.Subset.refl _, ?_, List.forall_mem_nil _⟩
    refine h.hoist ⟨_, some _, _⟩ (.procedure hr) fun hkey name hn => ?_
    obtain rfl := Option.some.inj hn
    exact h.procedure_name hr hkey
  | _ => exact ⟨record, List.Subset.refl _, h, List.forall_mem_singleton.2 ⟨trivial, fun ht => by cases ht⟩⟩

end Settled

/-! ## What every run keeps in order -/

/-- the name of its own that a step left -/
def Event.temporary? : Event → Option String
  | left _ step text => if step.isTemporary then some text else none
  | _ => none

/-- the temporary in the code of a block that takes the end of a text -/
def Event.usedTemporary? : Event → Option String
  | code (.endString .last) _ texts _ => some (Piece.textAt texts 2)
  | _ => none

def temporaries (log : List Event) : List String :=
  log.filterMap Event.temporary?

def usedTemporaries (log : List Event) : List String :=
  log.filterMap Event.usedTemporary?

/-- a run in order -/
structure Orderly (language : Language) (record : List (Names.Request × String)) (log : List Event) (pass : Pass) :
    Prop where
  settled : Settled language record pass
  account : ∀ form step text, .left form step text ∈ log → step.Accounts record pass.registry text
  temporaries_nodup : (temporaries log).Nodup
  -- a temporary is used by the block that issued it, right after it was issued
  used : (usedTemporaries log).Sublist (temporaries log.dropLast)

namespace Orderly

variable {language : Language} {record record' : List (Names.Request × String)} {log log' : List Event}
  {pass pass' after : Pass}

theorem start (language : Language) : Orderly language [] [] (.start language) :=
  ⟨.start language, fun _ _ _ h => absurd h List.not_mem_nil, List.nodup_nil, .slnil⟩

theorem temporary_mem (h : Orderly language record log pass) {name : String} (hm : name ∈ temporaries log) :
    ∃ base, (.distinct base, name) ∈ record := by
  obtain ⟨event, he, ht⟩ := List.mem_filterMap.1 hm
  cases event with
  | code => cases ht
  | chain => cases ht
  | left form step text =>
    simp only [Event.temporary?] at ht
    split_ifs at ht with hstep
    obtain rfl := Option.some.inj ht
    have haccount := h.account form step text he
    cases step with
    | temporary base => exact ⟨base, haccount.1⟩
    | fresh base => exact ⟨base, haccount⟩
    | _ => cases hstep

/-- an event that is no code of a block uses no temporary -/
theorem used_concat (h : Orderly language record log pass) {event : Event} (he : event.usedTemporary? = none) :
    (usedTemporaries (log ++ [event])).Sublist (temporaries (log ++ [event]).dropLast) := by
  have hsame : usedTemporaries (log ++ [event]) = usedTemporaries log := by simp [usedTemporaries, he]
  rw [hsame, List.dropLast_concat]
  exact h.used.trans ((List.dropLast_sublist log).filterMap _)

/-- the code of a block uses the temporary that its last step issued -/
theorem used_code (h : Orderly language record log pass) {form : Form} {bare : Bool} {texts : List String}
    {text : String} (hdone : Done log pass form (language.template form).steps texts)
    (hlatest : Latest log form (language.template form).steps texts) :
    (usedTemporaries (log ++ [.code form bare texts text])).Sublist
      (temporaries (log ++ [Event.code form bare texts text]).dropLast) := by
  by_cases hform : form = .endString .last
  · subst hform
    have hlast : ∃ step, (language.template (.endString .last)).steps.getLast? = some step ∧ step.isTemporary ∧
        step.leavesText := by
      cases language <;> exact ⟨_, rfl, rfl, rfl⟩
    have hlength : texts.length = 3 := by
      rw [← hdone.left.length_eq]
      cases language <;> rfl
    obtain ⟨step, hstep, htemporary, hleaves⟩ := hlast
    obtain ⟨name, hname, hevent⟩ := hlatest step hstep hleaves
    have htext : Piece.textAt texts 2 = name := by
      rw [List.getLast?_eq_getElem?, hlength] at hname
      rw [Piece.textAt, List.getD_eq_getElem?_getD, hname]
      rfl
    have hlog : temporaries log = temporaries log.dropLast ++ [name] := by
      rw [← List.dropLast_append_getLast? _ hevent, List.dropLast_concat]
      simp [temporaries, Event.temporary?, htemporary]
    have hused : usedTemporaries (log ++ [.code (.endString .last) bare texts text]) =
        usedTemporaries log ++ [name] := by
      simp [usedTemporaries, Event.usedTemporary?, htext]
    rw [List.dropLast_concat, hlog, hused]
    exact h.used.append (List.Sublist.refl _)
  · refine h.used_concat ?_
    unfold Event.usedTemporary?
    split
    · rename_i heq
      cases heq
      exact absurd rfl hform
    · rfl

/-- an event that is no text of a step leaves all in order that was -/
theorem quiet (h : Orderly language record log pass) {event : Event}
    (he : ∀ form step text, event ≠ .left form step text)
    (hused : (usedTemporaries (log ++ [event])).Sublist (temporaries (log ++ [event]).dropLast)) :
    Orderly language record (log ++ [event]) pass := by
  refine ⟨h.settled, fun form step text hm => ?_, ?_, hused⟩
  · rcases List.mem_append.1 hm with hm | hm
    · exact h.account form step text hm
    · exact absurd (List.mem_singleton.1 hm).symm (he form step text)
  · have hnone : event.temporary? = none := by
      cases event with
      | left form step text => exact absurd rfl (he form step text)
      | _ => rfl
    simpa [temporaries, hnone] using h.temporaries_nodup

theorem step (h : Orderly language record log pass) {form : Form} {before rest : List Step} {step : Step}
    {texts left : List String} (hsteps : (language.template form).steps = before ++ step :: rest)
    (hdone : Done log pass form before texts) (hdoes : step.Does language log pass texts left after) :
    ∃ record', Orderly language record' (log ++ left.map (.left form step)) after := by
  obtain ⟨record', hsub, hsettled, hleft⟩ := h.settled.does h.account hsteps hdone hdoes
  have haccount : ∀ form step text, .left form step text ∈ log → step.Accounts record' after.registry text :=
    fun form step text hm => (h.account form step text hm).mono hsub hdoes.entries_prefix
  refine ⟨record', ?_⟩
  rcases hdoes.left_eq with ⟨-, text, rfl⟩ | ⟨-, rfl⟩
  · obtain ⟨hown, hnew⟩ := hleft text List.mem_cons_self
    refine ⟨hsettled, fun form' step' text' hm => ?_, ?_, h.used_concat rfl⟩
    · rcases List.mem_append.1 hm with hm | hm
      · exact haccount form' step' text' hm
      · cases List.mem_singleton.1 hm
        exact hown
    · by_cases htemporary : step.isTemporary
      · have hout : text ∉ temporaries log := by
          intro hm
          obtain ⟨base, hr⟩ := h.temporary_mem hm
          exact hnew htemporary _ hr rfl
        have hmore : temporaries (log ++ [.left form step text]) = (temporaries log).concat text := by
          simp [temporaries, Event.temporary?, htemporary]
        rw [List.map_singleton, hmore]
        exact h.temporaries_nodup.concat hout
      · simpa [temporaries, Event.temporary?, htemporary] using h.temporaries_nodup
  · rw [List.map_nil, List.append_nil]
    exact ⟨hsettled, haccount, h.temporaries_nodup, h.used⟩

/-- a name that a step left is an identifier, and no reserved word -/
theorem identifier (h : Orderly language record log pass) {form : Form} {step : Step} {text : String}
    (hm : .left form step text ∈ log) (hstep : step.isName) :
    Names.IsIdentifier text ∧ text ∉ language.reservedWords := by
  have hrecord : ∀ {request : Names.Request}, (request, text) ∈ record →
      Names.IsIdentifier text ∧ text ∉ language.reservedWords :=
    fun hr => ⟨h.settled.books.identifier _ hr, h.settled.books.unreserved _ hr⟩
  have haccount := h.account form step text hm
  cases step with
  | userVariable user => exact hrecord haccount
  | userProcedure user => exact hrecord haccount
  | fresh base => exact hrecord haccount
  | temporary base => exact hrecord haccount.1
  | helper helper =>
    obtain ⟨⟨base, hr⟩, -⟩ := haccount
    exact hrecord hr
  | _ => cases hstep

/-- **Each event keeps a run in order.** -/
theorem happens (h : Orderly language record log pass) (hh : Happens language log pass log' pass') :
    ∃ record', Orderly language record' log' pass' := by
  cases hh with
  | step hsteps hdone hdoes => exact h.step hsteps hdone hdoes
  | code bare hdone hlatest => exact ⟨record, h.quiet (fun _ _ _ he => nomatch he) (h.used_code hdone hlatest)⟩
  | chain _ _ => exact ⟨record, h.quiet (fun _ _ _ he => nomatch he) (h.used_concat rfl)⟩

end Orderly

/-- **What each event keeps in runs in order, every run keeps.** -/
theorem programRun_keeps (inv : List Event → Pass → Prop) (language : Language) (blocks : List Block)
    (hstart : inv [] (.start language))
    (hstep : ∀ {record log pass log' pass'}, Orderly language record log' pass' →
      Happens language log pass log' pass' → inv log pass → inv log' pass') :
    ∃ record, Orderly language record (programChronicle language blocks) (programRun language blocks).2 ∧
      inv (programChronicle language blocks) (programRun language blocks).2 := by
  refine (programRun_unfolds language blocks).1.keeps
    (fun log pass => ∃ record, Orderly language record log pass ∧ inv log pass) ⟨[], .start language, hstart⟩ ?_
  rintro log pass log' pass' hh ⟨record, h, hinv⟩
  obtain ⟨record', h'⟩ := h.happens hh
  exact ⟨record', h', hstep h' hh hinv⟩

/-! ## Top-level names -/

def Form.userVariable? : Form → Option String
  | get name => some name
  | set name => some name
  | change name => some name
  | count name => some name
  | forEach name => some name
  | _ => none

/-- the construct with another variable -/
def Form.withVariable (name : String) : Form → Form
  | get _ => get name
  | set _ => set name
  | change _ => change name
  | count _ => count name
  | forEach _ => forEach name
  | form => form

/-- the steps of a construct's template that leave a text, each with the text it left -/
def Language.placed (language : Language) (form : Form) (texts : List String) : List (Step × String) :=
  ((language.template form).steps.filter Step.leavesText).zip texts

/-- every name that a program declares is declared once and means one thing -/
structure Unambiguous (language : Language) (log : List Event) (pass : Pass) : Prop where
  /-- no two definitions introduce one name, and no two variables have one -/
  nodup : pass.registry.names.Nodup ∧ pass.names.variableNames.Nodup
  /-- no definition introduces the name of a variable -/
  disjoint : ∀ name ∈ pass.registry.names, name ∉ pass.names.variableNames
  /-- no name of a definition, a variable or a procedure is a reserved word -/
  unreserved : ∀ name, (name ∈ pass.registry.names ∨ name ∈ pass.names.variableNames ∨
    ∃ user, pass.names.binding? .procedure user = some name) → name ∉ language.reservedWords
  /-- the name of a procedure is no variable, no temporary and no helper, and a definition of that name is that of the
  procedure -/
  procedure : ∀ user name, pass.names.binding? .procedure user = some name → name ∉ pass.names.variableNames ∧
    name ∉ temporaries log ∧ (∀ form helper, .left form (.helper helper) name ∉ log) ∧
    ∀ definition ∈ pass.registry.entries, definition.name = some name → definition.key = "procedure_" ++ name
  /-- the code of a construct with a variable holds, in the variable's place, the one name of that variable, and is
  laid out in a way that does not depend on what the user calls it -/
  spliced : ∀ form bare texts text user, .code form bare texts text ∈ log → form.userVariable? = some user →
    text = (language.template form).render texts bare ∧
      (∀ other, (language.template (form.withVariable other)).shape = (language.template form).shape) ∧
      ∃ name ∈ pass.names.variableNames,
        pass.names.binding? .variable user = some name ∧ (.userVariable user, name) ∈ language.placed form texts
  /-- where temporaries are declared, that in the code of a block which takes the end of a text is declared, by one
  definition -/
  temporary : language ≠ .python → ∀ bare texts text, .code (.endString .last) bare texts text ∈ log →
    text = (language.template (.endString .last)).render texts bare ∧
      (.temporary "temp_text", Piece.textAt texts 2) ∈ language.placed (.endString .last) texts ∧
      pass.registry.entries.filter (·.name = some (Piece.textAt texts 2)) =
        [temporaryDefinition (Piece.textAt texts 2)]
  /-- different blocks that take the end of a text have different temporaries -/
  apart : (usedTemporaries log).Nodup

theorem Registry.filter_eq_singleton {entries : List Definition} {definition : Definition} {name : String}
    (hn : (entries.filterMap Definition.name).Nodup) (hm : definition ∈ entries) (hd : definition.name = some name) :
    entries.filter (·.name = some name) = [definition] := by
  induction entries with
  | nil => cases hm
  | cons first rest ih =>
    by_cases hf : first.name = some name
    · rw [List.filterMap_cons_some hf, List.nodup_cons] at hn
      have hnone : ∀ other ∈ rest, other.name ≠ some name :=
        fun other ho he => hn.1 (List.mem_filterMap.2 ⟨other, ho, he⟩)
      rcases List.mem_cons.1 hm with rfl | hm
      · simpa [hf] using hnone
      · exact absurd hd (hnone definition hm)
    · have hrest : (rest.filterMap Definition.name).Nodup := by
        refine hn.sublist ?_
        exact (List.sublist_cons_self first rest).filterMap _
      rcases List.mem_cons.1 hm with rfl | hm
      · exact absurd hd hf
      · simpa [hf] using ih hrest hm

theorem Form.userVariable_mem {form : Form} {user : String} (h : form.userVariable? = some user) (language : Language) :
    .userVariable user ∈ (language.template form).steps.filter Step.leavesText := by
  cases form <;> cases h <;> cases language <;> simp [Language.template, Target.JavaScript.template,
    Target.Dart.template, Target.Python.template, Target.Brace.get, Target.Brace.set, Target.Brace.count,
    Target.Brace.forEach, Template.tight, Template.number, Template.list, Step.leavesText]

theorem Form.shape_withVariable (form : Form) (language : Language) (other : String) :
    (language.template (form.withVariable other)).shape = (language.template form).shape := by
  cases form with
  | get _ => cases language <;> rfl
  | set _ => cases language <;> rfl
  | change _ => cases language <;> rfl
  | count _ => cases language <;> rfl
  | forEach _ => cases language <;> rfl
  | _ => rfl

/-- where temporaries are declared, the third text of a block which takes the end of a text is one -/
theorem Language.placed_temporary {language : Language} (hl : language ≠ .python) {texts : List String}
    (h : ((language.template (.endString .last)).steps.filter Step.leavesText).length = texts.length) :
    (.temporary "temp_text", Piece.textAt texts 2) ∈ language.placed (.endString .last) texts := by
  have hsteps : (language.template (.endString .last)).steps.filter Step.leavesText =
      [Template.number 0 false, Template.string 1 true, .temporary "temp_text"] := by
    cases language with
    | python => exact absurd rfl hl
    | _ => rfl
  rw [hsteps] at h
  obtain ⟨count, subject, name, rfl⟩ := List.length_eq_three.1 h.symm
  rw [placed, hsteps]
  exact List.mem_cons_of_mem _ (List.mem_cons_of_mem _ List.mem_cons_self)

theorem Orderly.unambiguous {language : Language} {record : List (Names.Request × String)} {log : List Event}
    {pass : Pass} (h : Orderly language record log pass)
    (hlaid : ∀ form bare texts text, .code form bare texts text ∈ log →
      text = (language.template form).render texts bare ∧
        List.Forall₂ (fun step text => .left form step text ∈ log)
          ((language.template form).steps.filter Step.leavesText) texts) : Unambiguous language log pass := by
  have hbooks := h.settled.books
  have hvariable := hbooks.mem_variableNames
  have hdefined : ∀ name ∈ pass.registry.names, (∃ base, (.distinct base, name) ∈ record) ∨
      ∃ user, (.bind .procedure user, name) ∈ record := by
    intro name hm
    obtain ⟨definition, hd, hname⟩ := Registry.mem_names.1 hm
    exact ((h.settled.origin definition hd).request hname).imp id And.right
  constructor
  · refine ⟨h.settled.nodup, ?_⟩
    rw [hbooks.variableNames]
    exact Names.nodup_eraseDups _
  · intro name hm hv
    obtain ⟨user, hr⟩ := (hvariable name).1 hv
    rcases hdefined name hm with ⟨base, hb⟩ | ⟨other, hb⟩
    · cases hbooks.eq_bind hr hb
    · cases hbooks.eq_bind hr hb
  · rintro name (hm | hm | ⟨user, hb⟩)
    · rcases hdefined name hm with ⟨base, hr⟩ | ⟨user, hr⟩
      · exact hbooks.unreserved _ hr
      · exact hbooks.unreserved _ hr
    · obtain ⟨user, hr⟩ := (hvariable name).1 hm
      exact hbooks.unreserved _ hr
    · exact hbooks.unreserved _ ((hbooks.bound _ _ _).1 hb)
  · intro user name hb
    have hr := (hbooks.bound _ _ _).1 hb
    refine ⟨fun hm => ?_, fun hm => ?_, fun form helper hm => ?_, fun definition hd hname => ?_⟩
    · obtain ⟨other, hv⟩ := (hvariable name).1 hm
      cases hbooks.eq_bind hr hv
    · obtain ⟨base, hd⟩ := h.temporary_mem hm
      cases hbooks.eq_bind hr hd
    · obtain ⟨⟨base, hd⟩, -⟩ := h.account _ _ _ hm
      cases hbooks.eq_bind hr hd
    · rcases (h.settled.origin definition hd).request hname with ⟨base, hd⟩ | ⟨hk, -⟩
      · cases hbooks.eq_bind hr hd
      · exact hk
  · intro form bare texts text user hm hu
    obtain ⟨htext, hleft⟩ := hlaid form bare texts text hm
    refine ⟨htext, form.shape_withVariable language, ?_⟩
    obtain ⟨hlength, hzip⟩ := List.forall₂_iff_zip.1 hleft
    have hfirst : (language.placed form texts).map Prod.fst = (language.template form).steps.filter Step.leavesText :=
      List.map_fst_zip hlength.le
    obtain ⟨⟨step, name⟩, hplaced, rfl⟩ := List.mem_map.1 (hfirst ▸ Form.userVariable_mem hu language)
    have hr := h.account _ _ _ (hzip hplaced)
    exact ⟨name, (hvariable name).2 ⟨user, hr⟩, (hbooks.bound _ _ _).2 hr, hplaced⟩
  · intro hpython bare texts text hm
    obtain ⟨htext, hleft⟩ := hlaid _ bare texts text hm
    obtain ⟨hlength, hzip⟩ := List.forall₂_iff_zip.1 hleft
    have hplaced := Language.placed_temporary hpython hlength
    have hdeclared := (h.account _ _ _ (hzip hplaced)).2
    exact ⟨htext, hplaced, Registry.filter_eq_singleton h.settled.nodup hdeclared rfl⟩
  · exact (h.temporaries_nodup.sublist ((List.dropLast_sublist log).filterMap _)).sublist h.used

/-- **Every top-level name is declared once and is unambiguous**, whatever the workspace. What is said of a program
holds of the state it is put together from, and of every block visited on the way. -/
theorem top_level_names_are_unambiguous (language : Language) (blocks : List Block) :
    generate language blocks = (programRun language blocks).1.map (programRun language blocks).2.finish ∧
      Unambiguous language (programChronicle language blocks) (programRun language blocks).2 := by
  obtain ⟨record, h, -⟩ := programRun_keeps (fun _ _ => True) language blocks trivial fun _ _ _ => trivial
  exact ⟨generate_eq language blocks, h.unambiguous fun _ _ _ _ hm => programChronicle_laid hm⟩

/-- a block that takes the end of a text, around another one, beside a variable that has the name they ask for -/
example : usedTemporaries (programChronicle .dart [
    .mk { Head.bare Kind.endString.name with labels := [(0, "LAST")] }
      [(0, .variableGet "temp_text"),
        (1, .leaf { Head.bare Kind.endString.name with labels := [(0, "LAST")] })] [] none])
    = ["temp_text2", "temp_text3"] := by
  decide +kernel

end Blockwork
