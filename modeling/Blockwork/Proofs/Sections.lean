/-
Programs come apart into their sections.

- `Pass.Rowed`: no definition has an empty line, and helpers find their names. `Step.yields_run`, `Template.yields_run`:
  steps leave texts of their texture, and templates make words or rows of them.
- `Block.WellPlugged`: the blocks in all value slots that are visited are of value kinds. `Block.yields_chain`: the code
  of a chain of such blocks is made of rows.
- `Pass.parts`: the sections of a program, written out. `Pass.variableSections_eq`, `Pass.bodySections_eq`: they are what
  is joined.
- `programs_come_apart`: the main statement.
-/
import Blockwork.Proofs.Operands
import Blockwork.Proofs.RowTemplates

namespace Blockwork

/-! ## States without empty lines -/

/-- the identifiers that are bound for a role, in the order of first use -/
def Names.boundFor (names : Names) (role : Role) : List String :=
  ((names.bound.filter fun entry => entry.1.1 = role).map Prod.snd).reverse

def Names.Listed (names : Names) : Prop :=
  names.variableNames = names.boundFor .variable

theorem Names.Listed.bind {names : Names} (h : names.Listed) (role : Role) (user : String) :
    (names.bind role user).2.Listed := by
  unfold Names.bind
  cases names.binding? role user with
  | some name => exact h
  | none =>
    have hold : (names.distinct user).2.boundFor .variable = names.variableNames := h.symm
    by_cases hr : role = .variable
    · simp only [Listed, boundFor, hr, List.filter_cons, decide_true, if_true, List.map_cons, List.reverse_cons]
      exact congrArg (· ++ _) hold.symm
    · simp only [Listed, boundFor, hr, List.filter_cons, decide_false, if_false, Bool.false_eq_true]
      exact hold.symm

/-- no definition has an empty line, every name is a word, and only helpers have the keys of helpers -/
structure Pass.Rowed (language : Language) (pass : Pass) : Prop where
  language : pass.language = language
  names : pass.names.WellFormed
  listed : pass.names.Listed
  sources : ∀ definition ∈ pass.registry.entries, IsSection definition.source
  titles : ∀ definition ∈ pass.registry.entries, ∀ name ∈ definition.name, IsWord name
  nameless : ∀ definition ∈ pass.registry.entries, definition.name = none → definition.key ∉ helperKeys

theorem Pass.rowed_start (language : Language) : (Pass.start language).Rowed language :=
  ⟨rfl, Names.wellFormed_start _, rfl, List.forall_mem_nil _, List.forall_mem_nil _, List.forall_mem_nil _⟩

namespace Gen

variable {language : Language}

theorem yields_nameOf (role : Role) (user : String) : Yields (Pass.Rowed language) (nameOf role user) IsWord := by
  refine fun pass hp => ⟨⟨hp.language, (hp.names.bind role user).2, hp.listed.bind role user, hp.sources, hp.titles,
    hp.nameless⟩, ?_⟩
  rintro _ ⟨⟩
  exact .identifier (hp.names.bind role user).1

theorem yields_freshName (base : String) : Yields (Pass.Rowed language) (freshName base) IsWord := by
  refine fun pass hp => ⟨⟨hp.language, hp.names.distinct base, hp.listed, hp.sources, hp.titles, hp.nameless⟩, ?_⟩
  rintro _ ⟨⟩
  exact .identifier (Names.isIdentifier_distinct pass.names base)

theorem yields_define {key source : String} {name : Option String} (hs : IsSection source)
    (hn : ∀ n ∈ name, IsWord n) (hk : name = none → key ∉ helperKeys) :
    Yields (Pass.Rowed language) (define key name source) fun _ => True := by
  refine fun pass hp => ⟨?_, fun _ _ => trivial⟩
  rw [Pass.perform_define]
  refine ⟨hp.language, hp.names, hp.listed, ?_, ?_, ?_⟩
  all_goals
    simp only [Registry.entries_request]
    split_ifs
  · exact hp.sources
  · exact List.forall_mem_append.2 ⟨hp.sources, List.forall_mem_singleton.2 hs⟩
  · exact hp.titles
  · exact List.forall_mem_append.2 ⟨hp.titles, List.forall_mem_singleton.2 hn⟩
  · exact hp.nameless
  · exact List.forall_mem_append.2 ⟨hp.nameless, List.forall_mem_singleton.2 hk⟩

theorem yields_defineNamed {key name source : String} (hs : IsSection source) (hn : IsWord name) :
    Yields (Pass.Rowed language) (define key (some name) source) fun _ => True := by
  refine yields_define hs (fun n hm => ?_) fun hnone => nomatch hnone
  exact Option.mem_some_iff.1 hm ▸ hn

/-- the name of a helper is there, because nothing without a name has its key -/
theorem yields_provide {key : String} (hk : key ∈ helperKeys) (base : String) {source : String → String}
    (hs : ∀ name, IsWord name → IsSection (source name)) :
    Yields (Pass.Rowed language) (provide key base source) IsWord := by
  intro pass hp
  simp only [provide, Pass.perform_bind, Pass.perform_get]
  cases hf : pass.registry.find? key with
  | some definition =>
    have hm := Registry.mem_of_find? hf
    have hkey : definition.key = key := Registry.key_of_find? hf
    refine yields_pure ?_ pass hp
    cases hname : definition.name with
    | none => exact absurd (hkey ▸ hk) (hp.nameless definition hm hname)
    | some name => exact hp.titles definition hm name hname
  | none =>
    refine (yields_freshName base).bind (fun name hname => ?_) pass hp
    exact (yields_defineNamed (hs name hname) hname).bind fun _ _ => yields_pure hname

theorem yields_declareTemporary (base : String) :
    Yields (Pass.Rowed language) (declareTemporary base) IsWord := by
  refine (yields_freshName base).bind fun name hname => ?_
  have hline : IsWord ("var " ++ name ++ ";") := (hname.behind (by decide)).append (by decide)
  exact (yields_defineNamed hline.isSection hname).bind fun _ _ => yields_pure hname

end Gen

/-! ## Steps -/

theorem Helper.isSection_source {helper : Helper} (h : helper.isRowed) {name : String} (hn : IsWord name) :
    IsSection (helper.source name) := by
  simp only [isRowed, Bool.and_eq_true, decide_eq_true_eq, List.all_eq_true] at h
  obtain ⟨⟨hbefore, hafter⟩, hbody⟩ := h
  refine isSection_joinWith (List.cons_ne_nil _ _) (List.forall_mem_cons.2 ⟨?_, fun line hm => ?_⟩)
  · exact ((hn.behind hbefore).append hafter).isSection
  · exact (hbody line hm).isSection

/-- the blocks in the value slots that are visited give words, those in the statement slots give rows -/
structure Site.Rowed (inv : Pass → Prop) (site : Site) (visits : List Visit) : Prop where
  value : ∀ slot, .value slot ∈ visits → ∀ child, Slots.get? slot site.values = some child → ∀ bare,
    (child.code bare).Yields inv IsWord
  statement : ∀ slot, .statement slot ∈ visits → ∀ child, Slots.get? slot site.statements = some child →
    child.chain.Yields inv IsRows

namespace Site.Rowed

variable {inv : Pass → Prop} {site : Site} {visits : List Visit} {slot : Nat}

theorem value? (hs : site.Rowed inv visits) (hv : .value slot ∈ visits) (bare : Bool) :
    (site.value? slot bare).Yields inv fun found => ∀ text ∈ found, IsWord text := by
  exact Site.yields_found fun child hc => hs.value slot hv child hc bare

/-- a value slot gives a word, unless nothing stands in for an empty one -/
theorem valueOr (hs : site.Rowed inv visits) (hv : .value slot ∈ visits) (bare : Bool) {absent : String}
    (ha : absent = "" ∨ IsWord absent) :
    (site.value slot bare absent).Yields inv (if absent = "" then Texture.gap else .word).Fits := by
  refine Site.yields_value (hs.value? hv bare) (fun text htext => ?_) fun _ => ?_
  · have hword := htext text rfl
    split_ifs
    · exact .inr hword
    · exact hword
  · split_ifs with he
    · exact .inl he
    · exact ha.resolve_left he

theorem statement? (hs : site.Rowed inv visits) (hv : .statement slot ∈ visits) :
    (site.statement? slot).Yields inv fun found => ∀ text ∈ found, IsRows text := by
  exact Site.yields_foundLines (fun first hc => hs.statement slot hv first hc) fun _ _ hcode =>
    hcode.prefixLines (by decide)

theorem branch {language : Language} (hs : site.Rowed (Pass.Rowed language) visits) (hv : .statement slot ∈ visits) :
    (site.branch slot).Yields (Pass.Rowed language) IsRows := by
  refine Site.yields_branch (hs.statement? hv) (fun text htext => htext text rfl) fun _ pass _ => ?_
  have hnoop : IsWord (Text.indentation ++ pass.language.noop) := by cases pass.language <;> decide
  exact hnoop.isSection.newline

end Site.Rowed

section

variable {language : Language} {form : Form} {site : Site}

/-- **One step** leaves a text of its texture. -/
theorem Step.yields_run {step : Step} (hm : step ∈ (language.template form).steps)
    (hs : site.Rowed (Pass.Rowed language) form.visits) {textures : List Texture} {texts : List String}
    (hf : List.Forall₂ Texture.Fits textures texts) (hr : step.isRowed textures) :
    (step.run site texts).Yields (Pass.Rowed language) (List.Forall₂ Texture.Fits (textures ++ step.textures)) := by
  have hvisit : ∀ visit ∈ step.visits, visit ∈ form.visits := fun _ => mem_visits_of_step hm
  have hone : ∀ {texture : Texture} {text : String}, step.textures = [texture] → texture.Fits text →
      List.Forall₂ Texture.Fits (textures ++ step.textures) (texts ++ [text]) := by
    intro texture text ht hfit
    rw [ht]
    exact List.rel_append hf (.cons hfit .nil)
  have hnone : step.textures = [] → List.Forall₂ Texture.Fits (textures ++ step.textures) texts := by
    intro ht
    rw [ht, List.append_nil]
    exact hf
  cases step with
  | value slot bare absent =>
    have habsent : absent = "" ∨ IsWord absent := by simpa [Step.isRowed] using hr
    exact (hs.valueOr (hvisit _ List.mem_cons_self) bare habsent).bind fun text ht => Gen.yields_pure (hone rfl ht)
  | branch slot =>
    exact (hs.branch (hvisit _ List.mem_cons_self)).bind fun text ht => Gen.yields_pure (hone rfl ht)
  | body slot =>
    refine (hs.statement? (hvisit _ List.mem_cons_self)).bind fun found hfound => Gen.yields_pure (hone rfl ?_)
    cases found with
    | none => exact isRows_empty
    | some text => exact hfound text rfl
  | userVariable user => exact (Gen.yields_nameOf _ user).bind fun text ht => Gen.yields_pure (hone rfl ht)
  | userProcedure user => exact (Gen.yields_nameOf _ user).bind fun text ht => Gen.yields_pure (hone rfl ht)
  | fresh base => exact (Gen.yields_freshName base).bind fun text ht => Gen.yields_pure (hone rfl ht)
  | temporary base => exact (Gen.yields_declareTemporary base).bind fun text ht => Gen.yields_pure (hone rfl ht)
  | helper helper =>
    refine (Gen.yields_provide (Language.helper_key hm) _ fun name hn => ?_).bind fun text ht =>
      Gen.yields_pure (hone rfl ht)
    exact Helper.isSection_source hr hn
  | require library =>
    have hapart : ∀ key ∈ libraryKeys, key ∉ helperKeys := by decide
    have hword : IsWord library.source := of_decide_eq_true hr
    refine (Gen.yields_define hword.isSection (by simp) fun _ => ?_).bind fun _ _ => Gen.yields_pure (hnone rfl)
    exact hapart _ (Language.library_key hm)
  | hoist key name source =>
    simp only [Step.isRowed, Bool.and_eq_true, decide_eq_true_eq] at hr
    have hname := Texture.fits_textAt hf name
    rw [hr.1] at hname
    exact (Gen.yields_defineNamed (Piece.flow_renderAll hf hr.2) hname).bind fun _ _ => Gen.yields_pure (hnone rfl)

/-- **All steps in a row.** -/
theorem Step.yields_runAll {steps : List Step} (hm : ∀ step ∈ steps, step ∈ (language.template form).steps)
    (hs : site.Rowed (Pass.Rowed language) form.visits) {textures : List Texture} {texts : List String}
    (hf : List.Forall₂ Texture.Fits textures texts) (hr : Step.areRowed textures steps) :
    (Step.runAll site texts steps).Yields (Pass.Rowed language)
      (List.Forall₂ Texture.Fits (textures ++ steps.flatMap Step.textures)) := by
  induction steps generalizing textures texts with
  | nil =>
    rw [List.flatMap_nil, List.append_nil]
    exact Gen.yields_pure hf
  | cons step rest ih =>
    obtain ⟨hstep, hrest⟩ := List.forall_mem_cons.1 hm
    rw [Step.areRowed, Bool.and_eq_true] at hr
    rw [List.flatMap_cons, ← List.append_assoc]
    exact (Step.yields_run hstep hs hf hr.1).bind fun between hbetween => ih hrest hbetween hr.2

/-- what the code of a construct is: rows, or a word -/
def Form.IsLaid (form : Form) (code : String) : Prop :=
  if form.isStatement then IsRows code else IsWord code

theorem Template.yields_run (hs : site.Rowed (Pass.Rowed language) form.visits) (bare : Bool) :
    ((language.template form).run site bare).Yields (Pass.Rowed language) form.IsLaid := by
  have hrowed := language.template_isRowed form
  rw [isRowed, Bool.and_eq_true] at hrowed
  refine (Step.yields_runAll (fun _ h => h) hs .nil hrowed.1).bind fun texts htexts => Gen.yields_pure ?_
  rw [List.nil_append] at htexts
  unfold Form.IsLaid
  cases hf : form.isStatement with
  | false => exact isWord_render hf htexts bare
  | true => exact isRows_render hf htexts bare

end

/-! ## Blocks -/

/-- value kinds in all value slots that are visited, in this block, in the chains of its statement slots that are
visited, and in the chain below it -/
inductive Block.WellPlugged : Block → Prop
  | mk {head : Head} {values statements : List (Nat × Block)} {next : Option Block} :
      (∀ form, head.form = .ok form → ∀ slot, .value slot ∈ form.visits → ∀ child,
        Slots.get? slot values = some child → child.IsValue) →
      (∀ form, head.form = .ok form → ∀ slot, .statement slot ∈ form.visits → ∀ first,
        Slots.get? slot statements = some first → WellPlugged first) →
      (∀ below, next = some below → WellPlugged below) →
      WellPlugged (.mk head values statements next)

theorem Form.no_statement_visited {form : Form} (hf : form.isStatement = false) (slot : Nat) :
    .statement slot ∉ form.visits := by
  cases form <;> first | (simp [visits]; done) | cases hf

namespace Block

variable {language : Language}

/-- the texts that the steps of a block's construct leave decide what its code is -/
theorem yields_code_of {inv : Pass → Prop} (post : Form → String → Prop) {head : Head}
    {values statements : List (Nat × Block)} (next : Option Block) {bare : Bool}
    (h : ∀ form, head.form = .ok form → (Step.runAll ⟨emissions (.standard language) values,
      emissions (.standard language) statements⟩ [] (language.template form).steps).Yields inv fun texts =>
        post form ((language.template form).render texts bare)) :
    ((mk head values statements next).code (.standard language) bare).Yields inv fun code =>
      ∃ form, head.form = .ok form ∧ post form code := by
  intro pass hp
  rw [perform_code]
  cases hf : head.form with
  | error cause => exact ⟨hp, fun _ h => nomatch h⟩
  | ok form => exact (h form hf).bind (fun texts htexts => Gen.yields_pure ⟨form, rfl, htexts⟩) pass hp

/-- what holds of the code of every construct that a block may stand for holds of the block's -/
theorem yields_code_forall {inv : Pass → Prop} {post : String → Prop} {head : Head}
    {values statements : List (Nat × Block)} (next : Option Block) {bare : Bool}
    (h : ∀ form, head.form = .ok form → (Step.runAll ⟨emissions (.standard language) values,
      emissions (.standard language) statements⟩ [] (language.template form).steps).Yields inv fun texts =>
        post ((language.template form).render texts bare)) :
    ((mk head values statements next).code (.standard language) bare).Yields inv post :=
  (yields_code_of (fun _ => post) next h).imp fun _ ⟨_, _, hcode⟩ => hcode

/-- the code of a block is what its construct makes, if the blocks in its slots give words and rows -/
theorem yields_code {head : Head} {values statements : List (Nat × Block)} (next : Option Block)
    (hs : ∀ form, head.form = .ok form → Site.Rowed (Pass.Rowed language)
      ⟨emissions (.standard language) values, emissions (.standard language) statements⟩ form.visits) (bare : Bool) :
    ((mk head values statements next).code (.standard language) bare).Yields (Pass.Rowed language) fun code =>
      ∃ form, head.form = .ok form ∧ form.IsLaid code := by
  intro pass hp
  rw [perform_code]
  cases hf : head.form with
  | error cause => exact ⟨hp, fun _ h => nomatch h⟩
  | ok form =>
    exact (Template.yields_run (hs form hf) bare).imp (fun code hc => ⟨form, rfl, hc⟩) pass hp

/-- the slots of a block are filled with words and rows, if the blocks in them give words and rows -/
theorem rowed_site {inv : Pass → Prop} {values statements : List (Nat × Block)} {visits : List Visit}
    (hv : ∀ slot, .value slot ∈ visits → ∀ child, Slots.get? slot values = some child → ∀ bare,
      (child.code (.standard language) bare).Yields inv IsWord)
    (hs : ∀ slot, .statement slot ∈ visits → ∀ first, Slots.get? slot statements = some first →
      (first.chainCode (.standard language)).Yields inv IsRows) :
    Site.Rowed inv ⟨emissions (.standard language) values, emissions (.standard language) statements⟩ visits := by
  refine ⟨fun slot hslot child hc bare => ?_, fun slot hslot first hc => ?_⟩
  · obtain ⟨plugged, hp, rfl⟩ := exists_of_get?_emissions hc
    exact hv slot hslot plugged hp bare
  · obtain ⟨plugged, hp, rfl⟩ := exists_of_get?_emissions hc
    exact hs slot hslot plugged hp

/-- **The code of an expression is a word.** -/
theorem yields_value {block : Block} (h : block.IsValue) (bare : Bool) :
    (block.code (.standard language) bare).Yields (Pass.Rowed language) IsWord := by
  induction block generalizing bare with
  | mk head values statements next ihv _ _ =>
    have hsite : ∀ form, head.form = .ok form → Site.Rowed (Pass.Rowed language)
        ⟨emissions (.standard language) values, emissions (.standard language) statements⟩ form.visits := by
      intro form hf
      obtain ⟨hform, hchildren⟩ := h.of_form hf
      refine rowed_site (fun slot hv child hc bare => ?_) fun slot hv => absurd hv (Form.no_statement_visited hform slot)
      obtain ⟨entry, he, rfl⟩ := Slots.mem_of_get? hc
      exact ihv entry he (hchildren slot hv entry.2 hc) bare
    refine (yields_code next hsite bare).imp fun code hcode => ?_
    obtain ⟨form, hf, hlaid⟩ := hcode
    rw [Form.IsLaid, (h.of_form hf).1] at hlaid
    exact hlaid

end Block

/-- what a block adds to its chain is the line of its construct -/
theorem Head.yields_line {inv : Pass → Prop} {language : Language}
    (hl : ∀ pass : Pass, inv pass → pass.language = language) {head : Head} {code : Bool → Gen String}
    {post : Form → String → Prop}
    (h : (code true).Yields inv fun text => ∃ form, head.form = .ok form ∧ post form (form.line language text)) :
    (head.link code).Yields inv fun text => ∃ form, head.form = .ok form ∧ post form text := by
  refine (Gen.yields_ofExcept _).bind fun kind hkind => h.bind fun text htext => ?_
  obtain ⟨form, hf, hpost⟩ := htext
  obtain ⟨own, hown, hread⟩ := Head.exists_kind hf
  obtain rfl := Except.ok.inj (hown.symm.trans (Stop.refusing_eq_ok_iff.1 hkind))
  rw [Form.line, Form.isStatement_read hread] at hpost
  split_ifs with hstays
  · rw [if_pos hstays] at hpost
    exact Gen.yields_pure ⟨form, hf, hpost⟩
  · rw [if_neg hstays] at hpost
    refine Gen.yields_get.bind fun pass hp => Gen.yields_pure ⟨form, hf, ?_⟩
    rw [hl pass hp]
    exact hpost

/-- a line is made of rows, if the code is what the construct makes -/
theorem Form.IsLaid.line {form : Form} {code : String} (h : form.IsLaid code) (language : Language) :
    IsRows (form.line language code) := by
  rw [IsLaid] at h
  rw [Form.line]
  cases hstatement : form.isStatement with
  | true =>
    rw [hstatement] at h
    exact h
  | false =>
    rw [hstatement] at h
    have hne : code.isEmpty = false := by simpa using h.ne_empty
    rw [hne]
    cases language <;> exact h.ended rfl

namespace Block

/-- **The code of a chain is made of rows**, if all value slots that are visited hold value kinds. -/
theorem yields_chain {block : Block} (h : block.WellPlugged) :
    (block.chainCode (.standard language)).Yields (Pass.Rowed language) IsRows := by
  induction block with
  | mk head values statements next _ ihs ihn =>
    cases h with
    | mk hvalues hstatements hnext =>
    have hsite : ∀ form, head.form = .ok form → Site.Rowed (Pass.Rowed language)
        ⟨emissions (.standard language) values, emissions (.standard language) statements⟩ form.visits := by
      intro form hf
      refine rowed_site (fun slot hv child hc => yields_value (hvalues form hf slot hv child hc)) fun slot hv first hc => ?_
      obtain ⟨entry, he, rfl⟩ := Slots.mem_of_get? hc
      exact ihs entry he (hstatements form hf slot hv entry.2 hc)
    have hlink : (head.link ((mk head values statements next).code (.standard language))).Yields (Pass.Rowed language)
        fun own => ∃ form, head.form = .ok form ∧ IsRows own := by
      refine Head.yields_line (fun _ hp => hp.language) ((yields_code next hsite true).imp fun code hcode => ?_)
      obtain ⟨form, hf, hlaid⟩ := hcode
      exact ⟨form, hf, hlaid.line language⟩
    refine hlink.bind fun own hown => ?_
    obtain ⟨-, -, hown⟩ := hown
    have hbelow : (nextChain (.standard language) next).Yields (Pass.Rowed language) IsRows := by
      cases next with
      | none => exact Gen.yields_pure isRows_empty
      | some below => exact ihn below rfl (hnext below rfl)
    exact hbelow.bind fun rest hrest => Gen.yields_pure (hown.append hrest)

theorem WellPlugged.rowed {head : Head} {values statements : List (Nat × Block)} {next : Option Block} {form : Form}
    (h : (Block.mk head values statements next).WellPlugged) (hf : head.form = .ok form) : Site.Rowed (Pass.Rowed language)
      ⟨emissions (.standard language) values, emissions (.standard language) statements⟩ form.visits := by
  cases h with
  | mk hvalues hstatements hnext =>
  exact rowed_site (fun slot hv child hc => yields_value (hvalues form hf slot hv child hc)) fun slot hv first hc =>
    yields_chain (hstatements form hf slot hv first hc)

theorem yields_chains {blocks : List Block} (h : ∀ block ∈ blocks, block.WellPlugged) :
    (chainsCode (.standard language) blocks).Yields (Pass.Rowed language) IsRows := by
  induction blocks with
  | nil => exact Gen.yields_pure isRows_empty
  | cons block rest ih =>
    obtain ⟨hblock, hrest⟩ := List.forall_mem_cons.1 h
    exact (yields_chain hblock).bind fun first hfirst => (ih hrest).bind fun others hothers =>
      Gen.yields_pure (hfirst.append hothers)

end Block

/-! ## Sections -/

namespace Language

/-- the line that declares variables, in the targets that declare them and if there are any -/
def variableParts (language : Language) (names : List String) : List String :=
  match language with
  | python => []
  | _ => if names.isEmpty then [] else ["var " ++ ", ".intercalate names ++ ";"]

/-- the section of a body: in the function that the target asks for, or without the last line end if there is any -/
def bodyParts (language : Language) (body : String) : List String :=
  match language with
  | dart =>
    let lines := (body.toList.splitOn '\n').dropLast.map fun line => "  " ++ String.ofList line
    ["\n".intercalate ("main() \x7b" :: lines ++ ["\x7d"])]
  | _ => if body.isEmpty then [] else [String.ofList body.toList.dropLast]

end Language

theorem IsRows.wrapped {body : String} (h : IsRows body) :
    "main() \x7b\n" ++ Text.prefixLines body Text.indentation ++ "\x7d" =
      "\n".intercalate ("main() \x7b" ::
        (body.toList.splitOn '\n').dropLast.map (fun line => "  " ++ String.ofList line) ++ ["\x7d"]) := by
  obtain ⟨rows, last, hrows, -, hcs, hlast⟩ := Text.flow_lines h
  rw [hlast.1 rfl, List.append_nil] at hcs
  have hindented : (Text.prefixLines body Text.indentation).toList = Text.ended (rows.map ("  ".toList ++ ·)) := by
    rw [Text.prefixLines, String.toList_ofList, hcs, Text.indentChars_ended hrows]
    rfl
  have hlines : (("main() \x7b" :: (body.toList.splitOn '\n').dropLast.map (fun line => "  " ++ String.ofList line) ++
      ["\x7d"]).map String.toList) = "main() \x7b".toList :: rows.map ("  ".toList ++ ·) ++ ["\x7d".toList] := by
    rw [hcs, Text.splitOn_ended fun row hm hn => ((hrows row hm).2 _ hn).1 rfl, List.dropLast_concat]
    simp
  apply String.toList_inj.1
  rw [String.toList_intercalate, hlines, String.toList_append, String.toList_append, hindented]
  exact Text.ended_append ("main() \x7b".toList :: rows.map ("  ".toList ++ ·)) "\x7d".toList

section

variable {language : Language} {pass : Pass} {body : String}

theorem Pass.variableSections_eq (hp : pass.Rowed language) :
    pass.variableSections = language.variableParts (pass.names.boundFor .variable) := by
  have hdeclared : pass.variableSections = if pass.language.declaresVariables ∧ pass.names.boundFor .variable ≠ []
      then ["var " ++ ", ".intercalate (pass.names.boundFor .variable) ++ ";"] else [] := by
    rw [variableSections, hp.listed, Text.joinWith_eq]
    exact if_congr (by simp) rfl rfl
  rw [hdeclared, hp.language]
  cases language with
  | python => exact if_neg fun h => nomatch h.1
  | javascript => simp [Language.variableParts, Language.declaresVariables]
  | dart => simp [Language.variableParts, Language.declaresVariables]

theorem Pass.bodySections_eq (hp : pass.language = language) (hb : IsRows body) :
    pass.bodySections body = language.bodyParts body := by
  have hopen : ∀ {language : Language}, language.wrapsBody = false → pass.language = language →
      pass.bodySections body = if body.isEmpty then [] else [String.ofList body.toList.dropLast] := by
    intro language hw hl
    unfold bodySections
    rw [hl, hw]
    simp only [Bool.false_eq_true, if_false]
    split_ifs with he
    · rfl
    · obtain ⟨text, htext, rfl⟩ := hb.eq_newline (by simpa using he)
      simp [htext.dropFinalNewlines]
  cases language with
  | javascript => exact hopen rfl hp
  | python => exact hopen rfl hp
  | dart =>
    unfold bodySections
    rw [hp]
    exact congrArg (fun text => [text]) hb.wrapped

/-- the sections of a program, as they are to be found in its text -/
def Pass.parts (pass : Pass) (body : String) : List String :=
  pass.importSections ++ pass.namedSections ++ pass.language.variableParts (pass.names.boundFor .variable) ++
    pass.language.bodyParts body

/-- **No section has an empty line.** -/
theorem Pass.Rowed.isSection_parts (h : pass.Rowed language) (hb : IsRows body) :
    ∀ part ∈ pass.parts body, IsSection part := by
  have hsource : ∀ keep, ∀ source ∈ (pass.registry.entries.filter keep).map Definition.source, IsSection source := by
    intro keep source hm
    obtain ⟨definition, hd, rfl⟩ := List.mem_map.1 hm
    exact h.sources definition (List.mem_filter.1 hd).1
  have himports : ∀ part ∈ pass.importSections, IsSection part := by
    unfold importSections
    simp only
    split_ifs with hnone
    · exact List.forall_mem_nil _
    · exact List.forall_mem_singleton.2 (isSection_joinWith (by simpa using hnone) (hsource _))
  have hvariables : ∀ part ∈ pass.language.variableParts (pass.names.boundFor .variable), IsSection part := by
    rw [h.language, ← variableSections_eq h]
    unfold variableSections
    split_ifs with hsome
    · rw [Bool.and_eq_true, Bool.not_eq_true', List.isEmpty_eq_false_iff] at hsome
      have hnames : IsWord (Text.joinWith ", " pass.names.variableNames) :=
        isWord_joinWith hsome.2 fun name hm => .identifier (h.names.variableNames name hm)
      exact List.forall_mem_singleton.2 ((hnames.behind (by decide)).append (by decide)).isSection
    · exact List.forall_mem_nil _
  have hbody : ∀ part ∈ pass.language.bodyParts body, IsSection part := by
    rw [← bodySections_eq rfl hb]
    unfold bodySections
    split_ifs with hwraps hempty
    · have hfirst : IsRows "main() \x7b\n" := rfl
      have hlast : IsWord "\x7d" := by decide
      exact List.forall_mem_singleton.2 ((hfirst.append (hb.prefixLines (by decide))).isSection hlast.isSection)
    · exact List.forall_mem_nil _
    · obtain ⟨text, htext, rfl⟩ := hb.eq_newline (by simpa using hempty)
      rw [htext.dropFinalNewlines]
      exact List.forall_mem_singleton.2 htext
  intro part hm
  simp only [parts, List.mem_append] at hm
  rcases hm with ((hm | hm) | hm) | hm
  · exact himports part hm
  · exact hsource _ part hm
  · exact hvariables part hm
  · exact hbody part hm

end

/-- **Programs come apart into their sections.** Let all value slots that are visited hold value kinds. A program of at
least one section ends with exactly one line feed. Without it, it splits at its blank lines into the imports, the other
definitions, the line of the variables and the body, and no line of any of them is empty. -/
theorem programs_come_apart (language : Language) {blocks : List Block} (hb : ∀ block ∈ blocks, block.WellPlugged)
    {program : String} (h : generate language blocks = .ok program) :
    ∃ body pass, programRun language blocks = (.ok body, pass) ∧ pass.language = language ∧
      (body = "" ∨ body.toList.getLast? = some '\n') ∧
      (pass.parts body ≠ [] → ∃ text, program = text ++ "\n" ∧ text.toList.getLast? ≠ some '\n' ∧
        (Text.splitBlank text.toList).map String.ofList = pass.parts body ∧
        ∀ part ∈ pass.parts body, [] ∉ part.toList.splitOn '\n') := by
  obtain ⟨hrowed, hbody⟩ := Block.yields_chains hb (.start language) (Pass.rowed_start language)
  rw [generate_eq] at h
  rcases hrun : programRun language blocks with ⟨outcome, pass⟩
  rw [hrun] at h
  rw [show (Pass.start language).perform _ = (outcome, pass) from hrun] at hrowed hbody
  cases outcome with
  | error cause => cases h
  | ok body =>
    cases h
    have hrows : IsRows body := hbody body rfl
    have hsections := hrowed.isSection_parts hrows
    have hfinish : pass.finish body = Text.joinWith "\n\n" (pass.parts body) ++ "\n" := by
      rw [Pass.finish_eq fun definition hm _ => (hrowed.sources definition hm).ne_empty, Pass.bodySections_eq rfl hrows, Pass.variableSections_eq hrowed,
        ← hrowed.language]
      rfl
    refine ⟨body, pass, rfl, hrowed.language, ?_, fun hsome => ?_⟩
    · by_cases hempty : body = ""
      · exact .inl hempty
      · obtain ⟨text, -, rfl⟩ := hrows.eq_newline hempty
        exact .inr (by simp)
    · exact ⟨_, hfinish, Text.getLast?_joinWith hsome hsections, Text.splitBlank_joinWith hsome hsections,
        fun part hm => (hsections part hm).splitOn⟩

def rootSections : Language → List String
  | .javascript => ["var math;", "math = Math.sqrt(math);"]
  | .dart => ["import 'dart:math' as Math;", "var math;", "main() \x7b\n  math = Math.sqrt(math);\n\x7d"]
  | .python => ["import math", "math2 = math.sqrt(math2)"]

def rootText (language : Language) : String :=
  "\n\n".intercalate (rootSections language)

theorem wellPlugged_rootWorkspace : ∀ block ∈ rootWorkspace, block.WellPlugged := by
  have hget : (Block.variableGet "math").IsValue := .of_values .variableGet rfl rfl (List.forall_mem_nil _)
  have hroot : Block.IsValue (.mk { Head.bare Kind.single.name with labels := [(0, "ROOT")] }
      [(0, .variableGet "math")] [] none) := .of_values .single rfl rfl (List.forall_mem_singleton.2 hget)
  refine List.forall_mem_singleton.2 (.mk (fun form _ slot _ child hc => ?_) (fun _ _ _ _ _ hc => nomatch hc) nofun)
  obtain ⟨entry, he, rfl⟩ := Slots.mem_of_get? hc
  rw [List.mem_singleton.1 he]
  exact hroot

theorem rootWorkspace_comes_apart :
    (generate .javascript rootWorkspace = .ok "var math;\n\nmath = Math.sqrt(math);\n" ∧
      ∃ pass, programRun .javascript rootWorkspace = (.ok "math = Math.sqrt(math);\n", pass) ∧
        pass.parts "math = Math.sqrt(math);\n" = ["var math;", "math = Math.sqrt(math);"]) ∧
    (generate .dart rootWorkspace =
        .ok "import 'dart:math' as Math;\n\nvar math;\n\nmain() \x7b\n  math = Math.sqrt(math);\n\x7d\n" ∧
      ∃ pass, programRun .dart rootWorkspace = (.ok "math = Math.sqrt(math);\n", pass) ∧
        pass.parts "math = Math.sqrt(math);\n" =
          ["import 'dart:math' as Math;", "var math;", "main() \x7b\n  math = Math.sqrt(math);\n\x7d"]) := by
  have hcut : ∀ {language : Language} {body : String}, generate language rootWorkspace = .ok (rootText language ++ "\n") →
      (programRun language rootWorkspace).1 = .ok body → language.bodyParts body ≠ [] →
      (Text.splitBlank (rootText language).toList).map String.ofList = rootSections language →
      ∃ pass, programRun language rootWorkspace = (.ok body, pass) ∧ pass.parts body = rootSections language := by
    intro language body hprogram hbody hsome hpieces
    obtain ⟨body', pass, hrun, hlanguage, -, hsplit⟩ := programs_come_apart language wellPlugged_rootWorkspace hprogram
    rw [hrun] at hbody
    obtain rfl := Except.ok.inj hbody
    obtain ⟨text, htext, -, hparts, -⟩ := hsplit fun hnone => by
      rw [Pass.parts, hlanguage] at hnone
      exact hsome (List.append_eq_nil_iff.1 hnone).2
    obtain rfl : rootText language = text := by
      have hchars := congrArg String.toList htext
      rw [String.toList_append, String.toList_append, List.append_cancel_right_eq] at hchars
      exact String.toList_inj.1 hchars
    exact ⟨pass, hrun, hparts.symm.trans hpieces⟩
  have hscript : generate .javascript rootWorkspace = .ok (rootText .javascript ++ "\n") := by rfl
  have hdart : generate .dart rootWorkspace = .ok (rootText .dart ++ "\n") := by rfl
  exact ⟨⟨hscript, hcut hscript (by rfl) (by decide) (by decide +kernel)⟩,
    ⟨hdart, hcut hdart (by rfl) (by decide) (by decide +kernel)⟩⟩

end Blockwork
