/-
What a run has made is never taken back, also by a run that fails.

- `Pass.Grows`: a state reached by adding alone. On top of `Pass.Extends`, the variables known before come first among
  those known after, and every identifier that was taken is still taken.
- `Pass.Grows.invariant`: each of the three changes that a step can make is of this kind.
- `states_only_grow`: the main statement, on a block's code, its slots and its chain, whatever their outcome.
-/
import Blockwork.Proofs.Regeneration

namespace Blockwork

/-! ## States that only add -/

/-- a later state in which everything known before is still there: besides what is hoisted and bound, the variables in
their order, and the identifiers taken, in front of which new ones are put -/
structure Pass.Grows (pass later : Pass) : Prop extends pass.Extends later where
  variableNames : pass.names.variableNames <+: later.names.variableNames
  issued : pass.names.issued <:+ later.names.issued

namespace Names

theorem issued_suffix_distinct (names : Names) (base : String) : names.issued <:+ (names.distinct base).2.issued :=
  List.suffix_cons _ _

/-- a name asked for again takes no identifier, a new one takes one -/
theorem issued_suffix_bind (names : Names) (role : Role) (user : String) :
    names.issued <:+ (names.bind role user).2.issued := by
  unfold bind
  cases names.binding? role user with
  | some _ => exact List.suffix_rfl
  | none => exact names.issued_suffix_distinct user

theorem variableNames_prefix_bind (names : Names) (role : Role) (user : String) :
    names.variableNames <+: (names.bind role user).2.variableNames := by
  unfold bind
  cases names.binding? role user with
  | some _ => exact List.prefix_rfl
  | none =>
    dsimp only
    split_ifs
    · exact List.prefix_append _ _
    · exact List.prefix_rfl

end Names

namespace Pass.Grows

variable {pass mid later : Pass}

theorem refl (pass : Pass) : pass.Grows pass :=
  ⟨.refl pass, List.prefix_rfl, List.suffix_rfl⟩

theorem trans (h : pass.Grows mid) (h' : mid.Grows later) : pass.Grows later :=
  ⟨h.toExtends.trans h'.toExtends, h.variableNames.trans h'.variableNames, h.issued.trans h'.issued⟩

theorem bind (pass : Pass) (role : Role) (user : String) :
    pass.Grows { pass with names := (pass.names.bind role user).2 } :=
  ⟨.bind pass role user, pass.names.variableNames_prefix_bind role user, pass.names.issued_suffix_bind role user⟩

theorem distinct (pass : Pass) (base : String) : pass.Grows { pass with names := (pass.names.distinct base).2 } :=
  ⟨.distinct pass base, List.prefix_rfl, pass.names.issued_suffix_distinct base⟩

theorem define (pass : Pass) (key : String) (name : Option String) (source : String) :
    pass.Grows { pass with registry := (pass.registry.request key fun _ => (name, source)).2 } :=
  ⟨.define pass key name source, List.prefix_rfl, List.suffix_rfl⟩

/-- **Every change that a step can make adds something, or nothing.** -/
theorem invariant (pass : Pass) : Pass.Invariant (fun _ => True) pass.Grows where
  bind mid role user h := h.trans (bind mid role user)
  distinct mid base _ h := h.trans (distinct mid base)
  define mid key name source h := h.trans (define mid key name source)

end Pass.Grows

/-! ## Blocks, slots and chains -/

/-- what every single change keeps is kept in the slots of a block -/
theorem Block.site_keeps {bases : String → Prop} {inv : Pass → Prop} {language : Language}
    (hi : Pass.Invariant bases inv) (hl : language.IssuesFrom bases) (block : Block) :
    (block.site (.standard language)).Keeps inv :=
  ⟨of_get?_emissions fun entry _ => entry.2.emission_keeps hi hl,
    of_get?_emissions fun entry _ => entry.2.emission_keeps hi hl⟩

/-- **States only grow, also on failure.** From any state, whatever is generated of a block leaves a state in which the
definitions of before come first and unchanged, the variables of before come first, every name is bound as it was, and
every identifier taken is still taken; the language is the same. This holds of the code of a block, of each of its
value and statement slots, and of the chain that starts with it, whether they succeed or stop somewhere inside. -/
theorem states_only_grow (language : Language) (pass : Pass) (block : Block) :
    (∀ bare, pass.Grows (pass.perform (block.code (.standard language) bare)).2) ∧
    (∀ slot bare, pass.Grows (pass.perform ((block.site (.standard language)).value? slot bare)).2) ∧
    (∀ slot, pass.Grows (pass.perform ((block.site (.standard language)).statement? slot)).2) ∧
    pass.Grows (pass.perform (block.chainCode (.standard language))).2 := by
  have hadds := Pass.Grows.invariant pass
  have hblock := block.emission_keeps hadds language.issuesFrom_any
  have hsite := block.site_keeps hadds language.issuesFrom_any
  refine ⟨fun bare => ?_, fun slot bare => ?_, fun slot => ?_, ?_⟩
  · exact hblock.code bare pass (.refl pass)
  · exact hsite.value? slot bare pass (.refl pass)
  · exact hsite.statement? slot pass (.refl pass)
  · exact hblock.chain pass (.refl pass)

/-- a join whose first item is the end of a text and whose second is no block at all: it fails, and the variable of the
first item and the temporary stay -/
example :
    let reading := Block.variableGet "note"
    let ending := Block.mk { Head.bare "text_endString" with labels := [(0, "LAST")] } [(1, reading)] [] none
    let join := Block.mk { Head.bare "text_join" with items := 2 } [(0, ending), (1, .leaf (.bare "logic"))] [] none
    let (outcome, after) := (Pass.start .javascript).perform (join.code (.standard .javascript) true)
    outcome = .error (.refused (.unknownKind "logic")) ∧ after.names.variableNames = ["note"] ∧
      after.registry.entries = [⟨"temp_temp_text", some "temp_text", "var temp_text;"⟩] := by
  decide +kernel

end Blockwork
