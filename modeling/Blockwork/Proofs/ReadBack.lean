/-
The code of every arithmetic block reads back as its formula.

- `Names.Extends`: later names keep the identifiers of variables, so code that was right when it was written
  stays right when more names are issued.
- `Gen.Writes`: an action that succeeds, from any state, with code that stands for a formula's tree.
- `Template.writes_run`: a template that only takes number operands writes a formula if its layout does.
- `Block.writes_code`: by induction over the blocks, the code of an arithmetic block writes its formula.
- `arithmetic_reads_back`: the main statement, on the text of the code.
-/
import Blockwork.Proofs.Precedence

namespace Blockwork

open Grammar

variable {language : Language} {bare : Bool}

/-! ## Names that stay -/

namespace Names

/-- every variable that has an identifier keeps it -/
def Extends (names later : Names) : Prop :=
  ∀ user name, names.binding? .variable user = some name → later.binding? .variable user = some name

theorem Extends.refl (names : Names) : names.Extends names := fun _ _ h => h

theorem Extends.trans {names later last : Names} (h : names.Extends later) (h' : later.Extends last) :
    names.Extends last :=
  fun user name hb => h' user name (h user name hb)

theorem extends_bind (names : Names) (role : Role) (user : String) : names.Extends (names.bind role user).2 := by
  intro user' name hb
  unfold Names.bind
  cases hn : names.binding? role user with
  | some _ => exact hb
  | none =>
    have hne : ((Role.variable, user') == (role, user)) = false := by
      rw [beq_eq_false_iff_ne]
      rintro he
      obtain ⟨rfl, rfl⟩ := Prod.mk.inj he
      rw [hn] at hb
      cases hb
    simp only [binding?, List.lookup_cons, hne]
    exact hb

/-- the identifier of a variable, as the allocator answers it -/
def identifier (names : Names) (user : String) : String :=
  (names.bind .variable user).1

theorem identifier_of_binding? {names : Names} {user name : String} (h : names.binding? .variable user = some name) :
    names.identifier user = name := by
  unfold identifier Names.bind
  rw [h]

end Names

/-! ## Actions that write a formula -/

/-- an action that succeeds with code for a formula, which stays right whatever names are issued later -/
def Gen.Writes (language : Language) (bare : Bool) (formula : Formula) (action : Gen String) : Prop :=
  ∀ pass : Pass, pass.names.WellFormed → ∃ code after, pass.perform action = (.ok code, after) ∧
    after.names.WellFormed ∧ pass.names.Extends after.names ∧
    ∀ later, after.names.Extends later → Stands language bare code (formula.tree language later.identifier)

/-- a number operand; zero when nothing is plugged in -/
theorem Site.writes_value {site : Site} {slot : Nat} {formula : Formula}
    (h : match Slots.get? slot site.values with
      | none => formula = .number (.zero false)
      | some child => Gen.Writes language bare formula (child.code bare)) :
    Gen.Writes language bare formula (site.value slot bare "0") := by
  intro pass hp
  cases hc : Slots.get? slot site.values with
  | none =>
    rw [hc] at h
    subst h
    have hzero : Stands language bare (language.numberLiteral (.zero false)) (language.numberTree (.zero false)) :=
      stands_number _
    rw [Binary64.zero, language.numberLiteral_zero] at hzero
    refine ⟨"0", pass, ?_, hp, .refl _, fun _ _ => hzero⟩
    simp only [Site.value, Site.value?, hc]
    rfl
  | some child =>
    rw [hc] at h
    obtain ⟨code, after, hperform, hwell, hextends, hstands⟩ := h pass hp
    have hne := (hstands after.names (.refl _)).ne_empty
    refine ⟨code, after, ?_, hwell, hextends, hstands⟩
    simp only [Site.value, Site.value?, hc, Pass.perform_bind, hperform, Pass.perform_pure, hne]
    rfl

/-- the value slot that a step takes a number from -/
def Step.operand? : Step → Option (Nat × Bool)
  | value slot bare _ => some (slot, bare)
  | _ => none

/-- whether a step takes a number or makes a library available -/
def Step.isArithmetic : Step → Bool
  | value _ _ absent => absent = "0"
  | require _ => true
  | _ => false

/-- codes that stand for the operands that steps take -/
def OperandsStand (language : Language) (operands : Nat → Formula) (identifier : String → String)
    (taken : List (Nat × Bool)) (codes : List String) : Prop :=
  List.Forall₂ (fun slot code => Stands language slot.2 code ((operands slot.1).tree language identifier)) taken codes

theorem Step.writes_runAll {site : Site} {operands : Nat → Formula} (steps : List Step)
    (hs : steps.all Step.isArithmetic)
    (h : ∀ taken ∈ steps.filterMap Step.operand?,
      Gen.Writes language taken.2 (operands taken.1) (site.value taken.1 taken.2 "0"))
    (texts : List String) (pass : Pass) (hp : pass.names.WellFormed) :
    ∃ codes after, pass.perform (Step.runAll site texts steps) = (.ok (texts ++ codes), after) ∧
      after.names.WellFormed ∧ pass.names.Extends after.names ∧
      ∀ later, after.names.Extends later →
        OperandsStand language operands later.identifier (steps.filterMap Step.operand?) codes := by
  induction steps generalizing texts pass with
  | nil => exact ⟨[], pass, by simp [Step.runAll], hp, .refl _, fun _ _ => .nil⟩
  | cons step rest ih =>
    simp only [List.all_cons, Bool.and_eq_true] at hs
    obtain ⟨hstep, hrest⟩ := hs
    cases step with
    | value slot bare absent =>
      obtain rfl : absent = "0" := by simpa [isArithmetic] using hstep
      simp only [List.filterMap_cons, operand?, List.forall_mem_cons] at h
      obtain ⟨code, after, hperform, hwell, hextends, hstands⟩ := h.1 pass hp
      obtain ⟨codes, last, hperform', hwell', hextends', hstands'⟩ := ih hrest h.2 (texts ++ [code]) after hwell
      refine ⟨code :: codes, last, ?_, hwell', hextends.trans hextends', fun later hl => ?_⟩
      · simp only [Step.runAll, Step.run, Pass.perform_bind, hperform, Pass.perform_pure, hperform', List.append_assoc,
          List.cons_append, List.nil_append]
      · exact .cons (hstands later (hextends'.trans hl)) (hstands' later hl)
    | require library =>
      have hdefine : ∃ after : Pass, pass.perform (Gen.require library.key library.source) = (.ok (), after) ∧
          after.names = pass.names := ⟨_, rfl, rfl⟩
      obtain ⟨after, hperform, hnames⟩ := hdefine
      obtain ⟨codes, last, hperform', hwell', hextends', hstands'⟩ := ih hrest h texts after (hnames ▸ hp)
      refine ⟨codes, last, ?_, hwell', hnames ▸ hextends', hstands'⟩
      simp only [Step.runAll, Step.run, Pass.perform_bind, hperform, Pass.perform_pure, hperform']
    | _ => cases hstep

/-- a template that only takes numbers writes a formula if its layout does -/
theorem Template.writes_run {site : Site} {formula : Formula} (template : Template) (operands : Nat → Formula)
    (hs : template.steps.all Step.isArithmetic)
    (h : ∀ taken ∈ template.steps.filterMap Step.operand?,
      Gen.Writes language taken.2 (operands taken.1) (site.value taken.1 taken.2 "0"))
    (hrender : ∀ identifier codes,
      OperandsStand language operands identifier (template.steps.filterMap Step.operand?) codes →
        Stands language bare (template.render codes bare) (formula.tree language identifier)) :
    Gen.Writes language bare formula (template.run site bare) := by
  intro pass hp
  obtain ⟨codes, after, hperform, hwell, hextends, hstands⟩ := Step.writes_runAll template.steps hs h [] pass hp
  refine ⟨template.render codes bare, after, ?_, hwell, hextends, fun later hl => ?_⟩
  · simp only [Template.run, Pass.perform_bind, hperform, Pass.perform_pure, List.nil_append]
  · exact hrender later.identifier codes (hstands later hl)

/-- a variable is written as the identifier that is issued for it -/
theorem writes_get (site : Site) (user : String) :
    Gen.Writes language bare (.variable user) ((language.template (.get user)).run site bare) := by
  intro pass hp
  have hbind := hp.bind .variable user
  have hperform : pass.perform ((language.template (.get user)).run site bare) =
      (.ok ((pass.names.bind .variable user).1 ++ ""),
        { pass with names := (pass.names.bind .variable user).2 }) := by
    cases language <;> rfl
  refine ⟨_, _, hperform, hbind.2, pass.names.extends_bind .variable user, fun later hl => ?_⟩
  have hlater := hl user _ (pass.names.binding?_bind .variable user)
  rw [Formula.tree, Names.identifier_of_binding? hlater]
  exact stands_name hbind.1

/-! ## The blocks -/

/-- the operands of a site write the formulas of what is plugged in -/
def Site.WritesOperands (language : Language) (site : Site) (operands : List (Nat × Option Formula)) : Prop :=
  ∀ slot formula bare, Formula.operand? operands slot = some formula →
    Gen.Writes language bare formula (site.value slot bare "0")

section

variable {site : Site} {operands : List (Nat × Option Formula)} {x y : Formula}

/-- a template of two numbers, both with the same hint -/
theorem writes_pair {template : Template} {hint : Bool} {formula : Formula}
    (hw : site.WritesOperands language operands) (hx : Formula.operand? operands 0 = some x)
    (hy : Formula.operand? operands 1 = some y) (hs : template.steps.all Step.isArithmetic)
    (htaken : template.steps.filterMap Step.operand? = [(0, hint), (1, hint)])
    (hrender : ∀ identifier code other, Stands language hint code (x.tree language identifier) →
      Stands language hint other (y.tree language identifier) →
        Stands language bare (template.render [code, other] bare) (formula.tree language identifier)) :
    Gen.Writes language bare formula (template.run site bare) := by
  refine template.writes_run (fun slot => if slot = 0 then x else y) hs ?_ ?_
  all_goals rw [htaken]
  · simp only [List.forall_mem_cons, List.not_mem_nil, false_imp_iff, implies_true, and_true, if_true]
    exact ⟨hw 0 x hint hx, hw 1 y hint hy⟩
  · rintro identifier codes (_ | ⟨hcode, _ | ⟨hother, _ | _⟩⟩)
    exact hrender identifier _ _ hcode hother

theorem writes_arithmetic (op : Arithmetic) (hw : site.WritesOperands language operands)
    (hx : Formula.operand? operands 0 = some x) (hy : Formula.operand? operands 1 = some y) :
    Gen.Writes language bare (.arithmetic op x y) ((language.template (.arithmetic op)).run site bare) := by
  have hs : (language.template (.arithmetic op)).steps.all Step.isArithmetic := by
    cases language <;> cases op <;> rfl
  have htaken : (language.template (.arithmetic op)).steps.filterMap Step.operand? =
      [(0, language.bareOperands op), (1, language.bareOperands op)] := by
    cases language <;> cases op <;> rfl
  exact writes_pair hw hx hy hs htaken fun _ _ _ hcode hother => stands_arithmetic op hcode hother

theorem writes_modulo (hw : site.WritesOperands language operands) (hx : Formula.operand? operands 0 = some x)
    (hy : Formula.operand? operands 1 = some y) :
    Gen.Writes language bare (.modulo x y) ((language.template .modulo).run site bare) := by
  have hs : (language.template .modulo).steps.all Step.isArithmetic := by cases language <;> rfl
  have htaken : (language.template .modulo).steps.filterMap Step.operand? = [(0, false), (1, false)] := by
    cases language <;> rfl
  exact writes_pair hw hx hy hs htaken fun _ _ _ hcode hother => stands_modulo hcode hother

theorem writes_single (op : Single) (hw : site.WritesOperands language operands)
    (hx : Formula.operand? operands 0 = some x) :
    Gen.Writes language bare (.single op x) ((language.template (.single op)).run site bare) := by
  have hs : (language.template (.single op)).steps.all Step.isArithmetic := by
    cases language <;> cases op <;> rfl
  have htaken : (language.template (.single op)).steps.filterMap Step.operand? =
      [(0, !Target.JavaScript.besideOperator op)] := by
    cases language <;> cases op <;> rfl
  refine Template.writes_run _ (fun _ => x) hs ?_ ?_
  all_goals rw [htaken]
  · simp only [List.forall_mem_cons, List.not_mem_nil, false_imp_iff, implies_true, and_true]
    exact hw 0 x _ hx
  · rintro identifier codes (_ | ⟨hcode, _ | _⟩)
    exact stands_single op hcode

theorem writes_constant {template : Template} {formula : Formula} (hs : template.steps.all Step.isArithmetic)
    (htaken : template.steps.filterMap Step.operand? = [])
    (hrender : ∀ identifier, Stands language bare (template.render [] bare) (formula.tree language identifier)) :
    Gen.Writes language bare formula (template.run site bare) := by
  refine template.writes_run (fun _ => formula) hs ?_ ?_
  all_goals rw [htaken]
  · simp only [List.not_mem_nil, false_imp_iff, implies_true]
  · rintro identifier codes (_ | _)
    exact hrender identifier

theorem writes_number (literal : String) :
    Gen.Writes language bare (.number (Binary64.parsePrefix literal))
      ((language.template (.number literal)).run site bare) := by
  have hs : (language.template (.number literal)).steps.all Step.isArithmetic := by cases language <;> rfl
  have htaken : (language.template (.number literal)).steps.filterMap Step.operand? = [] := by cases language <;> rfl
  refine writes_constant hs htaken fun identifier => ?_
  have hrender : (language.template (.number literal)).render [] bare =
      language.numberLiteral (Binary64.parsePrefix literal) ++ "" := by cases language <;> rfl
  rw [hrender, String.append_empty]
  exact stands_number _

theorem writes_randomFraction :
    Gen.Writes language bare .randomFraction ((language.template .randomFraction).run site bare) := by
  have hs : (language.template .randomFraction).steps.all Step.isArithmetic := by cases language <;> rfl
  have htaken : (language.template .randomFraction).steps.filterMap Step.operand? = [] := by cases language <;> rfl
  exact writes_constant hs htaken fun _ => stands_random

/-- **Every arithmetic construct writes its formula**, if its operands do. -/
theorem writes_form {form : Form} {formula : Formula} (hw : site.WritesOperands language operands)
    (hf : Formula.ofForm? operands form = some formula) :
    Gen.Writes language bare formula ((language.template form).run site bare) := by
  cases form with
  | number literal =>
    obtain rfl := Option.some.inj hf
    exact writes_number literal
  | get user =>
    obtain rfl := Option.some.inj hf
    exact writes_get site user
  | randomFraction =>
    obtain rfl := Option.some.inj hf
    exact writes_randomFraction
  | arithmetic op =>
    simp only [Formula.ofForm?, Option.bind_eq_bind, Option.bind_eq_some_iff] at hf
    obtain ⟨x, hx, y, hy, hf⟩ := hf
    obtain rfl := Option.some.inj hf
    exact writes_arithmetic op hw hx hy
  | modulo =>
    simp only [Formula.ofForm?, Option.bind_eq_bind, Option.bind_eq_some_iff] at hf
    obtain ⟨x, hx, y, hy, hf⟩ := hf
    obtain rfl := Option.some.inj hf
    exact writes_modulo hw hx hy
  | single op =>
    simp only [Formula.ofForm?, Option.bind_eq_bind, Option.bind_eq_some_iff] at hf
    obtain ⟨x, hx, hf⟩ := hf
    obtain rfl := Option.some.inj hf
    exact writes_single op hw hx
  | _ => cases hf

end

namespace Block

/-- **The code of an arithmetic block writes its formula.** By induction over the blocks plugged in. -/
theorem writes_code {block : Block} {formula : Formula} (h : block.formula? = some formula) (bare : Bool) :
    Gen.Writes language bare formula (block.code (.standard language) bare) := by
  induction block generalizing formula bare with
  | mk head values statements next hv _ _ =>
    simp only [formula?] at h
    cases hform : head.form with
    | error cause =>
      rw [hform] at h
      cases h
    | ok form =>
      simp only [hform] at h
      have hw : Site.WritesOperands language
          ⟨emissions (.standard language) values, emissions (.standard language) statements⟩ (formulas? values) := by
        intro slot operand hint ho
        refine Site.writes_value ?_
        rw [Formula.operand?, formulas?_eq_map, Slots.get?_map] at ho
        rw [get?_emissions]
        cases hc : Slots.get? slot values with
        | none =>
          rw [hc] at ho
          exact (Option.some.inj ho).symm
        | some child =>
          rw [hc] at ho
          obtain ⟨entry, hmem, rfl⟩ := Slots.mem_of_get? hc
          exact hv entry hmem ho hint
      intro pass hp
      rw [perform_code, hform]
      exact writes_form hw h pass hp

end Block

/-! ## The main statement -/

/-- **Generated arithmetic means what its blocks denote.** In every target, in a place that needs brackets or
not and from every state that a run can reach, the code of an arithmetic block is generated, is a text of the
target's tokens to its last character, reads as an expression, and the one tree that the target's rules of
precedence give it is that of the formula. -/
theorem arithmetic_reads_back (language : Language) (bare : Bool) (pass : Pass) (block : Block) (formula : Formula)
    (hp : pass.names.Reachable) (hf : block.formula? = some formula) :
    ∃ code after ts, pass.perform (block.code (.standard language) bare) = (.ok code, after) ∧
      tokens language code.toList = some ts ∧
      Reads language .sum ts (formula.tree language after.names.identifier) ∧
      ∀ t, Reads language .sum ts t → t = formula.tree language after.names.identifier := by
  obtain ⟨code, after, hperform, -, -, hstands⟩ := block.writes_code hf bare pass hp.wellFormed
  obtain ⟨ts, htokens, hread, hunique⟩ := (hstands after.names (.refl _)).toSum.tokens_unique
  exact ⟨code, after, ts, hperform, htokens, hread, hunique⟩

def negatedPower : Block :=
  .mk { Head.bare Kind.arithmetic.name with labels := [(1, "POWER")] }
    [(0, .mk { Head.bare Kind.single.name with labels := [(0, "NEG")] } [(0, .number "-2")] [] none),
      (1, .variableGet "x")] [] none

def negatedPowerFormula : Formula :=
  .arithmetic .power (.single .neg (.number (Binary64.parsePrefix "-2"))) (.variable "x")

/-- two minus signs in a row, under an operator that binds tighter than either -/
theorem negatedPower_reads_back :
    (Pass.start .python).names.Reachable ∧ negatedPower.formula? = some negatedPowerFormula ∧
    ∃ code after ts, (Pass.start .python).perform (negatedPower.code (.standard .python) true) = (.ok code, after) ∧
      tokens .python code.toList = some ts ∧
      Reads .python .sum ts (negatedPowerFormula.tree .python after.names.identifier) ∧
      ∀ t, Reads .python .sum ts t → t = negatedPowerFormula.tree .python after.names.identifier :=
  ⟨.start _, rfl,
    arithmetic_reads_back .python true (Pass.start .python) negatedPower negatedPowerFormula (.start _) rfl⟩

end Blockwork
