/-
Carrying out a template at a block. The blocks plugged into a block are known here only by how they are
generated (`Emission`), so a template can reach them through its steps and in no other way.
-/
import Blockwork.Block.Slots
import Blockwork.Pass
import Blockwork.Template.Basic

namespace Blockwork

/-- how a block is generated: its own code for a place that needs brackets or not, and the code of the
chain that starts with it -/
structure Emission where
  code : Bool → Gen String
  chain : Gen String

structure Site where
  values : List (Nat × Emission)
  statements : List (Nat × Emission)

namespace Site

/-- the code of a value slot; none when nothing is plugged in, or what is plugged in has no code -/
def value? (site : Site) (slot : Nat) (bare : Bool) : Gen (Option String) :=
  match Slots.get? slot site.values with
  | none => pure none
  | some child => do
    let code ← child.code bare
    pure (if code.isEmpty then none else some code)

/-- the code of a value slot, with a text to stand in for none -/
def value (site : Site) (slot : Nat) (bare : Bool) (absent : String) : Gen String := do
  pure ((← site.value? slot bare).getD absent)

/-- the indented code of a statement slot; none when it is empty. The slot behind the most conditions that
a block can have has no number. -/
def statement? (site : Site) (slot : Nat) : Gen (Option String) := do
  Gen.within Slots.limit slot
  match Slots.get? slot site.statements with
  | none => pure none
  | some first => do
    let code ← first.chain
    pure (if code.isEmpty then none else some (Text.prefixLines code Text.indentation))

/-- the body of a compound statement: the indented code of a statement slot, or a statement that does
nothing -/
def branch (site : Site) (slot : Nat) : Gen String := do
  match ← site.statement? slot with
  | some code => pure code
  | none => pure (Text.indentation ++ (← get).language.noop ++ "\n")

end Site

namespace Step

/-- carry out a step: the texts after it -/
def run (site : Site) (texts : List String) : Step → Gen (List String)
  | value slot bare absent => do pure (texts ++ [← site.value slot bare absent])
  | branch slot => do pure (texts ++ [← site.branch slot])
  | body slot => do pure (texts ++ [(← site.statement? slot).getD ""])
  | userVariable name => do pure (texts ++ [← Gen.nameOf .variable name])
  | userProcedure name => do pure (texts ++ [← Gen.nameOf .procedure name])
  | fresh base => do pure (texts ++ [← Gen.freshName base])
  | temporary base => do pure (texts ++ [← Gen.declareTemporary base])
  | helper h => do pure (texts ++ [← Gen.provide h.key h.key h.source])
  | require library => do
    Gen.require library.key library.source
    pure texts
  | hoist key name source => do
    let identifier := Piece.textAt texts name
    Gen.define (key ++ identifier) (some identifier) (Piece.renderAll texts source)
    pure texts

def runAll (site : Site) : List String → List Step → Gen (List String)
  | texts, [] => pure texts
  | texts, step :: rest => do runAll site (← step.run site texts) rest

end Step

namespace Template

/-- the code that a template gives at a block -/
def run (template : Template) (site : Site) (bare : Bool) : Gen String := do
  pure (template.render (← Step.runAll site [] template.steps) bare)

end Template

end Blockwork
