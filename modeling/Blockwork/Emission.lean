/-
Generating blocks. A block is generated by the template of its kind, at the site made of the blocks
plugged into it; a chain is the code of its blocks one after the other, with an expression made a
statement of its own. Which blocks are visited, and in which order, is decided by the templates alone.
-/
import Blockwork.Target.Table
import Blockwork.Template.Run

namespace Blockwork

namespace Head

/-- the code of a block with this data at a site -/
def code (head : Head) (table : Table) (site : Site) (bare : Bool) : Gen String := do
  let kind ← Gen.ofExcept (Stop.refusing (Kind.read head.kind))
  let template ← Gen.ofExcept (table.get kind head)
  template.run site bare

/-- what a block with this data adds to its chain, given how its code is generated -/
def link (head : Head) (code : Bool → Gen String) : Gen String := do
  let kind ← Gen.ofExcept (Stop.refusing (Kind.read head.kind))
  let code ← code true
  if kind.isStatement || code.isEmpty then pure code
  else pure ((← get).language.expressionStatement code)

end Head

namespace Block

mutual

/-- how a block is generated -/
def emission (table : Table) : Block → Emission
  | mk head values statements next =>
    let code := fun bare => head.code table ⟨emissions table values, emissions table statements⟩ bare
    { code
      chain := do
        let own ← head.link code
        let rest ← nextChain table next
        pure (own ++ rest) }

def emissions (table : Table) : List (Nat × Block) → List (Nat × Emission)
  | [] => []
  | (slot, block) :: rest => (slot, emission table block) :: emissions table rest

/-- the code of the chain below a block; empty when there is none -/
def nextChain (table : Table) : Option Block → Gen String
  | none => pure ""
  | some block => (emission table block).chain

end

def site (table : Table) (block : Block) : Site :=
  ⟨emissions table block.values, emissions table block.statements⟩

def code (table : Table) (block : Block) (bare : Bool) : Gen String :=
  (emission table block).code bare

def chainCode (table : Table) (block : Block) : Gen String :=
  (emission table block).chain

/-- the code of chains one after the other -/
def chainsCode (table : Table) : List Block → Gen String
  | [] => pure ""
  | block :: rest => do
    let first ← block.chainCode table
    let others ← chainsCode table rest
    pure (first ++ others)

end Block

end Blockwork
