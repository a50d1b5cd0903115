/-
Blocks as a workspace supplies them. Nothing is checked here: the kind is any text, any slot may hold
any block, and texts are kept as written. Generation reads a block's own data (`Head`) first and then
visits only the slots that its kind asks for.
-/
import Blockwork.Block.Kind
import Blockwork.Block.Slots

namespace Blockwork

/-- a block's own data, without the blocks plugged into it -/
structure Head where
  kind : String
  titles : List (Nat × String)
  labels : List (Nat × String)
  variableNames : List (Nat × String)
  items : Nat
  elseifs : Nat
  otherwise : Nat
  deriving DecidableEq

namespace Head

def bare (kind : String) : Head :=
  { kind, titles := [], labels := [], variableNames := [], items := 0, elseifs := 0, otherwise := 0 }

def title? (head : Head) (slot : Nat) : Option String :=
  Slots.get? slot head.titles

def label? (head : Head) (slot : Nat) : Option String :=
  Slots.get? slot head.labels

def variableName? (head : Head) (slot : Nat) : Option String :=
  Slots.get? slot head.variableNames

end Head

/-- a block: its own data, the blocks plugged into its value and statement slots, and the block below it -/
inductive Block
  | mk (head : Head) (values statements : List (Nat × Block)) (next : Option Block)

namespace Block

def head : Block → Head
  | mk head _ _ _ => head

def values : Block → List (Nat × Block)
  | mk _ values _ _ => values

def statements : Block → List (Nat × Block)
  | mk _ _ statements _ => statements

def next : Block → Option Block
  | mk _ _ _ next => next

def leaf (head : Head) : Block :=
  mk head [] [] none

def number (literal : String) : Block :=
  leaf { Head.bare Kind.number.name with titles := [(0, literal)] }

def text (literal : String) : Block :=
  leaf { Head.bare Kind.text.name with titles := [(1, literal)] }

def variableGet (name : String) : Block :=
  leaf { Head.bare Kind.variableGet.name with titles := [(0, name)] }

/-- the block with `tail` put below the last block under it -/
def chain : Block → Block → Block
  | mk head values statements none, tail => mk head values statements (some tail)
  | mk head values statements (some next), tail => mk head values statements (some (chain next tail))

end Block

end Blockwork
