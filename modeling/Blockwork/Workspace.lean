/-
Loading a workspace: the blocks that a document lays out. The children of a block element fill its
slots in document order, a later one replacing an earlier one for the same slot; elements of other names
are passed over. The first fault in document order is reported.
-/
import Blockwork.Block.Basic
import Blockwork.Markup.Document
import Blockwork.Number.Power
import Blockwork.Text.Blank
import Blockwork.Text.Digit

namespace Blockwork

inductive LoadError
  | malformed
  | unexpectedRoot (name : String)
  | missingType (tag : String)
  | invalidSlot (raw tag kind : String)
  | invalidCount (name raw kind : String)
  deriving DecidableEq

def LoadError.message : LoadError → String
  | malformed => "Malformed XML"
  | unexpectedRoot name => "Expected an <xml> root element, found <" ++ name ++ ">."
  | missingType tag => "<" ++ tag ++ "> is missing its 'type' attribute."
  | invalidSlot raw tag kind => "Invalid slot '" ++ raw ++ "' on <" ++ tag ++ "> of block '" ++ kind ++ "'."
  | invalidCount name raw kind => "Invalid " ++ name ++ " count '" ++ raw ++ "' on block '" ++ kind ++ "'."

namespace Block

def mapHead (block : Block) (f : Head → Head) : Block :=
  mk (f block.head) block.values block.statements block.next

def plugValue (block : Block) (slot : Nat) (child : Block) : Block :=
  mk block.head (Slots.insert slot child block.values) block.statements block.next

def plugStatement (block : Block) (slot : Nat) (first : Block) : Block :=
  mk block.head block.values (Slots.insert slot first block.statements) block.next

def plugNext (block below : Block) : Block :=
  mk block.head block.values block.statements (some below)

end Block

namespace Workspace

open Markup

/-- a whole number below 2^64 as written in an attribute: ASCII digits, with an optional plus sign in
front and white space around -/
def number? (raw : String) : Option Nat :=
  let digits := match Text.trim raw.toList with
    | '+' :: cs => cs
    | cs => cs
  (Text.readNatural? digits).filter (· < twoTo 64)

/-- the slot an element is for; zero when it names none -/
def slot (tag kind : String) (attributes : List (String × String)) : Except LoadError Nat :=
  match attributes.lookup "slot" with
  | none => .ok 0
  | some raw =>
    match number? raw with
    | some n => .ok n
    | none => .error (.invalidSlot raw tag kind)

/-- a count set on a block; zero when it is not given -/
def count (name kind : String) (attributes : List (String × String)) : Except LoadError Nat :=
  match attributes.lookup name with
  | none => .ok 0
  | some raw =>
    match number? raw with
    | some n => .ok n
    | none => .error (.invalidCount name raw kind)

/-- the text of an element: its own pieces of text in a row, without those of elements inside it -/
def textOf : List Node → String
  | [] => ""
  | .text content :: rest => content ++ textOf rest
  | .element _ _ _ :: rest => textOf rest
  | .aside :: rest => textOf rest

def isNamed (name : String) : Node → Bool
  | .element tag _ _ => tag == name
  | .text _ => false
  | .aside => false

def counts (kind : String) (attributes : List (String × String)) (head : Head) : Except LoadError Head := do
  let items ← count "items" kind attributes
  let elseifs ← count "elseif" kind attributes
  let otherwise ← count "else" kind attributes
  pure { head with items, elseifs, otherwise }

mutual

def block : Node → Except LoadError Block
  | .element tag attributes children =>
    match attributes.lookup "type" with
    | none => .error (.missingType tag)
    | some kind => fill kind (.leaf (.bare kind)) children
  | .text _ => .error (.missingType "")
  | .aside => .error (.missingType "")

/-- the block of the first element of the given name among nodes -/
def firstNamed (name : String) : List Node → Option (Except LoadError Block)
  | [] => none
  | node :: rest => if isNamed name node then some (block node) else firstNamed name rest

/-- fill a block of a kind from the nodes inside its element -/
def fill (kind : String) (acc : Block) : List Node → Except LoadError Block
  | [] => .ok acc
  | node :: rest => do fill kind (← fillOne kind acc node) rest

/-- fill a block of a kind from one node. A value, statement or next element counts for the block in
it, or else for the shadow in it; without either it is passed over, whatever slot it names. -/
def fillOne (kind : String) (acc : Block) : Node → Except LoadError Block
  | .text _ => .ok acc
  | .aside => .ok acc
  | .element tag attributes children =>
    let plugged : Option (Except LoadError Block) :=
      match firstNamed "block" children with
      | some loaded => some loaded
      | none => firstNamed "shadow" children
    match tag with
    | "title" => do
      let slot ← slot tag kind attributes
      pure (acc.mapHead fun head => { head with titles := Slots.insert slot (textOf children) head.titles })
    | "label" => do
      let slot ← slot tag kind attributes
      pure (acc.mapHead fun head => { head with labels := Slots.insert slot (textOf children) head.labels })
    | "variable" => do
      let slot ← slot tag kind attributes
      pure (acc.mapHead fun head => { head with variableNames := Slots.insert slot (textOf children) head.variableNames })
    | "value" =>
      match plugged with
      | none => .ok acc
      | some loaded => do
        let slot ← slot tag kind attributes
        pure (acc.plugValue slot (← loaded))
    | "statement" =>
      match plugged with
      | none => .ok acc
      | some loaded => do
        let slot ← slot tag kind attributes
        pure (acc.plugStatement slot (← loaded))
    | "mutation" => do
      let head ← counts kind attributes acc.head
      pure (acc.mapHead fun _ => head)
    | "next" =>
      match plugged with
      | none => .ok acc
      | some loaded => do pure (acc.plugNext (← loaded))
    | _ => .ok acc

end

/-- the blocks of the elements of that name among nodes, in order -/
def blocks : List Node → Except LoadError (List Block)
  | [] => .ok []
  | node :: rest =>
    if isNamed "block" node then do
      let first ← block node
      let others ← blocks rest
      pure (first :: others)
    else blocks rest

/-- the top blocks of a document's tree -/
def ofRoot : Node → Except LoadError (List Block)
  | .element name _ children => if name = "xml" then blocks children else .error (.unexpectedRoot name)
  | .text _ => .error .malformed
  | .aside => .error .malformed

/-- the top blocks of a document -/
def load (bytes : List UInt8) : Except LoadError (List Block) :=
  match Node.ofBytes? bytes with
  | some root => ofRoot root
  | none => .error .malformed

end Workspace

end Blockwork
