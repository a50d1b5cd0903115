/-
Pieces of a template: fixed text, and places that take a text left by an earlier step, as it stands or
adjusted to its place. All adjustments look at the text alone.
-/
import Blockwork.Number.Numeral
import Blockwork.Text.Lines
import Blockwork.Text.Quote
import Blockwork.Text.Word

namespace Blockwork

def bracketed (code : String) : String :=
  "(" ++ code ++ ")"

/-- code in brackets unless the place it goes to needs none -/
def parenthesize (code : String) (bare : Bool) : String :=
  if bare then code else bracketed code

/-- whether a method call behind the code applies to all of it: a name, a member path, a plain number or
one string literal -/
def isReceiver (cs : List Char) : Bool :=
  (!cs.isEmpty && cs.all fun c => Text.isWordChar c || c == '.') || Text.isLiteral cs

/-- code that a method call may follow -/
def receiver (code : String) : String :=
  if isReceiver code.toList then code else bracketed code

/-- code that a minus sign may precede, or a power may follow -/
def guardMinus (code : String) : String :=
  if code.toList.head? == some '-' then bracketed code else code

/-- code that a negation may precede -/
def guardWord (code : String) : String :=
  if Text.isBareWord code.toList then code else bracketed code

/-- the natural number below `limit` that the code is the numeral of -/
def naturalBelow? (limit : Nat) (code : String) : Option Nat :=
  (Text.readNatural? code.toList).filter (· < limit)

/-- the bound one above: the numeral of the next number, or the sum to be formed when the program runs -/
def boundAbove (code : String) : String :=
  match naturalBelow? (twoTo 64) code with
  | some n => toString (n + 1)
  | none => code ++ " + 1"

/-- the index counted from zero of one counted from one; an index of zero becomes minus one -/
def indexBefore (code : String) : String :=
  match naturalBelow? (twoTo 63) code with
  | some n => toString ((n : Int) - 1)
  | none => code ++ " - 1"

/-- the index counted from zero of one counted from one, where a negative index would count from the
end: an index of zero stays zero -/
def indexBeforeClamped (code : String) : String :=
  match naturalBelow? (twoTo 64) code with
  | some n => toString (n - 1)
  | none => code ++ " - 1"

/-- the first bound of a range with the comma behind it; a range from zero needs none -/
def rangeStart (code : String) : String :=
  if (numericLiteral? code).any Binary64.isZero then "" else code ++ ", "

/-- the body of a procedure: its statements and the return of its result, or a statement that does
nothing when there is neither -/
def procedureBody (statements result stop noop : String) : String :=
  if !result.isEmpty then statements ++ Text.indentation ++ "return " ++ result ++ stop
  else if !statements.isEmpty then statements
  else Text.indentation ++ noop ++ "\n"

/-- one piece; numbers refer to the texts left by the steps before -/
inductive Piece
  | text (code : String)
  | hole (i : Nat)
  | receiver (i : Nat)
  | guardMinus (i : Nat)
  | guardWord (i : Nat)
  | boundAbove (i : Nat)
  | indexBefore (i : Nat)
  | indexBeforeClamped (i : Nat)
  | rangeStart (i : Nat)
  | procedureBody (statements result : Nat) (stop noop : String)
  deriving DecidableEq

namespace Piece

instance : Coe String Piece := ⟨.text⟩

instance (n : Nat) : OfNat Piece n := ⟨.hole n⟩

def textAt (texts : List String) (i : Nat) : String :=
  texts.getD i ""

def render (texts : List String) : Piece → String
  | text code => code
  | hole i => textAt texts i
  | receiver i => Blockwork.receiver (textAt texts i)
  | guardMinus i => Blockwork.guardMinus (textAt texts i)
  | guardWord i => Blockwork.guardWord (textAt texts i)
  | boundAbove i => Blockwork.boundAbove (textAt texts i)
  | indexBefore i => Blockwork.indexBefore (textAt texts i)
  | indexBeforeClamped i => Blockwork.indexBeforeClamped (textAt texts i)
  | rangeStart i => Blockwork.rangeStart (textAt texts i)
  | procedureBody s r stop noop => Blockwork.procedureBody (textAt texts s) (textAt texts r) stop noop

/-- the contributions of pieces one after the other -/
def renderAll (texts : List String) : List Piece → String
  | [] => ""
  | piece :: rest => piece.render texts ++ renderAll texts rest

end Piece

end Blockwork
