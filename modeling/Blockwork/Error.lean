/-
Why generation stops. The first cause met ends the whole run; the wording is fixed here and nowhere
else. A number that outgrows its limit is no cause of its own: the run is broken off, and nothing is
reported.
-/
import Blockwork.Block.Kind
import Blockwork.Language

namespace Blockwork

inductive GenError
  /-- the operator or choice set on a block is not one its kind knows -/
  | unknownSelector (kind : Kind) (token : String)
  /-- the block's kind is not one of the twenty-nine -/
  | unknownKind (name : String)
  /-- a template table has no entry for a kind -/
  | missingTemplate (language : Language) (kind : Kind)
  deriving DecidableEq

def GenError.message : GenError → String
  | unknownSelector kind token => "Unknown selector '" ++ token ++ "' on block '" ++ kind.name ++ "'."
  | unknownKind name => "Unknown block type '" ++ name ++ "'."
  | missingTemplate language kind =>
    "No " ++ language.name ++ " generator registered for block type '" ++ kind.name ++ "'."

/-- the kind a name stands for, or the cause that there is none -/
def Kind.read (name : String) : Except GenError Kind :=
  match Kind.ofName? name with
  | some kind => .ok kind
  | none => .error (.unknownKind name)

/-- how work ends that gives no result: it is refused for a cause, or a number in it outgrows its limit -/
inductive Stop (ε : Type)
  | refused (cause : ε)
  | overflow
  deriving DecidableEq

namespace Stop

variable {ε ε' α : Type}

/-- the same end, with the cause as another kind of work puts it -/
def map (f : ε → ε') : Stop ε → Stop ε'
  | refused cause => refused (f cause)
  | overflow => overflow

/-- an outcome that is refused or not, where overflow is possible besides -/
def refusing : Except ε α → Except (Stop ε) α
  | .ok a => .ok a
  | .error cause => .error (.refused cause)

end Stop

end Blockwork
