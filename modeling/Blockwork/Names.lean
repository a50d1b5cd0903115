/-
Names issued during one generation. A user-facing name (of a variable or of a procedure) is bound to
one identifier for the whole run; a distinct name is a fresh identifier each time. Both come from one
pool, so no identifier is issued twice and none is a reserved word.
-/
import Blockwork.Text.Blank

namespace Blockwork

/-- what a user-facing name names -/
inductive Role
  | variable
  | procedure
  deriving DecidableEq

/-- the names of one run: what is taken, what is bound to what, and the variables in order of first use -/
structure Names where
  issued : List String
  bound : List ((Role × String) × String)
  variableNames : List String
  deriving DecidableEq

namespace Names

/-- letters, digits and the underscore of ASCII -/
def isNameChar (c : Char) : Bool :=
  c.isAlphanum || c == '_'

/-- any text as an identifier: other characters become underscores, and a leading digit is covered -/
def safeChars (cs : List Char) : List Char :=
  match (Text.trim cs).map fun c => if isNameChar c then c else '_' with
  | [] => "unnamed".toList
  | c :: rest => if c.isDigit then "my_".toList ++ c :: rest else c :: rest

/-- a user's name as an identifier that is legal in every target -/
def safeName (name : String) : String :=
  String.ofList (safeChars name.toList)

/-- the names tried for a base, in order: the base itself, then the base with 2, 3, 4, … behind it -/
def candidate (base : String) : Nat → String
  | 0 => base
  | k + 1 => base ++ toString (k + 2)

/-- the first candidate from the `k`-th on that is not issued, looking at no more than `fuel` of them
before settling for the next -/
def firstFree (issued : List String) (base : String) : Nat → Nat → String
  | 0, k => candidate base k
  | fuel + 1, k =>
    if issued.contains (candidate base k) then firstFree issued base fuel (k + 1) else candidate base k

def start (reserved : List String) : Names :=
  { issued := reserved, bound := [], variableNames := [] }

/-- a fresh identifier close to `base`: the first free candidate, found among one more candidate than
there are issued names -/
def distinct (names : Names) (base : String) : String × Names :=
  let name := firstFree names.issued (safeName base) names.issued.length 0
  (name, { names with issued := name :: names.issued })

def binding? (names : Names) (role : Role) (user : String) : Option String :=
  names.bound.lookup (role, user)

/-- the identifier of a user-facing name, issued when it is first asked for -/
def bind (names : Names) (role : Role) (user : String) : String × Names :=
  match names.binding? role user with
  | some name => (name, names)
  | none =>
    let (name, names) := names.distinct user
    (name, { names with
      bound := ((role, user), name) :: names.bound
      variableNames := if role = .variable then names.variableNames ++ [name] else names.variableNames })

end Names

end Blockwork
