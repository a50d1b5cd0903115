/-
Paths as they are typed: the steps between slashes. An empty step, such as the one behind a slash at the
end, stays where it is like a point does, so it asks for a folder.
-/
namespace Blockwork.Files

inductive Step
  | stay
  | up
  | down (name : String)
  deriving DecidableEq

/-- a path; an absolute one starts at the root of all folders, any other one at the working folder -/
structure Path where
  absolute : Bool
  steps : List Step
  deriving DecidableEq

namespace Step

/-- the step of a piece between slashes -/
def ofName : String → Step
  | "" => stay
  | "." => stay
  | ".." => up
  | name => down name

def name : Step → String
  | stay => "."
  | up => ".."
  | down name => name

end Step

namespace Path

/-- the pieces of a text between slashes -/
def pieces : List Char → List (List Char)
  | [] => [[]]
  | '/' :: cs => [] :: pieces cs
  | c :: cs =>
    match pieces cs with
    | [] => [[c]]
    | piece :: rest => (c :: piece) :: rest

def ofText (text : String) : Path where
  absolute := text.toList.head? == some '/'
  steps := (pieces text.toList).map fun piece => Step.ofName (String.ofList piece)

/-- the steps of a path down to the folder that its last name is in. Steps that stay do not count as
last. -/
def parentSteps (steps : List Step) : List Step :=
  (steps.reverse.dropWhile (· == .stay)).tail.reverse

/-- the folder that the last name of a path is in -/
def parent (path : Path) : Path :=
  { path with steps := parentSteps path.steps }

def toText (path : Path) : String :=
  let text := String.intercalate "/" (path.steps.map Step.name)
  if path.absolute then "/" ++ text else text

end Path

end Blockwork.Files
