/-
One generation run: the state that every template shares, and the few ways in which it may change.
A run keeps its state when it fails, so whatever was hoisted or named before the failure stays.
-/
import Blockwork.Error
import Blockwork.Names
import Blockwork.Registry

namespace Blockwork

structure Pass where
  language : Language
  registry : Registry
  names : Names
  deriving DecidableEq

/-- a step of a run: it reads and extends the state and yields a result, is refused, or overflows -/
abbrev Gen := ExceptT (Stop GenError) (StateM Pass)

namespace Pass

def start (language : Language) : Pass :=
  { language, registry := .empty, names := .start language.reservedWords }

/-- carry out a step: its outcome, and the state after it whatever the outcome -/
def perform {α : Type} (pass : Pass) (step : Gen α) : Except (Stop GenError) α × Pass :=
  Id.run (StateT.run (ExceptT.run step) pass)

end Pass

namespace Gen

/-- stop unless a reading succeeded -/
def ofExcept {α : Type} : Except (Stop GenError) α → Gen α
  | .ok a => pure a
  | .error stop => throw stop

/-- go on with a number below a limit; any other overflows -/
def within (limit n : Nat) : Gen Unit :=
  if n < limit then pure () else throw .overflow

/-- use the names of the run -/
def withNames {α : Type} (f : Names → α × Names) : Gen α :=
  modifyGet fun pass =>
    let (a, names) := f pass.names
    (a, { pass with names })

def nameOf (role : Role) (user : String) : Gen String :=
  withNames fun names => names.bind role user

def freshName (base : String) : Gen String :=
  withNames fun names => names.distinct base

/-- hoist a definition unless its key is already there -/
def define (key : String) (name : Option String) (source : String) : Gen Unit :=
  modify fun pass => { pass with registry := (pass.registry.request key fun _ => (name, source)).2 }

def require (key source : String) : Gen Unit :=
  define key none source

/-- hoist a helper once per run and give the identifier that every call must use; the identifier is
issued, and the source built around it, at the first request -/
def provide (key base : String) (source : String → String) : Gen String := do
  match (← get).registry.find? key with
  | some definition => pure (definition.name.getD "")
  | none =>
    let name ← freshName base
    define key (some name) (source name)
    pure name

/-- a fresh temporary with a declaration at the top of the program -/
def declareTemporary (base : String) : Gen String := do
  let name ← freshName base
  define ("temp_" ++ name) (some name) ("var " ++ name ++ ";")
  pure name

end Gen

end Blockwork
