/-
The arguments of the command: an input path, an optional output path, the language and the choice of a
bundle. Arguments are taken one after the other. A value is checked when the next argument shows that it
is complete, so a fault in the next argument's form is found before one in the value.
-/
import Blockwork.Language

namespace Blockwork.Command

structure Arguments where
  input : String
  output : Option String
  language : Language
  bundle : Bool
  deriving DecidableEq

inductive UsageError
  /-- there is no input path -/
  | noInput
  /-- a value is empty or not given where one has to be -/
  | noValue
  /-- a value is not one of those that may be given -/
  | badValue
  /-- an option is not known, or there is one path too many -/
  | unknownArgument
  /-- an option that takes no value is given one -/
  | extraValue
  /-- an option is given twice -/
  | repeated
  /-- help is asked for -/
  | help
  deriving DecidableEq

/-- what is still to be checked -/
inductive Pending
  | nothing
  | input (path : String)
  | output (path : String)
  /-- the language option, with its value once that is there -/
  | language (name : Option String)
  deriving DecidableEq

structure Scan where
  input : Option String
  output : Option String
  language : Option Language
  bundle : Bool
  pending : Pending
  /-- how many paths were given -/
  paths : Nat
  /-- whether all further arguments are paths -/
  pathsOnly : Bool
  deriving DecidableEq

namespace Scan

def start : Scan := ⟨none, none, none, false, .nothing, 0, false⟩

/-- a path, which may not be empty -/
def path (text : String) : Except UsageError String :=
  if text.isEmpty then .error .noValue else .ok text

/-- the language set, once only -/
def setLanguage (scan : Scan) (name : String) : Except UsageError Scan :=
  match scan.language, Language.ofName? name with
  | some _, _ => .error .repeated
  | none, none => .error .badValue
  | none, some language => .ok { scan with language := some language }

/-- what was still to be checked is checked -/
def settle (scan : Scan) : Except UsageError Scan :=
  let settled := { scan with pending := .nothing }
  match scan.pending with
  | .nothing => .ok settled
  | .input text => (path text).map fun text => { settled with input := some text }
  | .output text => (path text).map fun text => { settled with output := some text }
  | .language none => .error .noValue
  | .language (some name) => settled.setLanguage name

/-- a path taken; there are two at most -/
def takePath (scan : Scan) (text : String) : Except UsageError Scan :=
  match scan.paths with
  | 0 => do pure { ← scan.settle with pending := .input text, paths := 1 }
  | 1 => do pure { ← scan.settle with pending := .output text, paths := 2 }
  | _ => .error .unknownArgument

/-- a long option taken, by its name and the value behind an equals sign -/
def takeLong (scan : Scan) (name : String) (value : Option String) : Except UsageError Scan :=
  match name, value with
  | "language", some value => do (← scan.settle).setLanguage value
  | "language", none => do pure { ← scan.settle with pending := .language none }
  | "bundle", none => do
    let scan ← scan.settle
    if scan.bundle then .error .repeated else pure { scan with bundle := true }
  | "bundle", some _ => .error .extraValue
  | "help", none => scan.settle.bind fun _ => .error .help
  | "help", some _ => .error .extraValue
  | _, _ => .error .unknownArgument

/-- a value taken where the language option waits for one, or else a path -/
def takePlain (scan : Scan) (text : String) : Except UsageError Scan :=
  match scan.pending with
  | .language none => .ok { scan with pending := .language (some text) }
  | _ => scan.takePath text

/-- the name and the value of a long option, from behind its hyphens -/
def splitLong (cs : List Char) : String × Option String :=
  let name := cs.takeWhile (· != '=')
  (String.ofList name, ((cs.drop name.length).tail?).map String.ofList)

def take (scan : Scan) (argument : String) : Except UsageError Scan :=
  if scan.pathsOnly then scan.takePath argument
  else
    match argument.toList with
    | ['-', '-'] => .ok { scan with pathsOnly := true }
    | '-' :: '-' :: cs =>
      let (name, value) := splitLong cs
      scan.takeLong name value
    | ['-'] => scan.takePlain argument
    | '-' :: 'h' :: _ => scan.settle.bind fun _ => .error .help
    | '-' :: _ => .error .unknownArgument
    | _ => scan.takePlain argument

def takeAll : Scan → List String → Except UsageError Scan
  | scan, [] => scan.settle
  | scan, argument :: rest => do takeAll (← scan.take argument) rest

def finish (scan : Scan) : Except UsageError Arguments :=
  match scan.input with
  | none => .error .noInput
  | some input =>
    .ok { input, output := scan.output, language := scan.language.getD .standard, bundle := scan.bundle }

end Scan

def Arguments.parse (arguments : List String) : Except UsageError Arguments := do
  (← Scan.start.takeAll arguments).finish

end Blockwork.Command
