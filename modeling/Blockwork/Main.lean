/-
The command line program: the command on the machine it runs on.
-/
import Blockwork.Bundle.Packer
import Blockwork.Command.Run

namespace Blockwork.Command

/-- an action with its failure given as text -/
def attempt {α : Type} (action : IO α) : IO (Except String α) := do
  match ← action.toBaseIO with
  | .ok a => pure (.ok a)
  | .error e => pure (.error (toString e))

def isFile (path : String) : IO Bool := do
  let real ← IO.FS.realPath path
  match ← real.metadata.toBaseIO with
  | .ok data => pure (data.type == .file)
  | .error _ => pure false

def machine : Host IO where
  resolve path := do
    match ← (isFile path).toBaseIO with
    | .ok true => do pure (some (← IO.FS.realPath path).toString)
    | .ok false => pure none
    | .error _ => pure none
  readFile name := attempt do pure (← IO.FS.readBinFile name).data.toList
  makeParents path := attempt do
    let parent := (Files.Path.ofText path).parent
    if parent.steps.isEmpty then pure () else IO.FS.createDirAll parent.toText
  writeFile path bytes := attempt (IO.FS.writeBinFile path ⟨bytes.toArray⟩)
  print text := IO.print text
  report line := IO.eprintln line

def usage : String :=
  "Generate JavaScript, Dart or Python source from a Blockly-style XML workspace.\n\n" ++
  "Usage: blockgen [OPTIONS] <INPUT> [OUTPUT]\n\n" ++
  "Options:\n" ++
  "      --language <LANGUAGE>  Target language: javascript (js), dart or python (py). [default: javascript]\n" ++
  "      --bundle               Write a zip bundle with every target and a digest manifest to OUTPUT.\n" ++
  "  -h, --help                 Print help"

def UsageError.message : UsageError → String
  | noInput => "the following required arguments were not provided:\n  <INPUT>"
  | noValue => "a value is required but none was supplied"
  | badValue => "invalid value for '--language <LANGUAGE>'"
  | unknownArgument => "unexpected argument found"
  | extraValue => "unexpected value for an option that takes none"
  | repeated => "an argument cannot be used multiple times"
  | help => usage

def failureText : List String → String
  | [] => "Error"
  | [text] => "Error: " ++ text
  | text :: causes => "Error: " ++ text ++ "\n\nCaused by:\n    " ++ String.intercalate "\n    " causes

/-- run the command and say what became of it: zero for success, one for a failure, two for arguments that
are not understood, a number of its own for an overflow -/
def runProgram (arguments : List String) : IO UInt32 := do
  match Arguments.parse arguments with
  | .error .help => do
    IO.println usage
    pure 0
  | .error e => do
    IO.eprintln ("error: " ++ e.message)
    pure 2
  | .ok arguments =>
    match ← (run machine .standard arguments).run with
    | .ok _ => pure 0
    | .error (.refused e) => do
      IO.eprintln (failureText e.messages)
      pure 1
    | .error .overflow => do
      IO.eprintln "Error: a number outgrew its limit"
      pure 101

end Blockwork.Command

def main (arguments : List String) : IO UInt32 :=
  Blockwork.Command.runProgram arguments
