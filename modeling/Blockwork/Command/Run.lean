/-
The command at work. It reaches files and the terminal through a host, so that the same text of the
program runs on a real machine and on a session in memory.
-/
import Blockwork.Command.Arguments
import Blockwork.Command.Progress
import Blockwork.Files.Disk
import Blockwork.Workspace

namespace Blockwork.Command

/-- what the command needs from the machine. An operation that fails says why in the machine's words. -/
structure Host (m : Type → Type) where
  /-- the full name of the file that a path leads to, if it leads to one -/
  resolve : String → m (Option String)
  readFile : String → m (Except String Bytes)
  /-- make the folders that a path to a file needs -/
  makeParents : String → m (Except String Unit)
  writeFile : String → Bytes → m (Except String Unit)
  print : String → m Unit
  /-- print a line of progress -/
  report : String → m Unit

inductive RunError
  | noOutput
  | notFound (path : String)
  | unreadable (path cause : String)
  | invalidWorkspace (path : String) (cause : LoadError)
  | generation (cause : GenError)
  /-- a library refuses to pack a bundle -/
  | packing (cause : String)
  /-- the machine refuses -/
  | refused (cause : String)
  | unwritable (path cause : String)
  deriving DecidableEq

def RunError.messages : RunError → List String
  | noOutput => ["--bundle requires an OUTPUT path."]
  | notFound path => ["Input file not found: '" ++ path ++ "'."]
  | unreadable path cause => ["Failed to read '" ++ path ++ "'.", cause]
  | invalidWorkspace path cause => ["Invalid workspace '" ++ path ++ "'.", cause.message]
  | generation cause => [cause.message]
  | packing cause => [cause]
  | refused cause => [cause]
  | unwritable path cause => ["Failed to write '" ++ path ++ "'.", cause]

def RunError.ofPacking : PackError → RunError
  | .generation cause => generation cause
  | .packing cause => packing cause

/-- what the command does: it may fail, or overflow -/
abbrev Activity (m : Type → Type) := ExceptT (Stop RunError) m

section

variable {m : Type → Type} [Monad m]

/-- an answer of the machine, with a refusal turned into a failure -/
def accept {α : Type} (failure : String → RunError) (answer : m (Except String α)) : Activity m α := do
  match ← ExceptT.lift answer with
  | .ok a => pure a
  | .error cause => throw (.refused (failure cause))

def resolveInput (host : Host m) (path : String) : Activity m String := do
  match ← ExceptT.lift (host.resolve path) with
  | some name => pure name
  | none => throw (.refused (.notFound path))

def loadFile (host : Host m) (name : String) : Activity m (List Block) := do
  let bytes ← accept (.unreadable name) (host.readFile name)
  match Workspace.load bytes with
  | .ok blocks => pure blocks
  | .error cause => throw (.refused (.invalidWorkspace name cause))

def program (language : Language) (blocks : List Block) : Activity m String :=
  match generate language blocks with
  | .ok source => pure source
  | .error stop => throw (stop.map .generation)

def generateFile (host : Host m) (language : Language) (path : String) : Activity m String := do
  let name ← resolveInput host path
  program language (← loadFile host name)

def reportAll (host : Host m) : List String → m Unit
  | [] => pure ()
  | line :: rest => do
    host.report line
    reportAll host rest

/-- pack blocks into a bundle and write it; `shown` says how a stage is reported, if at all -/
def writeBundle (host : Host m) (packer : Packer) (shown : Bundle.Stage → Option String) (blocks : List Block)
    (path : String) : Activity m Unit := do
  let (stages, packed) := Bundle.pack packer blocks
  ExceptT.lift (reportAll host (stages.filterMap shown))
  match packed with
  | .error stop => throw (stop.map .ofPacking)
  | .ok bytes => do
    accept .refused (host.makeParents path)
    accept (.unwritable path) (host.writeFile path bytes)

/-- write a program to a file, or print it -/
def deliver (host : Host m) (source : String) : Option String → Activity m Unit
  | none => ExceptT.lift (host.print source)
  | some path => do
    accept .refused (host.makeParents path)
    accept .refused (host.writeFile path (Bytes.ofText source))

/-- report the beginning of one of the three stages of a run without a bundle -/
def begin (host : Host m) (step : Nat) (label : String) : Activity m Unit :=
  ExceptT.lift (host.report (progressLine ⟨step, 3, label⟩))

/-- load the workspace, with the two stages of that reported -/
def loadInput (host : Host m) (path : String) : Activity m (List Block) := do
  begin host 1 "Resolving input path"
  let name ← resolveInput host path
  begin host 2 "Loading workspace"
  loadFile host name

def run (host : Host m) (packer : Packer) (arguments : Arguments) : Activity m Unit := do
  match arguments.bundle, arguments.output with
  | true, none => throw (.refused .noOutput)
  | true, some path => do
    let blocks ← loadInput host arguments.input
    writeBundle host packer (fun stage => some (progressLine (behindLoading stage))) blocks path
  | false, output => do
    let blocks ← loadInput host arguments.input
    begin host 3 ("Generating " ++ arguments.language.name)
    deliver host (← program arguments.language blocks) output

end

end Blockwork.Command
