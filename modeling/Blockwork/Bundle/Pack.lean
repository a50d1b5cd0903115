/-
Packing a bundle: a workspace is generated in every language, one after the other, and the programs go
into an archive behind their manifest. The first language that fails stops the rest. The manifest is printed
and the archive is put together by libraries, which may fail on their own.
-/
import Blockwork.Bundle.Manifest
import Blockwork.Program

namespace Blockwork

/-- the libraries that a bundle is packed with: one prints values, one puts named files into an archive. The
name of a file comes first and its content after it. An operation that fails says why in the library's words. -/
structure Packer where
  print : Json.Value → Except String String
  /-- an archive that is not finished -/
  State : Type
  start : State
  startFile : State → String → Except String State
  write : State → Bytes → Except String State
  finish : State → Except String Bytes

namespace Packer

variable (packer : Packer)

def addFile (state : packer.State) (name : String) (content : Bytes) : Except String packer.State := do
  packer.write (← packer.startFile state name) content

def addFiles : packer.State → List (String × Bytes) → Except String packer.State
  | state, [] => .ok state
  | state, (name, content) :: rest => do addFiles (← packer.addFile state name content) rest

/-- named files as the bytes of an archive -/
def pack (files : List (String × Bytes)) : Except String Bytes := do
  packer.finish (← packer.addFiles packer.start files)

end Packer

inductive PackError
  | generation (cause : GenError)
  /-- a library refuses -/
  | packing (cause : String)
  deriving DecidableEq

namespace Bundle

/-- the programs that were made, and what stopped the rest -/
structure Batch where
  programs : List Program
  stop : Option (Stop GenError)
  deriving DecidableEq

/-- a workspace generated in languages, one after the other -/
def batch (blocks : List Block) : List Language → Batch
  | [] => ⟨[], none⟩
  | language :: rest =>
    match generate language blocks with
    | .error stop => ⟨[], some stop⟩
    | .ok source =>
      let others := batch blocks rest
      ⟨⟨language, source⟩ :: others.programs, others.stop⟩

/-- a step of the work that is done, of how many -/
structure Stage where
  step : Nat
  total : Nat
  label : String
  deriving DecidableEq

/-- the stage reached with each of the programs -/
def stages (programs : List Program) : List Stage :=
  programs.zipIdx.map fun (program, i) =>
    ⟨i + 1, Language.all.length, "Generating " ++ program.language.name⟩

/-- the bytes of a bundle: the manifest is printed once its file has been started -/
def bytes (packer : Packer) (topBlocks : Nat) (programs : List Program) : Except String Bytes := do
  let state ← packer.startFile packer.start manifestFile
  let text ← packer.print (manifest topBlocks programs)
  let state ← packer.write state (Bytes.ofText text)
  let state ← packer.addFiles state
    (programs.map fun program => (program.language.programFile, Bytes.ofText program.source))
  packer.finish state

/-- the stages that packing a workspace goes through, and the bundle or why there is none -/
def pack (packer : Packer) (blocks : List Block) : List Stage × Except (Stop PackError) Bytes :=
  let made := batch blocks Language.all
  (stages made.programs,
    match made.stop with
    | some stop => .error (stop.map .generation)
    | none =>
      match bytes packer blocks.length made.programs with
      | .ok packed => .ok packed
      | .error cause => .error (.refused (.packing cause)))

end Bundle

end Blockwork
