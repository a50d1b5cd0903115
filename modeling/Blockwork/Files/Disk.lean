/-
A disk in memory: the folders and files below a working folder. A location is the row of names that leads
down to it. Every operation either does its work or refuses it, and a refusal to make a chain of folders
may leave the first of them made.
-/
import Blockwork.Bytes
import Blockwork.Files.Path

namespace Blockwork.Files

/-- the names that lead from the working folder down to a place; the empty row is the folder itself -/
abbrev Location := List String

/-- the folders and files below a working folder -/
structure Disk where
  /-- the full name of the working folder -/
  home : String
  folders : List Location
  files : List (Location × Bytes)
  deriving DecidableEq

namespace Disk

def empty (home : String) : Disk := ⟨home, [], []⟩

def hasFolder (disk : Disk) (location : Location) : Bool :=
  location.isEmpty || disk.folders.contains location

def file? (disk : Disk) (location : Location) : Option Bytes :=
  disk.files.lookup location

def has (disk : Disk) (location : Location) : Bool :=
  disk.hasFolder location || (disk.file? location).isSome

def fullName (disk : Disk) (location : Location) : String :=
  String.intercalate "/" (disk.home :: location)

/-- a name that a file or a folder can have -/
def isName (name : String) : Bool :=
  name.utf8ByteSize ≤ 255 && !name.toList.contains '\x00'

/-- the steps of a path from the working folder. A path may start with the full name of that folder; no
other absolute path leads into it. -/
def steps? (disk : Disk) (path : String) : Option (List Step) :=
  let home := disk.home.toList ++ ['/']
  if home.isPrefixOf path.toList then
    some (Path.ofText (String.ofList (path.toList.drop home.length))).steps
  else
    let path := Path.ofText path
    if path.absolute then none else some path.steps

/-- where steps lead from a location; every step but the last has to lead to a folder -/
def walk (disk : Disk) : Location → List Step → Option Location
  | location, [] => some location
  | location, step :: rest =>
    if disk.hasFolder location then
      match step with
      | .stay => disk.walk location rest
      | .up => if location.isEmpty then none else disk.walk location.dropLast rest
      | .down name => if disk.has (location ++ [name]) then disk.walk (location ++ [name]) rest else none
    else none

/-- the location of the file that a path leads to -/
def locate? (disk : Disk) (path : String) : Option Location := do
  let location ← disk.walk [] (← disk.steps? path)
  if (disk.file? location).isSome then some location else none

def read? (disk : Disk) (path : String) : Option Bytes := do
  disk.file? (← disk.locate? path)

/-- the disk with folders made along steps from a location, and whether all of them were -/
def makeFolders (disk : Disk) : Location → List Step → Disk × Bool
  | _, [] => (disk, true)
  | location, .stay :: rest => disk.makeFolders location rest
  | location, .up :: rest =>
    if location.isEmpty then (disk, false) else disk.makeFolders location.dropLast rest
  | location, .down name :: rest =>
    let below := location ++ [name]
    if disk.hasFolder below then disk.makeFolders below rest
    else if (disk.file? below).isSome || !isName name then (disk, false)
    else { disk with folders := disk.folders ++ [below] }.makeFolders below rest

/-- the disk with the folders made that a path to a file needs, and whether all of them were -/
def makeParents (disk : Disk) (path : String) : Disk × Bool :=
  match disk.steps? path with
  | some steps => disk.makeFolders [] (Path.parentSteps steps)
  | none => (disk, false)

def setFile (location : Location) (content : Bytes) : List (Location × Bytes) → List (Location × Bytes)
  | [] => [(location, content)]
  | (l, c) :: rest => if l = location then (location, content) :: rest else (l, c) :: setFile location content rest

/-- the location at which a file can be written for a path: a name in an existing folder that is no
folder itself -/
def target? (disk : Disk) (path : String) : Option Location := do
  let steps ← disk.steps? path
  match steps.getLast? with
  | some (.down name) =>
    let folder ← disk.walk [] steps.dropLast
    let location := folder ++ [name]
    if disk.hasFolder folder && !disk.hasFolder location && isName name then some location else none
  | _ => none

/-- the disk with a file written, if it can be -/
def write? (disk : Disk) (path : String) (content : Bytes) : Option Disk :=
  (disk.target? path).map fun location => { disk with files := setFile location content disk.files }

end Disk

end Blockwork.Files
