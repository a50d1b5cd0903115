/-
The packer of this library. It keeps the files that were put in, the last one first, and writes the archive
when it is finished.
-/
import Blockwork.Archive.Write
import Blockwork.Bundle.Pack

namespace Blockwork.Packer

/-- no two files may have one name -/
def startNamed (files : List (String × Bytes)) (name : String) : Except String (List (String × Bytes)) :=
  if name ∈ files.map Prod.fst then .error ("Duplicate file name '" ++ name ++ "'.")
  else .ok ((name, []) :: files)

/-- content goes to the file that was started last -/
def writeLast (files : List (String × Bytes)) (content : Bytes) : Except String (List (String × Bytes)) :=
  match files with
  | [] => .error "No file has been started."
  | (name, before) :: rest => .ok ((name, before ++ content) :: rest)

def standard : Packer where
  print value := .ok (String.ofList (value.render 0))
  State := List (String × Bytes)
  start := []
  startFile := startNamed
  write := writeLast
  finish files :=
    match Archive.write? files.reverse with
    | some packed => .ok packed
    | none => .error "The archive is too large."

end Blockwork.Packer
