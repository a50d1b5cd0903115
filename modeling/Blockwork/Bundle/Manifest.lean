/-
The manifest of a bundle: how many blocks the workspace has at its top, and for every program the file it
is in, its language and its digest.
-/
import Blockwork.Digest
import Blockwork.Json.Value
import Blockwork.Language

namespace Blockwork.Bundle

/-- a program with its language -/
structure Program where
  language : Language
  source : String
  deriving DecidableEq

namespace Program

def digest (program : Program) : String :=
  Digest.md5 (Bytes.ofText program.source)

/-- what the manifest says about the program -/
def note (program : Program) : Json.Value :=
  .object [("language", .string program.language.name), ("md5", .string program.digest),
    ("name", .string program.language.programFile)]

end Program

def formatName : String := "blockgen-bundle"

def formatVersion : Nat := 1

def manifestFile : String := "manifest.json"

/-- the manifest of programs made from a workspace of `topBlocks` blocks -/
def manifest (topBlocks : Nat) (programs : List Program) : Json.Value :=
  .object [("files", .array (programs.map Program.note)), ("format", .string formatName),
    ("top_blocks", .ofNat topBlocks), ("version", .ofNat formatVersion)]

end Blockwork.Bundle
