/-
Reading a bundle back. The manifest comes first; then every file it lists is looked up in the order of the
list and its text is compared with the digest. The first fault ends the reading.
-/
import Blockwork.Archive.Read
import Blockwork.Bundle.Manifest
import Blockwork.Json.Read

namespace Blockwork

inductive BundleError
  | notArchive
  /-- a file is not in the archive -/
  | missing (file : String)
  /-- a file is damaged or is not text -/
  | unreadable (file : String)
  | invalidManifest
  | wrongFormat (format : String)
  | wrongVersion (version : Nat)
  | noFiles
  /-- the note of a file lacks a member -/
  | noMember (name : String)
  | unknownLanguage (name : String)
  /-- the text of a file is not the one the digest was taken of -/
  | mismatch (file expected actual : String)
  deriving DecidableEq

def BundleError.message : BundleError → String
  | notArchive => "Input is not a valid bundle archive."
  | missing file => "Missing '" ++ file ++ "' in bundle."
  | unreadable file => "Failed reading '" ++ file ++ "' from bundle."
  | invalidManifest => "Invalid manifest.json in bundle."
  | wrongFormat format => "Invalid bundle format '" ++ format ++ "'."
  | wrongVersion version =>
    "Unsupported bundle version " ++ toString version ++ " (expected " ++ toString Bundle.formatVersion ++ ")."
  | noFiles => "manifest.json is missing 'files' array."
  | noMember name => "Bundle file entry missing '" ++ name ++ "'."
  | unknownLanguage name => Language.unknownName name
  | mismatch file expected actual =>
    "Digest mismatch for '" ++ file ++ "': manifest has " ++ expected ++ ", content hashes to " ++ actual ++ "."

namespace Bundle

open Archive (Found)

def fileText (find : String → Found) (file : String) : Except BundleError String :=
  match find file with
  | .absent => .error (.missing file)
  | .damaged => .error (.unreadable file)
  | .content bytes =>
    match bytes.text? with
    | some text => .ok text
    | none => .error (.unreadable file)

def memberText (note : Json.Value) (name : String) : Except BundleError String :=
  match (note.member? name).bind Json.Value.text? with
  | some text => .ok text
  | none => .error (.noMember name)

def languageNamed (name : String) : Except BundleError Language :=
  match Language.ofName? name with
  | some language => .ok language
  | none => .error (.unknownLanguage name)

/-- the program that the note of a file stands for -/
def program (find : String → Found) (note : Json.Value) : Except BundleError Program := do
  let file ← memberText note "name"
  let language ← languageNamed (← memberText note "language")
  let expected ← memberText note "md5"
  let source ← fileText find file
  let program : Program := ⟨language, source⟩
  if program.digest = expected then pure program
  else .error (.mismatch file expected program.digest)

def programs (find : String → Found) : List Json.Value → Except BundleError (List Program)
  | [] => .ok []
  | note :: rest => do
    let first ← program find note
    let others ← programs find rest
    pure (first :: others)

/-- the notes of a manifest, if it is one of this format and version. A format that is no text counts as
empty, and a version that is no natural number as zero. -/
def notes (manifest : Json.Value) : Except BundleError (List Json.Value) :=
  let format := ((manifest.member? "format").bind Json.Value.text?).getD ""
  let version := ((manifest.member? "version").bind Json.Value.natural?).getD 0
  if format ≠ formatName then .error (.wrongFormat format)
  else if version ≠ formatVersion then .error (.wrongVersion version)
  else
    match (manifest.member? "files").bind Json.Value.items? with
    | some notes => .ok notes
    | none => .error .noFiles

/-- the programs of a bundle whose files are found by name -/
def read (find : String → Found) : Except BundleError (List Program) := do
  let text ← fileText find manifestFile
  match Json.read? text with
  | some manifest => programs find (← notes manifest)
  | none => .error .invalidManifest

def ofBytes (bytes : Bytes) : Except BundleError (List Program) :=
  match Archive.ofBytes? bytes with
  | some archive => read archive.find
  | none => .error .notArchive

end Bundle

end Blockwork
