/-
Archives of named files. An archive is a row of entries, each behind a header of its own, then a directory
that lists them, then an end record that says where the directory is. Each entry is packed with a method of
its own, and has a checksum of its content.
-/
import Blockwork.Archive.Checksum
import Blockwork.Archive.Inflate

namespace Blockwork

namespace Archive

/-- how the data of an entry is packed -/
inductive Method
  | stored
  | deflated
  | unknown (code : Nat)
  deriving DecidableEq

namespace Method

def ofCode : Nat → Method
  | 0 => stored
  | 8 => deflated
  | code => unknown code

/-- data unpacked; none for data that is not in the format -/
def unpack? (method : Method) (data : Bytes) : Option Bytes :=
  match method with
  | stored => some data
  | deflated => inflate? data
  | unknown _ => none

end Method

/-- what a name gives in an archive -/
inductive Found
  | absent
  | damaged
  | content (bytes : Bytes)
  deriving DecidableEq

/-- a file in an archive, with its data as packed -/
structure Entry where
  name : String
  method : Method
  encrypted : Bool
  sum : UInt32
  /-- the length of the content, as the header gives it -/
  size : Nat
  data : Bytes
  deriving DecidableEq

namespace Entry

/-- whether the entry can be opened at all -/
def opens (entry : Entry) : Bool :=
  !entry.encrypted &&
    match entry.method with
    | .unknown _ => false
    | .stored => true
    | .deflated => true

/-- the content, if the data unpacks to what the checksum was taken of -/
def content? (entry : Entry) : Option Bytes :=
  (entry.method.unpack? entry.data).filter fun content => checksum content == entry.sum

/-- what the entry gives; one that cannot be opened counts as absent -/
def found (entry : Entry) : Found :=
  if entry.opens then
    match entry.content? with
    | some bytes => .content bytes
    | none => .damaged
  else .absent

end Entry

end Archive

/-- an archive: its entries in order -/
structure Archive where
  entries : List Archive.Entry
  deriving DecidableEq

namespace Archive

def files (archive : Archive) : List (String × Found) :=
  archive.entries.map fun entry => (entry.name, entry.found)

/-- what a name gives; the last entry of that name counts -/
def find (archive : Archive) (name : String) : Found :=
  match archive.entries.reverse.find? (·.name == name) with
  | none => .absent
  | some entry => entry.found

/-- the mark in front of an entry -/
def localMark : Bytes := [0x50, 0x4B, 3, 4]

/-- the mark in front of a line of the directory -/
def directoryMark : Bytes := [0x50, 0x4B, 1, 2]

def endMark : Bytes := [0x50, 0x4B, 5, 6]

end Archive

end Blockwork
