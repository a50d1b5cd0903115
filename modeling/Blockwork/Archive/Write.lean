/-
Writing archives. A file is packed as DEFLATE data in blocks that are stored as they are, which every reader
of the format takes. Only what the narrow form of the format has room for is written: names of ASCII
characters, fewer than 65535 files, and less than four gigabytes.
-/
import Blockwork.Archive.Basic
import Blockwork.Archive.Line

namespace Blockwork.Archive

/-! ## Packing -/

/-- a block of DEFLATE data that stores bytes as they are: whether it is the last one, how many bytes there are
and the complement of that, and the bytes -/
def storedBlock (last : Bool) (content : Bytes) : Bytes :=
  UInt8.ofNat last.toNat ::
    (Bytes.ofNumber 2 content.length ++ (Bytes.ofNumber 2 (0xFFFF - content.length) ++ content))

/-- bytes as DEFLATE data, in blocks of the greatest length and a last one -/
def deflate (content : Bytes) : Bytes :=
  if content.length ≤ 0xFFFF then storedBlock true content
  else storedBlock false (content.take 0xFFFF) ++ deflate (content.drop 0xFFFF)
termination_by content.length
decreasing_by
  rw [List.length_drop]
  omega

def Entry.pack (name : String) (content : Bytes) : Entry :=
  { name, method := .deflated, encrypted := false, sum := checksum content, size := content.length,
    data := deflate content }

/-! ## Layout -/

/-- numbers one after the other, each with its width -/
def fields (row : List (Nat × Nat)) : Bytes :=
  row.flatMap fun (width, n) => Bytes.ofNumber width n

def Method.code : Method → Nat
  | .stored => 0
  | .deflated => 8
  | .unknown code => code

/-- the flags of an entry: encryption, and that its name is in UTF-8 -/
def Entry.flags (entry : Entry) : Nat :=
  (if entry.encrypted then 1 else 0) + 0x800

/-- the numbers that the header of an entry and its line in the directory share: version, flags, method,
time, date, checksum, packed size, size, length of the name, length of extra fields -/
def Entry.common (entry : Entry) : Bytes :=
  fields [(2, 20), (2, entry.flags), (2, entry.method.code), (2, 0), (2, 0x21), (4, entry.sum.toNat),
    (4, entry.data.length), (4, entry.size), (2, (Bytes.ofText entry.name).length), (2, 0)]

/-- an entry with its header -/
def Entry.record (entry : Entry) : Bytes :=
  localMark ++ entry.common ++ Bytes.ofText entry.name ++ entry.data

/-- the line of an entry at the given place in the directory -/
def Entry.line (entry : Entry) (place : Nat) : Bytes :=
  directoryMark ++ fields [(2, 20)] ++ entry.common ++ fields [(2, 0), (2, 0), (2, 0), (4, 0), (4, place)] ++
    Bytes.ofText entry.name

/-- the directory of entries that stand one after the other from a place on -/
def directory : Nat → List Entry → Bytes
  | _, [] => []
  | place, entry :: rest => entry.line place ++ directory (place + entry.record.length) rest

def toBytes (archive : Archive) : Bytes :=
  let records := archive.entries.flatMap Entry.record
  let lines := directory 0 archive.entries
  records ++ lines ++ endMark ++
    fields [(2, 0), (2, 0), (2, archive.entries.length), (2, archive.entries.length), (4, lines.length),
      (4, records.length), (2, 0)]

/-! ## Room -/

/-- whether the header of an entry has room for what it says -/
def Entry.fits (entry : Entry) : Bool :=
  entry.name.toList.all (·.toNat < 128) && (Bytes.ofText entry.name).length < 0x10000 && entry.size < wideNumber

/-- whether the end record of an archive has room for what it says -/
def fits (archive : Archive) : Bool :=
  archive.entries.all Entry.fits && archive.entries.length < 0xFFFF && archive.toBytes.length < wideNumber

/-- named files as the bytes of an archive, if there is room for them -/
def write? (files : List (String × Bytes)) : Option Bytes :=
  let archive : Archive := ⟨files.map fun (name, content) => .pack name content⟩
  if archive.fits then some archive.toBytes else none

end Blockwork.Archive
