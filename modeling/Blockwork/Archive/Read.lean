/-
Reading archives. It starts at the end record, behind which a comment and anything else may follow; text in
front of the archive shifts all places by its length. An archive with more or larger parts than the end
record has room for has a wide one in front of it, and a locator between the two.
-/
import Blockwork.Archive.Basic
import Blockwork.Archive.Line

namespace Blockwork.Archive

/-- where a directory is, how many lines it has, and by how much the places of entries are shifted -/
structure Directory where
  place : Nat
  count : Nat
  shift : Nat
  deriving DecidableEq

/-- the data of an entry whose header is at a place, all of it in front of the directory -/
def data? (bytes : Bytes) (place directoryPlace size : Nat) : Option Bytes := do
  let mark ← bytes.slice? place 4
  let nameLength ← bytes.numberAt? (place + 26) 2
  let extraLength ← bytes.numberAt? (place + 28) 2
  let start := place + 30 + nameLength + extraLength
  if mark = localMark ∧ place < directoryPlace ∧ start ≤ directoryPlace then
    some ((bytes.drop start).take size)
  else none

def entry (line : Line) (data : Bytes) : Entry :=
  { name := line.name, method := .ofCode line.method, encrypted := line.encrypted || line.guarded,
    sum := UInt32.ofNat line.sum, size := line.size, data }

/-- `count` entries of a directory from a line at a place on -/
def entries? (bytes : Bytes) (directory : Directory) : Nat → Nat → Option (List Entry)
  | 0, _ => some []
  | count + 1, place => do
    let (line, next) ← Line.read? directoryMark bytes place
    let data ← data? bytes (directory.shift + line.offset) directory.place line.packedSize
    let rest ← entries? bytes directory count next
    some (entry line data :: rest)

def ofDirectory? (bytes : Bytes) (directory : Directory) : Option Archive :=
  (entries? bytes directory directory.count directory.place).map Archive.mk

/-- the places of a mark from one place on and in front of another -/
def placesBetween (mark bytes : Bytes) (low high : Nat) : List Nat :=
  (mark.places bytes).filter fun p => low ≤ p && p + mark.length ≤ high

/-! ## The end record -/

structure EndRecord where
  disk : Nat
  directoryDisk : Nat
  /-- lines of the directory on this disk, and on all of them -/
  count : Nat
  total : Nat
  offset : Nat
  deriving DecidableEq

namespace EndRecord

/-- the end record at a place, with a comment of the length it names behind it -/
def read? (bytes : Bytes) (place : Nat) : Option EndRecord := do
  let disk ← bytes.numberAt? (place + 4) 2
  let directoryDisk ← bytes.numberAt? (place + 6) 2
  let count ← bytes.numberAt? (place + 8) 2
  let total ← bytes.numberAt? (place + 10) 2
  let offset ← bytes.numberAt? (place + 16) 4
  let commentLength ← bytes.numberAt? (place + 20) 2
  let _ ← bytes.slice? (place + 22) commentLength
  some ⟨disk, directoryDisk, count, total, offset⟩

/-- the directory of an end record at a place: the first line of one that stands where the record says or
behind it, and in front of the record. An archive of nothing has none. -/
def directory? (e : EndRecord) (bytes : Bytes) (place : Nat) : Option Directory :=
  if e.disk ≠ e.directoryDisk then none
  else if e.total = 0 then some ⟨max place e.offset, e.count, place - e.offset⟩
  else (placesBetween directoryMark bytes e.offset place).head?.map fun start => ⟨start, e.count, start - e.offset⟩

/-- whether a wide record may stand for this one -/
def isFull (e : EndRecord) : Bool :=
  e.total = 0xFFFF || e.offset = wideNumber

end EndRecord

/-! ## The wide end record -/

/-- the mark in front of a wide end record -/
def wideMark : Bytes := [0x50, 0x4B, 6, 6]

/-- the mark in front of the locator of a wide end record -/
def locatorMark : Bytes := [0x50, 0x4B, 6, 7]

structure Locator where
  disk : Nat
  offset : Nat
  disks : Nat
  deriving DecidableEq

namespace Locator

def size : Nat := 20

def read? (bytes : Bytes) (place : Nat) : Option Locator := do
  if place < size then none
  else
    let start := place - size
    let mark ← bytes.slice? start 4
    let disk ← bytes.numberAt? (start + 4) 4
    let offset ← bytes.numberAt? (start + 8) 8
    let disks ← bytes.numberAt? (start + 16) 4
    if mark = locatorMark then some ⟨disk, offset, disks⟩ else none

end Locator

structure WideRecord where
  place : Nat
  length : Nat
  writer : Nat
  reader : Nat
  disk : Nat
  directoryDisk : Nat
  count : Nat
  total : Nat
  offset : Nat
  deriving DecidableEq

namespace WideRecord

def read? (bytes : Bytes) (place : Nat) : Option WideRecord := do
  let length ← bytes.numberAt? (place + 4) 8
  let writer ← bytes.numberAt? (place + 12) 2
  let reader ← bytes.numberAt? (place + 14) 2
  let disk ← bytes.numberAt? (place + 16) 4
  let directoryDisk ← bytes.numberAt? (place + 20) 4
  let count ← bytes.numberAt? (place + 24) 8
  let total ← bytes.numberAt? (place + 32) 8
  let offset ← bytes.numberAt? (place + 48) 8
  some ⟨place, length, writer, reader, disk, directoryDisk, count, total, offset⟩

/-- whether the record agrees with its locator, reaches up to it, and leaves room for the directory -/
def fits (w : WideRecord) (locator : Locator) (locatorPlace : Nat) : Bool :=
  44 ≤ w.length && w.place + w.length + 12 = locatorPlace && w.directoryDisk = locator.disk &&
    46 * w.total + w.offset ≤ w.place

/-- the directory of a record, if the record is sound -/
def directory? (w : WideRecord) (locator : Locator) : Option Directory :=
  let shift := w.place - locator.offset
  if w.count ≤ w.total ∧ w.reader ≤ w.writer ∧ w.disk = w.directoryDisk then
    some ⟨w.offset + shift, w.total, shift⟩
  else none

end WideRecord

/-- the directory that a locator in front of an end record at a place leads to: that of the first wide
record that fits -/
def Locator.directory? (locator : Locator) (bytes : Bytes) (place : Nat) : Option Directory := do
  let locatorPlace := place - Locator.size
  if locator.disks ≤ 1 then
    let records := (placesBetween wideMark bytes locator.offset locatorPlace).filterMap (WideRecord.read? bytes)
    let record ← records.find? fun w => w.fits locator locatorPlace
    record.directory? locator
  else none

def ofEndRecord? (bytes : Bytes) (place : Nat) : Option Archive := do
  let record ← EndRecord.read? bytes place
  let directory ←
    match if record.isFull then Locator.read? bytes place else none with
    | some locator => locator.directory? bytes place
    | none => record.directory? bytes place
  ofDirectory? bytes directory

/-- the archive that bytes hold; of several end records the last one that fits counts -/
def ofBytes? (bytes : Bytes) : Option Archive :=
  (endMark.places bytes).reverse.findSome? (ofEndRecord? bytes)

end Blockwork.Archive
