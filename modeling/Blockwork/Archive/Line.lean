/-
A line of an archive's directory: what it says of an entry. Behind the numbers and the name there may be
extra fields, each with a kind and a length. Some of them replace what the line says: sizes and places that
need more than four bytes, a name in UTF-8, the method of an encrypted entry. A field that does not have the
form of its kind spoils the directory.
-/
import Blockwork.Archive.Checksum

namespace Blockwork.Archive

/-- what the directory says of an entry -/
structure Line where
  rawName : Bytes
  name : String
  comment : String
  method : Nat
  encrypted : Bool
  /-- whether a field says how the entry is encrypted -/
  guarded : Bool
  sum : Nat
  packedSize : Nat
  size : Nat
  offset : Nat
  deriving DecidableEq

/-- the characters of the bytes from 128 on in a name that is not in UTF-8 -/
def upperChars : List Char :=
  ("ÇüéâäàåçêëèïîìÄÅÉæÆôöòûùÿÖÜ¢£¥₧ƒáíóúñÑªº¿⌐¬½¼¡«»░▒▓│┤╡╢╖╕╣║╗╝╜╛┐" ++
    "└┴┬├─┼╞╟╚╔╩╦╠═╬╧╨╤╥╙╘╒╓╫╪┘┌█▄▌▐▀αßΓπΣσµτΦΘΩδ∞φε∩≡±≥≤⌠⌡÷≈°∙·√ⁿ²■\u00A0").toList

def textOf (utf8 : Bool) (raw : Bytes) : String :=
  if utf8 then raw.lossyText
  else String.ofList (raw.map fun b => if b < 128 then Char.ofNat b.toNat else upperChars.getD (b.toNat - 128) '?')

/-- the number that stands for one that needs more than four bytes -/
def wideNumber : Nat := 0xFFFFFFFF

namespace Line

/-- a number of eight bytes where it is needed, or else the number as it is -/
def widened? (needed : Bool) (n : Nat) (rest : Bytes) : Option (Nat × Bytes) :=
  if needed then (rest.split? 8).map fun (field, rest) => (field.number, rest) else some (n, rest)

/-- a field of wide numbers: the two sizes and the place, each where the line has none of its own, or all
of them when the field is long enough -/
def wide? (line : Line) (length : Nat) (rest : Bytes) : Option (Line × Bytes) := do
  let needed (n : Nat) : Bool := 24 ≤ length || n = wideNumber
  let (size, behind) ← widened? (needed line.size) line.size rest
  let (packedSize, behind) ← widened? (needed line.packedSize) line.packedSize behind
  let (offset, behind) ← widened? (needed line.offset) line.offset behind
  let used := rest.length - behind.length
  if used ≤ length then
    let (_, behind) ← behind.split? (length - used)
    some ({ line with size, packedSize, offset }, behind)
  else none

/-- a field of file times of one system: it has one form only -/
def systemTimes? (line : Line) (length : Nat) (rest : Bytes) : Option (Line × Bytes) := do
  let (field, behind) ← rest.split? 32
  if length = 32 ∧ (field.drop 4).take 4 = Bytes.ofNumber 2 1 ++ Bytes.ofNumber 2 24 then some (line, behind)
  else none

/-- a field of the ways of encryption: it names the method that is used under it -/
def guard? (line : Line) (length : Nat) (rest : Bytes) : Option (Line × Bytes) := do
  let (field, behind) ← rest.split? 7
  let version := Bytes.number (field.take 2)
  let strength := Bytes.number ((field.drop 4).take 1)
  if length = 7 ∧ (version = 1 ∨ version = 2) ∧ Bytes.number ((field.drop 2).take 2) = 0x4541 ∧
      1 ≤ strength ∧ strength ≤ 3 then
    some ({ line with method := Bytes.number (field.drop 5), guarded := true }, behind)
  else none

/-- a field of file times: its flags say which of them are given, but a field of five bytes has one -/
def times? (line : Line) (length : Nat) (rest : Bytes) : Option (Line × Bytes) := do
  let (flags, behind) ← rest.split? 1
  let bits := (List.range 8).filter flags.number.testBit
  if length = 5 then (behind.split? 4).map fun (_, behind) => (line, behind)
  else if length = 1 + 4 * bits.length then
    (behind.split? (4 * (bits.filter (· < 3)).length)).map fun (_, behind) => (line, behind)
  else none

/-- the text of a field that repeats another text in UTF-8; it holds a checksum of the other one -/
def repeated? (other : Bytes) (length : Nat) (rest : Bytes) : Option (String × Bytes) := do
  let (head, behind) ← rest.split? 5
  if 5 ≤ length ∧ Bytes.number (head.drop 1) = (checksum other).toNat then
    let (raw, behind) ← behind.split? (length - 5)
    (Bytes.text? raw).map fun text => (text, behind)
  else none

/-- one extra field, from behind its kind and length: the line it leads to and the bytes behind it -/
def field? (line : Line) (kind length : Nat) (rest : Bytes) : Option (Line × Bytes) :=
  match kind with
  | 0x0001 => line.wide? length rest
  | 0x000A => line.systemTimes? length rest
  | 0x9901 => line.guard? length rest
  | 0x5455 => line.times? length rest
  | 0x6375 =>
    (repeated? (Bytes.ofText line.comment) length rest).map fun (comment, behind) => ({ line with comment }, behind)
  | 0x7075 =>
    (repeated? line.rawName length rest).map fun (name, behind) =>
      ({ line with name, rawName := Bytes.ofText name }, behind)
  | _ => (rest.split? length).map fun (_, behind) => (line, behind)

/-- the line with its extra fields, at most `fuel` of them; a single byte at the end is no field -/
def fields? : Nat → Line → Bytes → Option Line
  | 0, line, _ => some line
  | fuel + 1, line, bytes =>
    if bytes.length < 2 then some line
    else do
      let kind ← bytes.numberAt? 0 2
      let length ← bytes.numberAt? 2 2
      let (line, rest) ← line.field? kind length (bytes.drop 4)
      fields? fuel line rest

def isSound (line : Line) : Bool :=
  line.method != 99 || line.guarded

def read? (mark bytes : Bytes) (place : Nat) : Option (Line × Nat) := do
  let start ← bytes.slice? place 4
  let flags ← bytes.numberAt? (place + 8) 2
  let method ← bytes.numberAt? (place + 10) 2
  let sum ← bytes.numberAt? (place + 16) 4
  let packedSize ← bytes.numberAt? (place + 20) 4
  let size ← bytes.numberAt? (place + 24) 4
  let nameLength ← bytes.numberAt? (place + 28) 2
  let extraLength ← bytes.numberAt? (place + 30) 2
  let commentLength ← bytes.numberAt? (place + 32) 2
  let offset ← bytes.numberAt? (place + 42) 4
  let rawName ← bytes.slice? (place + 46) nameLength
  let extra ← bytes.slice? (place + 46 + nameLength) extraLength
  let comment ← bytes.slice? (place + 46 + nameLength + extraLength) commentLength
  let utf8 := flags.testBit 11
  let line : Line :=
    { rawName, name := textOf utf8 rawName, comment := textOf utf8 comment, method,
      encrypted := flags.testBit 0, guarded := false, sum, packedSize, size, offset }
  let line ← fields? extra.length line extra
  if start = mark ∧ line.isSound then
    some (line, place + 46 + nameLength + extraLength + commentLength)
  else none

end Line

end Blockwork.Archive
