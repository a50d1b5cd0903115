/-
Rows of bytes: numbers of a fixed width with the lowest byte first, and text in UTF-8, read strictly or
with a replacement for what is not UTF-8.
-/
namespace Blockwork

/-- a row of bytes -/
abbrev Bytes := List UInt8

namespace Bytes

/-- the number that bytes spell, lowest byte first -/
def number : Bytes → Nat
  | [] => 0
  | b :: bs => b.toNat + 256 * number bs

/-- a number in a given count of bytes, lowest first; what does not fit is dropped -/
def ofNumber : Nat → Nat → Bytes
  | 0, _ => []
  | width + 1, n => UInt8.ofNat n :: ofNumber width (n / 256)

/-- the number in `width` bytes at a place, if the row is long enough -/
def numberAt? (bytes : Bytes) (place width : Nat) : Option Nat :=
  let field := (bytes.drop place).take width
  if field.length = width then some (number field) else none

/-- `length` bytes at a place, if the row is long enough -/
def slice? (bytes : Bytes) (place length : Nat) : Option Bytes :=
  let part := (bytes.drop place).take length
  if part.length = length then some part else none

/-- the places at which a row occurs, counted from `place`, in ascending order -/
def placesFrom (needle : Bytes) (place : Nat) : Bytes → List Nat
  | [] => []
  | b :: bs =>
    if needle.isPrefixOf (b :: bs) then place :: placesFrom needle (place + 1) bs
    else placesFrom needle (place + 1) bs

def places (needle bytes : Bytes) : List Nat :=
  placesFrom needle 0 bytes

def ofText (text : String) : Bytes :=
  text.toUTF8.data.toList

def text? (bytes : Bytes) : Option String :=
  String.fromUTF8? ⟨bytes.toArray⟩

/-- a row cut behind `length` bytes, if it is long enough -/
def split? (bytes : Bytes) (length : Nat) : Option (Bytes × Bytes) :=
  if length ≤ bytes.length then some (bytes.take length, bytes.drop length) else none

/-- a character begun but not complete: its bits so far, how many bytes are to come, and the bounds of
the next one -/
structure Begun where
  bits : Nat
  missing : Nat
  low : UInt8
  high : UInt8
  deriving DecidableEq

/-- the character that stands for bytes that are not UTF-8 -/
def replacement : Char := '\uFFFD'

/-- the first byte of a character: the character if it is complete, or what is begun -/
def startChar (b : UInt8) : List Char × Option Begun :=
  if b < 0x80 then ([Char.ofNat b.toNat], none)
  else if b < 0xC2 then ([replacement], none)
  else if b < 0xE0 then ([], some ⟨b.toNat - 0xC0, 1, 0x80, 0xBF⟩)
  else if b < 0xF0 then
    ([], some ⟨b.toNat - 0xE0, 2, if b = 0xE0 then 0xA0 else 0x80, if b = 0xED then 0x9F else 0xBF⟩)
  else if b < 0xF5 then
    ([], some ⟨b.toNat - 0xF0, 3, if b = 0xF0 then 0x90 else 0x80, if b = 0xF4 then 0x8F else 0xBF⟩)
  else ([replacement], none)

/-- one more byte, and the characters it completes; a byte that does not go on with what is begun ends
it and begins another character -/
def nextChar (state : Option Begun) (b : UInt8) : List Char × Option Begun :=
  match state with
  | none => startChar b
  | some begun =>
    if begun.low ≤ b && b ≤ begun.high then
      let bits := begun.bits * 64 + (b.toNat - 0x80)
      if begun.missing ≤ 1 then ([Char.ofNat bits], none)
      else ([], some ⟨bits, begun.missing - 1, 0x80, 0xBF⟩)
    else
      let (chars, state) := startChar b
      (replacement :: chars, state)

/-- the characters of bytes behind the start of a character -/
def lossyFrom (state : Option Begun) : Bytes → List Char
  | [] => if state.isSome then [replacement] else []
  | b :: bs =>
    let (chars, state) := nextChar state b
    chars ++ lossyFrom state bs

/-- the text that bytes code for, with a replacement for each longest start of a character that is not
completed -/
def lossyText (bytes : Bytes) : String :=
  String.ofList (lossyFrom none bytes)

end Bytes

end Blockwork
