/-
How characters are coded as bytes, and the names of the codes.
-/
namespace Blockwork.Markup

inductive Encoding
  | utf8
  | latin1
  | utf16
  | ascii
  deriving DecidableEq

namespace Encoding

/-- whether a name agrees with a label in small letters, in capital or small letters, as far as both
of them go -/
def agrees (name : List Char) (label : String) : Bool :=
  (name.zip label.toList).all fun (c, l) => c.toLower = l

def ofName? (name : List Char) : Option Encoding :=
  if ["utf-8", "utf8"].any (agrees name) then some utf8
  else if ["iso-8859-1", "latin1"].any (agrees name) then some latin1
  else if ["utf-16", "utf16"].any (agrees name) then some utf16
  else if ["ascii", "us-ascii"].any (agrees name) then some ascii
  else none

/-- bytes as the characters with their numbers -/
def byteChars (bytes : List UInt8) : List Char :=
  bytes.map fun b => Char.ofNat b.toNat

def utf8Chars? (bytes : List UInt8) : Option (List Char) :=
  (String.fromUTF8? ⟨bytes.toArray⟩).map String.toList

def asciiChars? (bytes : List UInt8) : Option (List Char) :=
  if bytes.all (· < 128) then some (byteChars bytes) else none

/-- which byte of a unit of two bytes comes first -/
inductive Order
  | high
  | low
  deriving DecidableEq

/-- bytes taken together two by two, if their number is even -/
def units? (order : Order) : List UInt8 → Option (List Nat)
  | [] => some []
  | [_] => none
  | a :: b :: rest =>
    let unit := match order with
      | .high => a.toNat * 256 + b.toNat
      | .low => b.toNat * 256 + a.toNat
    (units? order rest).map (unit :: ·)

/-- the characters of UTF-16 units; two surrogates, a high and a low one, make up one character -/
def unitChars? : List Nat → Option (List Char)
  | [] => some []
  | u :: rest =>
    if u < 0xD800 || 0xE000 ≤ u then (unitChars? rest).map (Char.ofNat u :: ·)
    else
      match rest with
      | [] => none
      | v :: rest =>
        if u < 0xDC00 && 0xDC00 ≤ v && v < 0xE000 then
          (unitChars? rest).map (Char.ofNat (0x10000 + (u - 0xD800) * 0x400 + (v - 0xDC00)) :: ·)
        else none

def utf16Chars? (order : Order) (bytes : List UInt8) : Option (List Char) :=
  (units? order bytes).bind unitChars?

end Encoding

end Blockwork.Markup
