/-
Numbers inside text. `parsePrefix` reads the longest numeral a text starts with, as the user typed it;
`numericLiteral?` recognises a generated text that is nothing but a plain numeral. Digits of any script
make up a numeral, but only a numeral of ASCII digits has a value.
-/
import Blockwork.Number.Decimal
import Blockwork.Text.Blank
import Blockwork.Text.Digit

namespace Blockwork

/-- a numeral: sign, digits before and after the point, and the exponent part with its sign -/
structure Numeral where
  negative : Bool
  whole : List Char
  fraction : List Char
  exponentNegative : Bool
  exponent : List Char
  deriving DecidableEq

namespace Numeral

/-- the exponent a numeral scales by, before the digits after the point are counted -/
def scale (n : Numeral) : Int :=
  let e : Int := Text.readDigits n.exponent
  if n.exponentNegative then -e else e

/-- the value of a numeral; none when a digit is not an ASCII one -/
def value? (n : Numeral) : Option Binary64 :=
  if n.whole.all Char.isDigit && n.fraction.all Char.isDigit && n.exponent.all Char.isDigit then
    some (Decimal.read n.negative (Text.readDigits (n.whole ++ n.fraction)) (n.scale - n.fraction.length))
  else none

def leadingDigits (cs : List Char) : List Char :=
  cs.takeWhile Text.isDecimalDigit

def sign : List Char → Bool × List Char
  | '-' :: cs => (true, cs)
  | '+' :: cs => (false, cs)
  | cs => (false, cs)

/-- the exponent part at the start of a text: a mark, a sign or none, and at least one digit. Its
absence is written as no digits. -/
def exponentPart (cs : List Char) : Bool × List Char :=
  match cs with
  | c :: rest =>
    if c == 'e' || c == 'E' then
      let (negative, digits) := sign rest
      (negative, leadingDigits digits)
    else (false, [])
  | [] => (false, [])

/-- the unsigned numeral a text starts with: digits with an optional point and fraction, or a point and
a fraction, with an optional exponent part behind -/
def unsigned? (negative : Bool) (cs : List Char) : Option Numeral :=
  let whole := leadingDigits cs
  let rest := cs.drop whole.length
  match rest with
  | '.' :: afterPoint =>
    let fraction := leadingDigits afterPoint
    if whole.isEmpty && fraction.isEmpty then none
    else
      let (exponentNegative, exponent) := exponentPart (afterPoint.drop fraction.length)
      some { negative, whole, fraction, exponentNegative, exponent }
  | _ =>
    if whole.isEmpty then none
    else
      let (exponentNegative, exponent) := exponentPart rest
      some { negative, whole, fraction := [], exponentNegative, exponent }

end Numeral

namespace Binary64

/-- the number a text starts with, after white space: an optional sign and then `Infinity` or a numeral.
Whatever follows is ignored; a text that starts with no number is undefined. -/
def parsePrefix (text : String) : Binary64 :=
  let (negative, cs) := Numeral.sign (Text.trimStart text.toList)
  if "Infinity".toList.isPrefixOf cs then .infinite negative
  else ((Numeral.unsigned? negative cs).bind Numeral.value?).getD .nan

end Binary64

/-- the value of a text that is a plain numeral and nothing else: an optional minus sign, digits, and
optionally a point with more digits -/
def numericLiteral? (text : String) : Option Binary64 :=
  let (negative, cs) :=
    match text.toList with
    | '-' :: cs => (true, cs)
    | cs => (false, cs)
  let whole := Numeral.leadingDigits cs
  let literal (fraction : List Char) : Numeral :=
    { negative, whole, fraction, exponentNegative := false, exponent := [] }
  if whole.isEmpty then none
  else
    match cs.drop whole.length with
    | [] => (literal []).value?
    | '.' :: fraction => if Text.isDigitRun fraction then (literal fraction).value? else none
    | _ => none

end Blockwork
