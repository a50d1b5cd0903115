/-
Decimal notation of binary64 numbers. Reading rounds the exact decimal to the nearest number; writing
chooses the fewest digits that read back to the same number, the nearer of two such choices, and of two
equally near ones the larger. The notation is always positional.
-/
import Blockwork.Number.Binary64

namespace Blockwork.Decimal

def digitCount (n : Nat) : Nat :=
  (Nat.toDigits 10 n).length

/-- the number nearest to `digits · 10^exponent`. Far outside the range of binary64 the answer does not
depend on the digits, and the power of ten is not formed. -/
def read (negative : Bool) (digits : Nat) (exponent : Int) : Binary64 :=
  let top := (digitCount digits : Int) + exponent
  if digits = 0 then .zero negative
  else if top > 310 then .infinite negative
  else if top < -330 then .zero negative
  else if exponent < 0 then .round negative digits (tenTo (-exponent).toNat)
  else .round negative (digits * tenTo exponent.toNat) 1

/-- a decimal: a whole number of units of a power of ten -/
structure Digits where
  digits : Nat
  exponent : Int
  deriving DecidableEq

/-- whether a decimal reads back to the positive number `m · 2^p` units -/
def readsBack (m p : Nat) (d : Digits) : Bool :=
  read false d.digits d.exponent == .finite false m p

/-- the decimal next to a positive number on the grid of multiples of `10^exponent` that reads back to
it: the nearer neighbour when both do, the upper one when they are equally near -/
def onGrid? (m p : Nat) (exponent : Int) : Option Digits :=
  let num := Binary64.units m p * tenTo (-exponent).toNat
  let den := twoTo 1074 * tenTo exponent.toNat
  let low : Digits := ⟨num / den, exponent⟩
  let high : Digits := ⟨num / den + 1, exponent⟩
  match readsBack m p low, readsBack m p high with
  | true, true => if 2 * (num % den) < den then some low else some high
  | true, false => some low
  | false, true => some high
  | false, false => none

/-- how many digits a positive number has before the point; negative when zeros follow the point -/
def place (m p : Nat) : Int :=
  (digitCount (Binary64.units m p * tenTo 400 / twoTo 1074) : Int) - 400

/-- every digit of a positive number; a whole number has none after the point -/
def exact (m p : Nat) : Digits :=
  if Binary64.units m p % twoTo 1074 = 0 then ⟨Binary64.units m p / twoTo 1074, 0⟩
  else ⟨Binary64.units m p * Nat.pow 5 1074, -1074⟩

/-- the decimal with the fewest digits that reads back to a positive number: the coarsest grid with a
hit. Seventeen digits are enough; should none hit, all digits are written. -/
def shortest (m p : Nat) : Digits :=
  let top := place m p
  ((List.range 18).findSome? fun (count : Nat) => onGrid? m p (top - count)).getD (exact m p)

/-- a decimal in positional notation, without an exponent -/
def positional (d : Digits) : List Char :=
  let ds := Nat.toDigits 10 d.digits
  if d.exponent ≥ 0 then ds ++ List.replicate d.exponent.toNat '0'
  else
    let places := (-d.exponent).toNat
    if ds.length ≤ places then '0' :: '.' :: (List.replicate (places - ds.length) '0' ++ ds)
    else ds.take (ds.length - places) ++ '.' :: ds.drop (ds.length - places)

def render (m p : Nat) : List Char :=
  positional (shortest m p)

end Blockwork.Decimal
