/-
Binary64 numbers in exact arithmetic. A finite one is a significand times a power of two, counted in
units of the smallest positive number, 2^-1074, so that its magnitude is a natural number and every
comparison is one of naturals. `round` gives the number nearest to a quotient.
-/
import Blockwork.Number.Power

namespace Blockwork

/-- a binary64 number; `finite s m p` is ±m · 2^p units of 2^-1074 -/
inductive Binary64
  | nan
  | infinite (negative : Bool)
  | finite (negative : Bool) (significand scale : Nat)
  deriving DecidableEq

namespace Binary64

def ofBits (word : Nat) : Binary64 :=
  let negative := word / twoTo 63 % 2 == 1
  let field := word / twoTo 52 % twoTo 11
  let fraction := word % twoTo 52
  if field = 2047 then (if fraction = 0 then .infinite negative else .nan)
  else if field = 0 then .finite negative fraction 0
  else .finite negative (twoTo 52 + fraction) (field - 1)

/-- the bit pattern of a number; every undefined number has the same one -/
def toBits : Binary64 → Nat
  | nan => 0x7FF8000000000000
  | infinite negative => (if negative then twoTo 63 else 0) + 2047 * twoTo 52
  | finite negative m p =>
    (if negative then twoTo 63 else 0) + if m < twoTo 52 then m else p * twoTo 52 + m

def zero (negative : Bool) : Binary64 := .finite negative 0 0

def bitLength (n : Nat) : Nat :=
  if n = 0 then 0 else n.log2 + 1

/-- a quotient rounded to a whole number, a half going to the even neighbour -/
def roundHalfEven (num den : Nat) : Nat :=
  let q := num / den
  let twice := 2 * (num % den)
  if twice > den || (twice == den && q % 2 == 1) then q + 1 else q

/-- the number nearest to `num / den`, a half going to the even significand; beyond the largest finite
number it is infinite -/
def round (negative : Bool) (num den : Nat) : Binary64 :=
  let units := num * twoTo 1074
  let p := bitLength (units / den) - 53
  let m := roundHalfEven units (den * twoTo p)
  let (m, p) := if m = twoTo 53 then (twoTo 52, p + 1) else (m, p)
  if p > 2045 then .infinite negative else .finite negative m p

/-- the magnitude in units of 2^-1074 -/
def units (m p : Nat) : Nat := m * twoTo p

/-- the signed value in units of 2^-1074, of a finite number -/
def value? : Binary64 → Option Int
  | nan => none
  | infinite _ => none
  | finite negative m p => some (if negative then -(units m p : Int) else units m p)

/-- the order of numbers; an undefined number is comparable to none -/
def le : Binary64 → Binary64 → Bool
  | nan, _ => false
  | _, nan => false
  | infinite true, _ => true
  | _, infinite false => true
  | infinite false, _ => false
  | _, infinite true => false
  | x, y =>
    match x.value?, y.value? with
    | some a, some b => a ≤ b
    | _, _ => false

def isZero (x : Binary64) : Bool :=
  x.value? == some 0

def isFinite : Binary64 → Bool
  | nan => false
  | infinite _ => false
  | finite _ _ _ => true

/-- the product of two finite numbers, rounded; of any others it is not formed -/
def product : Binary64 → Binary64 → Binary64
  | finite s m p, finite t n q => round (s != t) (units m p * units n q) (twoTo 2148)
  | _, _ => nan

def isWhole : Binary64 → Bool
  | finite _ m p => units m p % twoTo 1074 == 0
  | _ => false

/-- whether a number's magnitude is at least a given natural number -/
def magnitudeAtLeast (bound : Nat) : Binary64 → Bool
  | nan => false
  | infinite _ => true
  | finite _ m p => bound * twoTo 1074 ≤ units m p

end Binary64

end Blockwork
