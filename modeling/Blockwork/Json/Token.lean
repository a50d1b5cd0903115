/-
JSON text as a row of tokens. Blanks between tokens are the four of JSON and no others. A text in which
some character starts no token has no row of tokens.
-/
import Blockwork.Json.Value

namespace Blockwork.Json

inductive Token
  | openArray
  | closeArray
  | openObject
  | closeObject
  | comma
  | colon
  | null
  | bool (b : Bool)
  | number (numeral : Numeral)
  | string (text : String)
  deriving DecidableEq

def isBlank (c : Char) : Bool :=
  c == ' ' || c == '\t' || c == '\n' || c == '\r'

/-! ## Strings -/

/-- a piece of a string: a character, or a number of sixteen bits from an escape -/
inductive Unit16
  | char (c : Char)
  | code (n : Nat)
  deriving DecidableEq

/-- the number of four hexadecimal digits -/
def hexCode? (a b c d : Char) : Option Nat := do
  pure (4096 * (← Text.hexValue? a) + 256 * (← Text.hexValue? b) + 16 * (← Text.hexValue? c) + (← Text.hexValue? d))

/-- the character that a one-letter escape stands for -/
def escaped? : Char → Option Char
  | '"' => some '"'
  | '\\' => some '\\'
  | '/' => some '/'
  | 'b' => some '\x08'
  | 'f' => some '\x0c'
  | 'n' => some '\n'
  | 'r' => some '\r'
  | 't' => some '\t'
  | _ => none

/-- the pieces of a string from behind its opening quote, and the text behind it; control characters may
not stand in it -/
def pieces? : List Char → Option (List Unit16 × List Char)
  | '"' :: rest => some ([], rest)
  | '\\' :: 'u' :: a :: b :: c :: d :: rest => do
    let code ← hexCode? a b c d
    let (pieces, rest) ← pieces? rest
    pure (.code code :: pieces, rest)
  | '\\' :: e :: rest => do
    let c ← escaped? e
    let (pieces, rest) ← pieces? rest
    pure (.char c :: pieces, rest)
  | c :: rest =>
    if c.toNat < 0x20 || c = '\\' then none
    else (pieces? rest).map fun (pieces, rest) => (.char c :: pieces, rest)
  | [] => none

/-- the first half of a pair of codes -/
def isHigh (n : Nat) : Bool := 0xD800 ≤ n && n < 0xDC00

/-- the second half of a pair of codes -/
def isLow (n : Nat) : Bool := 0xDC00 ≤ n && n < 0xE000

/-- the characters of pieces: two halves make one character, and a half does not stand alone -/
def charsOf? : List Unit16 → Option (List Char)
  | [] => some []
  | .char c :: rest => (charsOf? rest).map (c :: ·)
  | .code high :: .code low :: rest =>
    if isHigh high then
      if isLow low then
        (charsOf? rest).map (Char.ofNat (0x10000 + 0x400 * (high - 0xD800) + (low - 0xDC00)) :: ·)
      else none
    else if isLow high then none
    else (charsOf? (.code low :: rest)).map (Char.ofNat high :: ·)
  | .code n :: rest =>
    if isHigh n || isLow n then none else (charsOf? rest).map (Char.ofNat n :: ·)

def string? (cs : List Char) : Option (String × List Char) := do
  let (pieces, rest) ← pieces? cs
  let chars ← charsOf? pieces
  pure (String.ofList chars, rest)

/-! ## Numbers -/

def digits (cs : List Char) : List Char × List Char :=
  (cs.takeWhile Char.isDigit, cs.dropWhile Char.isDigit)

/-- the whole part of a number: one zero, or digits that start with none -/
def whole? (cs : List Char) : Option (List Char × List Char) :=
  match digits cs with
  | ([], _) => none
  | ('0' :: ds, rest) => some (['0'], ds ++ rest)
  | (ds, rest) => some (ds, rest)

/-- digits behind a point; none without one -/
def fraction? (cs : List Char) : Option (List Char × List Char) :=
  match cs with
  | '.' :: rest =>
    let (ds, rest) := digits rest
    if ds.isEmpty then none else some (ds, rest)
  | _ => some ([], cs)

/-- digits behind an exponent mark with an optional sign; none without one -/
def exponent? (cs : List Char) : Option (Bool × List Char × List Char) :=
  match cs with
  | [] => some (false, [], [])
  | c :: rest =>
    if c = 'e' || c = 'E' then
      let (negative, rest) := Numeral.sign rest
      let (ds, rest) := digits rest
      if ds.isEmpty then none else some (negative, ds, rest)
    else some (false, [], cs)

/-- a number with a digit behind it, if it stays below 2^64 -/
def longer? (n : Nat) (c : Char) : Option Nat :=
  let longer := 10 * n + (c.toNat - '0'.toNat)
  if longer < twoTo 64 then some longer else none

/-- a number with digits behind it as long as there is room for them, and how many had no room -/
def extend (n : Nat) : List Char → Nat × Nat
  | [] => (n, 0)
  | c :: cs =>
    match longer? n c with
    | some longer => extend longer cs
    | none => (n, cs.length + 1)

/-- the leading digits of a numeral, and the power of ten they are to be multiplied with. Where the whole
part has no room, the fraction goes on behind what there was room for. -/
def leading (n : Numeral) : Nat × Int :=
  let (whole, dropped) := extend 0 n.whole
  let (digits, left) := extend whole n.fraction
  (digits, n.scale + dropped - (n.fraction.length - left))

/-- whether a numeral is within the range of binary64: the leading digits times the power of ten, both
of them rounded first, are not infinite -/
def inRange (n : Numeral) : Bool :=
  let (digits, exponent) := leading n
  digits = 0 || exponent < 0 || (exponent ≤ 308 && (Binary64.product (.round false digits 1)
    (.round false (tenTo exponent.toNat) 1)).isFinite)

def number? (cs : List Char) : Option (Numeral × List Char) := do
  let (negative, cs) := match cs with
    | '-' :: cs => (true, cs)
    | cs => (false, cs)
  let (whole, cs) ← whole? cs
  let (fraction, cs) ← fraction? cs
  let (exponentNegative, exponent, cs) ← exponent? cs
  let numeral : Numeral := { negative, whole, fraction, exponentNegative, exponent }
  if inRange numeral then some (numeral, cs) else none

/-! ## Tokens -/

/-- text behind a word, if it starts with it -/
def afterWord? (word : String) (cs : List Char) : Option (List Char) :=
  if word.toList.isPrefixOf cs then some (cs.drop word.toList.length) else none

def token? (cs : List Char) : Option (Token × List Char) :=
  match cs with
  | [] => none
  | '[' :: rest => some (.openArray, rest)
  | ']' :: rest => some (.closeArray, rest)
  | '\x7b' :: rest => some (.openObject, rest)
  | '\x7d' :: rest => some (.closeObject, rest)
  | ',' :: rest => some (.comma, rest)
  | ':' :: rest => some (.colon, rest)
  | '"' :: rest => (string? rest).map fun (text, rest) => (.string text, rest)
  | 'n' :: rest => (afterWord? "ull" rest).map (.null, ·)
  | 't' :: rest => (afterWord? "rue" rest).map (.bool true, ·)
  | 'f' :: rest => (afterWord? "alse" rest).map (.bool false, ·)
  | cs => (number? cs).map fun (numeral, rest) => (.number numeral, rest)

/-- the tokens of a text, at most `fuel` of them -/
def tokensWithin : Nat → List Char → Option (List Token)
  | fuel, cs =>
    match cs.dropWhile isBlank, fuel with
    | [], _ => some []
    | _ :: _, 0 => none
    | c :: rest, fuel + 1 => do
      let (token, rest) ← token? (c :: rest)
      let tokens ← tokensWithin fuel rest
      pure (token :: tokens)

/-- the tokens of a text; every token takes a character at least, so there are not more of them than
characters -/
def tokens? (cs : List Char) : Option (List Token) :=
  tokensWithin cs.length cs

end Blockwork.Json
