/-
Prefix codes of the DEFLATE format. A code is given by the length of every symbol's code word: shorter
words come first, words of one length in the order of their symbols, each the next binary number. It is
kept as a tree that decoding walks down bit by bit.
-/
import Blockwork.Number.Power

namespace Blockwork.Archive

/-- a prefix code as a tree: `off` and `on` are what follows a zero and a one -/
inductive PrefixCode
  | unused
  | symbol (value : Nat)
  | branch (off on : PrefixCode)

namespace PrefixCode

/-- the code with a word added; a word that runs into another one is not -/
def insert (value : Nat) : List Bool → PrefixCode → Option PrefixCode
  | [], unused => some (symbol value)
  | [], symbol _ => none
  | [], branch _ _ => none
  | _ :: _, symbol _ => none
  | b :: bs, unused =>
    (insert value bs unused).map fun child => if b then branch unused child else branch child unused
  | b :: bs, branch off on =>
    if b then (insert value bs on).map (branch off) else (insert value bs off).map fun child => branch child on

/-- whether every row of bits leads to a symbol -/
def complete : PrefixCode → Bool
  | unused => false
  | symbol _ => true
  | branch off on => off.complete && on.complete

/-- a number in a given count of binary digits, highest first -/
def word : Nat → Nat → List Bool
  | 0, _ => []
  | width + 1, n => n.testBit width :: word width n

def symbolsOfLength (lengths : List Nat) (length : Nat) : List Nat :=
  lengths.zipIdx.filterMap fun (l, i) => if l = length then some i else none

def insertRow (length : Nat) : Nat → List Nat → PrefixCode → Option PrefixCode
  | _, [], code => some code
  | first, value :: rest, code =>
    if first < twoTo length then (insert value (word length first) code).bind (insertRow length (first + 1) rest)
    else none

/-- add the words of all lengths from `length` on, `rows` lengths in all, starting at the number `first` -/
def insertRows (lengths : List Nat) : Nat → Nat → Nat → PrefixCode → Option PrefixCode
  | 0, _, _, code => some code
  | rows + 1, length, first, code =>
    let values := symbolsOfLength lengths length
    (insertRow length first values code).bind (insertRows lengths rows (length + 1) (2 * (first + values.length)))

/-- the code of the given word lengths, at most 15 each; a symbol of length zero has no word. Only a
code of one symbol or none may leave words unused. -/
def ofLengths? (lengths : List Nat) : Option PrefixCode := do
  let code ← insertRows lengths 15 1 0 unused
  if code.complete || (lengths.filter (0 < ·)).length ≤ 1 then some code else none

/-- the symbol whose word a row of bits starts with, and the bits behind it. There is no answer when
the bits end within a word; the inner value is missing when they start with no word. -/
def decode? : PrefixCode → List Bool → Option (Option Nat × List Bool)
  | unused, bits => some (none, bits)
  | symbol value, bits => some (some value, bits)
  | branch _ _, [] => none
  | branch off on, b :: bits => if b then on.decode? bits else off.decode? bits

end PrefixCode

end Blockwork.Archive
