/-
JSON values and their layout: a member or an item on every line, two blanks deeper at every level.
Numbers are kept as numerals, so that a value says what was written and not how it is rounded.
-/
import Blockwork.Number.Numeral

namespace Blockwork.Json

/-- a JSON value; the members of an object are in the order in which they are written -/
inductive Value
  | null
  | bool (b : Bool)
  | number (numeral : Numeral)
  | string (text : String)
  | array (items : List Value)
  | object (members : List (String × Value))

namespace Value

def ofNat (n : Nat) : Value :=
  number { negative := false, whole := Nat.toDigits 10 n, fraction := [], exponentNegative := false, exponent := [] }

/-- the member of an object with the given name; of several the last one counts, and a value that is no
object has none -/
def member? (value : Value) (name : String) : Option Value :=
  match value with
  | object members => members.reverse.lookup name
  | _ => none

def text? : Value → Option String
  | string text => some text
  | _ => none

/-- the number written by digits alone, if it is below 2^64 -/
def natural? : Value → Option Nat
  | number n =>
    if !n.negative && n.fraction.isEmpty && n.exponent.isEmpty then
      (some (Text.readDigits n.whole)).filter (· < twoTo 64)
    else none
  | _ => none

def items? : Value → Option (List Value)
  | array items => some items
  | _ => none

end Value

/-- how a character is written inside a string -/
def escapeChar (c : Char) : List Char :=
  match c with
  | '"' => ['\\', '"']
  | '\\' => ['\\', '\\']
  | '\x08' => ['\\', 'b']
  | '\x0c' => ['\\', 'f']
  | '\n' => ['\\', 'n']
  | '\r' => ['\\', 'r']
  | '\t' => ['\\', 't']
  | c =>
    if c.toNat < 0x20 then ['\\', 'u', '0', '0', Text.hexDigit (c.toNat / 16), Text.hexDigit (c.toNat % 16)]
    else [c]

def quote (text : String) : List Char :=
  '"' :: (text.toList.flatMap escapeChar ++ ['"'])

def renderNumeral (n : Numeral) : List Char :=
  (if n.negative then ['-'] else []) ++ n.whole ++
    (if n.fraction.isEmpty then [] else '.' :: n.fraction) ++
    (if n.exponent.isEmpty then [] else 'e' :: ((if n.exponentNegative then ['-'] else []) ++ n.exponent))

def newLine (level : Nat) : List Char :=
  '\n' :: List.replicate (2 * level) ' '

mutual

def Value.render (level : Nat) : Value → List Char
  | .null => "null".toList
  | .bool b => (if b then "true" else "false").toList
  | .number n => renderNumeral n
  | .string text => quote text
  | .array [] => ['[', ']']
  | .array (first :: rest) =>
    '[' :: (newLine (level + 1) ++ first.render (level + 1) ++ Value.renderItems (level + 1) rest ++
      newLine level ++ [']'])
  | .object [] => ['\x7b', '\x7d']
  | .object ((name, first) :: rest) =>
    '\x7b' :: (newLine (level + 1) ++ quote name ++ [':', ' '] ++ first.render (level + 1) ++
      Value.renderMembers (level + 1) rest ++ newLine level ++ ['\x7d'])

/-- further items, each behind a comma -/
def Value.renderItems (level : Nat) : List Value → List Char
  | [] => []
  | item :: rest => ',' :: (newLine level ++ item.render level ++ Value.renderItems level rest)

/-- further members, each behind a comma -/
def Value.renderMembers (level : Nat) : List (String × Value) → List Char
  | [] => []
  | (name, value) :: rest =>
    ',' :: (newLine level ++ quote name ++ [':', ' '] ++ value.render level ++ Value.renderMembers level rest)

end

end Blockwork.Json
