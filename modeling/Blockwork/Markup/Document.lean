/-
Documents as characters and as bytes. A character leads to tokens, tokens to text that is read before the
next character; a bound on how often that may happen keeps entities that refer to each other from going on
without end. As bytes a document has an optional byte order mark, and an XML declaration may name the
encoding of what stands behind it.
-/
import Blockwork.Markup.Reader

namespace Blockwork.Markup

structure Machine where
  scanner : Scanner
  reader : Reader

namespace Machine

def start : Machine := ⟨.start, .start⟩

/-- take in one character, and give the text to be read before the next one -/
def step? (m : Machine) (c : Char) : Option (Machine × List Char) := do
  let (scanner, tokens) ← m.scanner.step? c
  let (reader, text) ← m.reader.run? tokens
  pure (⟨scanner, reader⟩, text)

/-- read the text of an entity; what it leads to in turn is read by `inner`, with the rest behind it -/
def expandWith (inner : Machine → List Char → Option Machine) (m : Machine) : List Char → Option Machine
  | [] => some m
  | c :: cs =>
    match m.step? c with
    | none => none
    | some (m, []) => expandWith inner m cs
    | some (m, text) => inner m (text ++ cs)

/-- read the text of an entity in which no more than `budget` references to entities are met, those in
their texts included -/
def expand : Nat → Machine → List Char → Option Machine
  | 0 => expandWith fun _ _ => none
  | budget + 1 => expandWith (expand budget)

/-- the number of references to entities that one reference may lead to -/
def budget : Nat := 9

def feed? (m : Machine) : List Char → Option Machine
  | [] => some m
  | c :: cs =>
    match m.step? c with
    | none => none
    | some (m, []) => m.feed? cs
    | some (m, text) =>
      match expand budget m text with
      | none => none
      | some m => m.feed? cs

/-- the tree of a document that is read to its end -/
def finish? (m : Machine) : Option Node :=
  if m.scanner.isDone then m.reader.finish? else none

end Machine

/-- what the first bytes of a document say about its encoding -/
inductive Mark
  | unmarked
  | utf8
  | utf16 (order : Encoding.Order)
  deriving DecidableEq

namespace Mark

/-- the byte order mark of a document and the bytes behind it -/
def split : List UInt8 → Mark × List UInt8
  | 0xEF :: 0xBB :: 0xBF :: rest => (utf8, rest)
  | 0xFE :: 0xFF :: rest => (utf16 .high, rest)
  | 0xFF :: 0xFE :: rest => (utf16 .low, rest)
  | bytes => (unmarked, bytes)

/-- whether a document may declare an encoding. A mark settles it, and units of two bytes cannot be read
without one. -/
def permits : Mark → Option Encoding → Bool
  | _, none => true
  | unmarked, some encoding => encoding != .utf16
  | utf8, some encoding => encoding == .utf8
  | utf16 _, some encoding => encoding == .utf16

end Mark

/-- the bytes through the first `?>`, where a declaration would end, and those behind it; `before` is
what came before, last byte first -/
def splitDeclaration (before : List UInt8) : List UInt8 → List UInt8 × List UInt8
  | 0x3F :: 0x3E :: rest => ((0x3E :: 0x3F :: before).reverse, rest)
  | b :: rest => splitDeclaration (b :: before) rest
  | [] => (before.reverse, [])

namespace Node

/-- the tree of a document whose characters are coded as single bytes or as UTF-8; the declaration is
read as UTF-8 -/
def ofDeclared? (mark : Mark) (bytes : List UInt8) : Option Node := do
  let (head, body) := splitDeclaration [] bytes
  let m ← Machine.start.feed? (← Encoding.utf8Chars? head)
  if mark.permits m.reader.encoding then
    let cs ← match m.reader.encoding with
      | some .latin1 => some (Encoding.byteChars body)
      | some .ascii => Encoding.asciiChars? body
      | _ => Encoding.utf8Chars? body
    (← m.feed? cs).finish?
  else none

def ofUnits? (order : Encoding.Order) (bytes : List UInt8) : Option Node := do
  let m ← Machine.start.feed? (← Encoding.utf16Chars? order bytes)
  if (Mark.utf16 order).permits m.reader.encoding then m.finish? else none

def ofBytes? (bytes : List UInt8) : Option Node :=
  match Mark.split bytes with
  | (.utf16 order, rest) => ofUnits? order rest
  | (mark, rest) => ofDeclared? mark rest

end Node

end Blockwork.Markup
