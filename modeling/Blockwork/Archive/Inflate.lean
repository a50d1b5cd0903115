/-
Unpacking of DEFLATE data: a row of blocks, each stored as it is or written in two prefix codes, one for
bytes and copy lengths and one for copy distances. Data that ends early unpacks to what was written until
then; the checksum of the entry tells whether something is missing.
-/
import Blockwork.Archive.PrefixCode
import Blockwork.Bytes

namespace Blockwork.Archive

/-- the bits of bytes in the order in which they are read, lowest first -/
def bitsOf (bytes : Bytes) : List Bool :=
  bytes.flatMap fun b => (List.range 8).map b.toNat.testBit

/-- why unpacking stops before the end of a block -/
inductive Halt
  /-- the data ends -/
  | ended
  /-- the data is not in the format -/
  | corrupt
  deriving DecidableEq

/-- what reading gives: a value and the bits behind it, or why there is none -/
abbrev Bits (α : Type) := List Bool → Except Halt (α × List Bool)

namespace Bits

/-- a number in a given count of bits, lowest first -/
def number : Nat → Bits Nat
  | 0, bits => .ok (0, bits)
  | _ + 1, [] => .error .ended
  | width + 1, b :: bits => do
    let (high, bits) ← number width bits
    pure (b.toNat + 2 * high, bits)

def symbol (code : PrefixCode) : Bits Nat := fun bits =>
  match code.decode? bits with
  | none => .error .ended
  | some (none, _) => .error .corrupt
  | some (some value, bits) => .ok (value, bits)

end Bits

namespace Inflate

/-- the shortest copy length of a length symbol counted from 257, and how many bits are added to it -/
def lengthSteps : List (Nat × Nat) :=
  [(3, 0), (4, 0), (5, 0), (6, 0), (7, 0), (8, 0), (9, 0), (10, 0), (11, 1), (13, 1), (15, 1), (17, 1),
   (19, 2), (23, 2), (27, 2), (31, 2), (35, 3), (43, 3), (51, 3), (59, 3), (67, 4), (83, 4), (99, 4),
   (115, 4), (131, 5), (163, 5), (195, 5), (227, 5), (258, 0)]

/-- the shortest distance of a distance symbol, and how many bits are added to it -/
def distanceSteps : List (Nat × Nat) :=
  [(1, 0), (2, 0), (3, 0), (4, 0), (5, 1), (7, 1), (9, 2), (13, 2), (17, 3), (25, 3), (33, 4), (49, 4),
   (65, 5), (97, 5), (129, 6), (193, 6), (257, 7), (385, 7), (513, 8), (769, 8), (1025, 9), (1537, 9),
   (2049, 10), (3073, 10), (4097, 11), (6145, 11), (8193, 12), (12289, 12), (16385, 13), (24577, 13)]

/-- a number given by a step and the bits behind its symbol -/
def stepped (steps : List (Nat × Nat)) (index : Nat) : Bits Nat := fun bits =>
  match steps[index]? with
  | none => .error .corrupt
  | some (base, extra) => do
    let (more, bits) ← Bits.number extra bits
    pure (base + more, bits)

/-- the output with `length` bytes from `distance` before its end repeated -/
def copy (distance : Nat) : Nat → Array UInt8 → Array UInt8
  | 0, out => out
  | length + 1, out => copy distance length (out.push (out.getD (out.size - distance) 0))

/-- the output after a coded block, and the bits behind it. Every symbol takes a bit at least, so there
are not more of them than `fuel`, the count of bits. -/
def coded (symbols distances : PrefixCode) : Nat → List Bool → Array UInt8 → Array UInt8 × Except Halt (List Bool)
  | 0, _, out => (out, .error .ended)
  | fuel + 1, bits, out =>
    match Bits.symbol symbols bits with
    | .error halt => (out, .error halt)
    | .ok (value, bits) =>
      if value < 256 then coded symbols distances fuel bits (out.push (UInt8.ofNat value))
      else if value = 256 then (out, .ok bits)
      else
        let pair : Except Halt ((Nat × Nat) × List Bool) := do
          let (length, bits) ← stepped lengthSteps (value - 257) bits
          let (step, bits) ← Bits.symbol distances bits
          let (distance, bits) ← stepped distanceSteps step bits
          if distance ≤ out.size then pure ((length, distance), bits) else .error .corrupt
        match pair with
        | .error halt => (out, .error halt)
        | .ok ((length, distance), bits) => coded symbols distances fuel bits (copy distance length out)

/-- the code of bytes and lengths that a block may use without writing it down -/
def fixedSymbols : List Nat :=
  List.replicate 144 8 ++ List.replicate 112 9 ++ List.replicate 24 7 ++ List.replicate 8 8

def fixedDistances : List Nat := List.replicate 32 5

/-- the order in which the lengths of the code for lengths are written -/
def lengthOrder : List Nat :=
  [16, 17, 18, 0, 8, 7, 9, 6, 10, 5, 11, 4, 12, 3, 13, 2, 14, 1, 15]

def numbers (width : Nat) : Nat → Bits (List Nat)
  | 0, bits => .ok ([], bits)
  | count + 1, bits => do
    let (n, bits) ← Bits.number width bits
    let (rest, bits) ← numbers width count bits
    pure (n :: rest, bits)

/-- `count` word lengths in a code for lengths, behind those already read, which are kept last one
first. Three symbols repeat the last length or zero. Each step adds a length at least, so `fuel` is
the count. -/
def wordLengths (code : PrefixCode) (count : Nat) : Nat → List Nat → Bits (List Nat)
  | 0, done, bits => if done.length = count then .ok (done.reverse, bits) else .error .corrupt
  | fuel + 1, done, bits =>
    if done.length = count then .ok (done.reverse, bits)
    else if count < done.length then .error .corrupt
    else do
      let (value, bits) ← Bits.symbol code bits
      if value < 16 then wordLengths code count fuel (value :: done) bits
      else if value = 16 then
        match done with
        | [] => .error .corrupt
        | last :: _ => do
          let (more, bits) ← Bits.number 2 bits
          wordLengths code count fuel (List.replicate (3 + more) last ++ done) bits
      else if value = 17 then do
        let (more, bits) ← Bits.number 3 bits
        wordLengths code count fuel (List.replicate (3 + more) 0 ++ done) bits
      else do
        let (more, bits) ← Bits.number 7 bits
        wordLengths code count fuel (List.replicate (11 + more) 0 ++ done) bits

/-- the code of word lengths; lengths that belong to none are corrupt -/
def codeOf (lengths : List Nat) : Except Halt PrefixCode :=
  match PrefixCode.ofLengths? lengths with
  | some code => .ok code
  | none => .error .corrupt

/-- the two codes that a block starts with -/
def writtenCodes : Bits (PrefixCode × PrefixCode) := fun bits => do
  let (symbolCount, bits) ← Bits.number 5 bits
  let (distanceCount, bits) ← Bits.number 5 bits
  let (orderCount, bits) ← Bits.number 4 bits
  let (ordered, bits) ← numbers 3 (orderCount + 4) bits
  let lengthCode ← codeOf ((List.range 19).map fun i => ordered.getD (lengthOrder.idxOf i) 0)
  let count := symbolCount + 257 + (distanceCount + 1)
  let (lengths, bits) ← wordLengths lengthCode count count [] bits
  let symbols ← codeOf (lengths.take (symbolCount + 257))
  let distances ← codeOf (lengths.drop (symbolCount + 257))
  pure ((symbols, distances), bits)

/-- the two codes that need not be written -/
def fixedCodes : Except Halt (PrefixCode × PrefixCode) := do
  pure (← codeOf fixedSymbols, ← codeOf fixedDistances)

/-- the output after `count` bytes that are stored as they are -/
def storedBytes : Nat → List Bool → Array UInt8 → Array UInt8 × Except Halt (List Bool)
  | 0, bits, out => (out, .ok bits)
  | count + 1, bits, out =>
    match Bits.number 8 bits with
    | .error halt => (out, .error halt)
    | .ok (b, bits) => storedBytes count bits (out.push (UInt8.ofNat b))

/-- the output after a stored block: the bits up to the next whole byte are passed over, then come the
length, its complement and the bytes -/
def stored (bits : List Bool) (out : Array UInt8) : Array UInt8 × Except Halt (List Bool) :=
  let header : Except Halt (Nat × List Bool) := do
    let (length, bits) ← Bits.number 16 (bits.drop (bits.length % 8))
    let (complement, bits) ← Bits.number 16 bits
    if length + complement = 0xFFFF then pure (length, bits) else .error .corrupt
  match header with
  | .error halt => (out, .error halt)
  | .ok (length, bits) => storedBytes length bits out

def codedBlock (codes : Except Halt ((PrefixCode × PrefixCode) × List Bool)) (out : Array UInt8) :
    Array UInt8 × Except Halt (List Bool) :=
  match codes with
  | .error halt => (out, .error halt)
  | .ok ((symbols, distances), bits) => coded symbols distances bits.length bits out

/-- the output after one block, whether it was the last one, and the bits behind it -/
def block (bits : List Bool) (out : Array UInt8) : Array UInt8 × Except Halt (Bool × List Bool) :=
  let header : Except Halt (Bool × Nat × List Bool) := do
    let (last, bits) ← Bits.number 1 bits
    let (type, bits) ← Bits.number 2 bits
    pure (last == 1, type, bits)
  match header with
  | .error halt => (out, .error halt)
  | .ok (last, type, bits) =>
    let (out, rest) :=
      match type with
      | 0 => stored bits out
      | 1 => codedBlock (fixedCodes.map (·, bits)) out
      | 2 => codedBlock (writtenCodes bits) out
      | _ => (out, .error .corrupt)
    (out, rest.map (last, ·))

/-- the output of all blocks; every block takes a bit at least, so there are not more of them than
`fuel`, the count of bits -/
def blocks : Nat → List Bool → Array UInt8 → Option (Array UInt8)
  | 0, _, out => some out
  | fuel + 1, bits, out =>
    match block bits out with
    | (out, .ok (true, _)) => some out
    | (out, .ok (false, bits)) => blocks fuel bits out
    | (out, .error .ended) => some out
    | (_, .error .corrupt) => none

end Inflate

/-- the bytes that DEFLATE data unpacks to; none when the data is not in the format -/
def inflate? (data : Bytes) : Option Bytes :=
  let bits := bitsOf data
  (Inflate.blocks bits.length bits #[]).map Array.toList

end Blockwork.Archive
