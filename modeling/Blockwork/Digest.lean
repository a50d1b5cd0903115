/-
The digest by which a bundle vouches for its programs: MD5, written as thirty-two hexadecimal digits in
small letters.
-/
import Blockwork.Bytes
import Blockwork.Text.Digit

namespace Blockwork.Digest

structure State where
  a : UInt32
  b : UInt32
  c : UInt32
  d : UInt32
  deriving DecidableEq

def State.start : State := ⟨0x67452301, 0xEFCDAB89, 0x98BADCFE, 0x10325476⟩

/-- the constant of every step: the first 32 binary places of |sin (i + 1)| -/
def constants : List UInt32 := [
  0xD76AA478, 0xE8C7B756, 0x242070DB, 0xC1BDCEEE, 0xF57C0FAF, 0x4787C62A, 0xA8304613, 0xFD469501,
  0x698098D8, 0x8B44F7AF, 0xFFFF5BB1, 0x895CD7BE, 0x6B901122, 0xFD987193, 0xA679438E, 0x49B40821,
  0xF61E2562, 0xC040B340, 0x265E5A51, 0xE9B6C7AA, 0xD62F105D, 0x02441453, 0xD8A1E681, 0xE7D3FBC8,
  0x21E1CDE6, 0xC33707D6, 0xF4D50D87, 0x455A14ED, 0xA9E3E905, 0xFCEFA3F8, 0x676F02D9, 0x8D2A4C8A,
  0xFFFA3942, 0x8771F681, 0x6D9D6122, 0xFDE5380C, 0xA4BEEA44, 0x4BDECFA9, 0xF6BB4B60, 0xBEBFBC70,
  0x289B7EC6, 0xEAA127FA, 0xD4EF3085, 0x04881D05, 0xD9D4D039, 0xE6DB99E5, 0x1FA27CF8, 0xC4AC5665,
  0xF4292244, 0x432AFF97, 0xAB9423A7, 0xFC93A039, 0x655B59C3, 0x8F0CCC92, 0xFFEFF47D, 0x85845DD1,
  0x6FA87E4F, 0xFE2CE6E0, 0xA3014314, 0x4E0811A1, 0xF7537E82, 0xBD3AF235, 0x2AD7D2BB, 0xEB86D391]

/-- how far a step turns its word; four amounts take turns in each round of sixteen steps -/
def turns (step : Nat) : UInt32 :=
  match step / 16, step % 4 with
  | 0, 0 => 7
  | 0, 1 => 12
  | 0, 2 => 17
  | 0, _ => 22
  | 1, 0 => 5
  | 1, 1 => 9
  | 1, 2 => 14
  | 1, _ => 20
  | 2, 0 => 4
  | 2, 1 => 11
  | 2, 2 => 16
  | 2, _ => 23
  | _, 0 => 6
  | _, 1 => 10
  | _, 2 => 15
  | _, _ => 21

/-- the word of the chunk that a step takes in -/
def wordIndex (step : Nat) : Nat :=
  match step / 16 with
  | 0 => step
  | 1 => (5 * step + 1) % 16
  | 2 => (3 * step + 5) % 16
  | _ => 7 * step % 16

/-- the mixture of three words in the round of a step -/
def mixture (step : Nat) (b c d : UInt32) : UInt32 :=
  match step / 16 with
  | 0 => (b &&& c) ||| (~~~b &&& d)
  | 1 => (d &&& b) ||| (~~~d &&& c)
  | 2 => b ^^^ c ^^^ d
  | _ => c ^^^ (b ||| ~~~d)

def turnLeft (word amount : UInt32) : UInt32 :=
  (word <<< amount) ||| (word >>> (32 - amount))

/-- one step with its constant on a chunk of sixteen words -/
def State.step (chunk : List UInt32) (s : State) (indexed : UInt32 × Nat) : State :=
  let (constant, i) := indexed
  let sum := s.a + mixture i s.b s.c s.d + constant + chunk.getD (wordIndex i) 0
  ⟨s.d, s.b + turnLeft sum (turns i), s.b, s.c⟩

def State.absorb (s : State) (chunk : List UInt32) : State :=
  let t := constants.zipIdx.foldl (State.step chunk) s
  ⟨s.a + t.a, s.b + t.b, s.c + t.c, s.d + t.d⟩

/-- bytes as words of four, lowest byte first -/
def words : Bytes → List UInt32
  | b0 :: b1 :: b2 :: b3 :: rest => UInt32.ofNat (Bytes.number [b0, b1, b2, b3]) :: words rest
  | _ => []

/-- bytes filled up to whole chunks: a one bit, zeros, and the length in bits -/
def padded (bytes : Bytes) : Bytes :=
  bytes ++ 0x80 :: List.replicate ((119 - bytes.length % 64) % 64) 0 ++ Bytes.ofNumber 8 (8 * bytes.length)

/-- the state after a row of words in chunks of sixteen, `count` chunks at most -/
def State.absorbAll : Nat → State → List UInt32 → State
  | 0, s, _ => s
  | count + 1, s, words =>
    if words.isEmpty then s else absorbAll count (s.absorb (words.take 16)) (words.drop 16)

def hex (bytes : Bytes) : List Char :=
  bytes.flatMap fun b => [Text.hexDigit (b.toNat / 16), Text.hexDigit (b.toNat % 16)]

def md5 (bytes : Bytes) : String :=
  let all := words (padded bytes)
  let s := State.absorbAll all.length .start all
  String.ofList (hex ([s.a, s.b, s.c, s.d].flatMap fun word => Bytes.ofNumber 4 word.toNat))

end Blockwork.Digest
