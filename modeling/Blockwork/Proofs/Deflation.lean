/-
Packed data unpacks to what it was packed from.

- `Bits.number_lowBits`: a number is read back from its lowest bits, and bytes are rows of such bits.
- `Inflate.block_storedBlock`: one block gives its bytes, and says whether it was the last.
- `inflate?_deflate`: block by block, all data is given back. The induction follows the cuts of the writer, and one step
  of the reader's bound goes to each block.
-/
import Blockwork.Archive.Write
import Mathlib.Tactic

namespace Blockwork.Archive

/-! ## Bits -/

def lowBits (width n : Nat) : List Bool :=
  (List.range width).map n.testBit

theorem length_lowBits (width n : Nat) : (lowBits width n).length = width := by
  rw [lowBits, List.length_map, List.length_range]

theorem lowBits_add (low high n : Nat) : lowBits (low + high) n = lowBits low n ++ lowBits high (n / 2 ^ low) := by
  rw [lowBits, List.range_add, List.map_append, List.map_map]
  congr 1
  refine List.map_congr_left fun i _ => ?_
  rw [Function.comp_apply, Nat.testBit_div_two_pow]
  congr 1
  omega

theorem lowBits_mod (width n : Nat) : lowBits width (n % 2 ^ width) = lowBits width n := by
  refine List.map_congr_left fun i hi => ?_
  simp [Nat.testBit_mod_two_pow, List.mem_range.1 hi]

/-- **A number is read from its lowest bits.** -/
theorem Bits.number_lowBits {width n : Nat} (h : n < 2 ^ width) (rest : List Bool) :
    Bits.number width (lowBits width n ++ rest) = .ok (n, rest) := by
  induction width generalizing n with
  | zero =>
    obtain rfl : n = 0 := by simpa using h
    rfl
  | succ width ih =>
    have hsplit : lowBits (width + 1) n = n.testBit 0 :: lowBits width (n / 2) := by
      rw [Nat.add_comm, lowBits_add]
      rfl
    have hhigh : n / 2 < 2 ^ width := by omega
    have hbit : (n.testBit 0).toNat = n % 2 := by rw [Nat.toNat_testBit, pow_zero, Nat.div_one]
    simp only [hsplit, List.cons_append, number, ih hhigh, bind, Except.bind, hbit, pure, Except.pure]
    rw [Nat.mod_add_div]

theorem bitsOf_cons (b : UInt8) (bytes : Bytes) : bitsOf (b :: bytes) = lowBits 8 b.toNat ++ bitsOf bytes := rfl

theorem bitsOf_append (bytes more : Bytes) : bitsOf (bytes ++ more) = bitsOf bytes ++ bitsOf more :=
  List.flatMap_append

theorem length_bitsOf (bytes : Bytes) : (bitsOf bytes).length = 8 * bytes.length := by
  induction bytes with
  | nil => rfl
  | cons b bytes ih =>
    rw [bitsOf_cons, List.length_append, length_lowBits, ih, List.length_cons]
    omega

theorem bitsOf_ofNumber (width n : Nat) : bitsOf (Bytes.ofNumber width n) = lowBits (8 * width) n := by
  induction width generalizing n with
  | zero => rfl
  | succ width ih =>
    rw [Bytes.ofNumber, bitsOf_cons, ih, UInt8.toNat_ofNat', lowBits_mod 8 n, Nat.mul_succ, Nat.add_comm, lowBits_add]
    rfl

/-! ## Blocks -/

namespace Inflate

theorem storedBytes_bitsOf (content : Bytes) (rest : List Bool) (out : Bytes) :
    storedBytes content.length (bitsOf content ++ rest) out.toArray = ((out ++ content).toArray, .ok rest) := by
  induction content generalizing out with
  | nil => rw [List.append_nil]; rfl
  | cons b content ih =>
    rw [bitsOf_cons, List.append_assoc, List.length_cons, storedBytes, Bits.number_lowBits b.toNat_lt]
    have hpush : out.toArray.push (UInt8.ofNat b.toNat) = (out ++ [b]).toArray := by simp
    simp only [hpush, ih, List.append_assoc, List.singleton_append]

/-- **A block gives its bytes**, and the bits behind it. -/
theorem block_storedBlock (last : Bool) {content : Bytes} (h : content.length ≤ 0xFFFF) (rest out : Bytes) :
    block (bitsOf (storedBlock last content ++ rest)) out.toArray =
      ((out ++ content).toArray, .ok (last, bitsOf rest)) := by
  have hhead : lowBits 8 (UInt8.ofNat last.toNat).toNat = lowBits 1 last.toNat ++ (lowBits 2 0 ++ lowBits 5 0) := by
    cases last <;> decide
  have hbits : bitsOf (storedBlock last content ++ rest) =
      lowBits 1 last.toNat ++ (lowBits 2 0 ++ (lowBits 5 0 ++ (lowBits 16 content.length ++
        (lowBits 16 (0xFFFF - content.length) ++ (bitsOf content ++ bitsOf rest))))) := by
    simp only [storedBlock, List.cons_append, bitsOf_cons, bitsOf_append, bitsOf_ofNumber, hhead, List.append_assoc]
  have hpadding : ∀ bits : Bytes, (lowBits 5 0 ++ bitsOf bits).drop ((lowBits 5 0 ++ bitsOf bits).length % 8) =
      bitsOf bits := by
    intro bits
    have hfive : (lowBits 5 0 ++ bitsOf bits).length % 8 = (lowBits 5 0).length := by
      rw [List.length_append, length_lowBits, length_bitsOf]
      omega
    rw [hfive, List.drop_left]
  have hstored : stored (lowBits 5 0 ++ (lowBits 16 content.length ++
      (lowBits 16 (0xFFFF - content.length) ++ (bitsOf content ++ bitsOf rest)))) out.toArray =
      ((out ++ content).toArray, .ok (bitsOf rest)) := by
    have hbytes : lowBits 16 content.length ++ (lowBits 16 (0xFFFF - content.length) ++
        (bitsOf content ++ bitsOf rest)) =
        bitsOf (Bytes.ofNumber 2 content.length ++ (Bytes.ofNumber 2 (0xFFFF - content.length) ++ (content ++ rest))) := by
      simp only [bitsOf_append, bitsOf_ofNumber]
    have hsum : content.length + (0xFFFF - content.length) = 0xFFFF := by omega
    rw [stored, hbytes, hpadding, ← hbytes, Bits.number_lowBits (by omega)]
    simp only [bind, Except.bind]
    rw [Bits.number_lowBits (by omega)]
    simp only [hsum, if_true, pure, Except.pure, storedBytes_bitsOf]
  have hlast : last.toNat < 2 ^ 1 := by cases last <;> decide
  have hflag : (last.toNat == 1) = last := by cases last <;> rfl
  rw [block, hbits, Bits.number_lowBits hlast]
  simp only [bind, Except.bind]
  rw [Bits.number_lowBits (by decide)]
  simp only [pure, Except.pure, hstored, Except.map, hflag]

theorem blocks_deflate (content : Bytes) (fuel : Nat) (h : (deflate content).length ≤ fuel) (out : Bytes) :
    blocks fuel (bitsOf (deflate content)) out.toArray = some (out ++ content).toArray := by
  induction content using deflate.induct generalizing fuel out with
  | case1 content hshort =>
    rw [deflate, if_pos hshort] at h ⊢
    obtain ⟨fuel, rfl⟩ : ∃ n, fuel = n + 1 := Nat.exists_eq_succ_of_ne_zero fun hzero => by
      rw [hzero, storedBlock] at h
      cases h
    have hblock := block_storedBlock true hshort [] out
    rw [List.append_nil] at hblock
    simp only [blocks, hblock]
  | case2 content hlong ih =>
    rw [deflate, if_neg hlong] at h ⊢
    rw [storedBlock, List.cons_append, List.length_cons, List.length_append] at h
    obtain ⟨fuel, rfl⟩ : ∃ n, fuel = n + 1 := Nat.exists_eq_succ_of_ne_zero fun hzero => by
      rw [hzero] at h
      cases h
    have hblock := block_storedBlock false (List.length_take_le 0xFFFF content) (deflate (content.drop 0xFFFF)) out
    simp only [blocks, hblock]
    rw [ih fuel (by omega), List.append_assoc, List.take_append_drop]

end Inflate

/-- **What is packed unpacks to itself.** -/
theorem inflate?_deflate (content : Bytes) : inflate? (deflate content) = some content := by
  have hroom : (deflate content).length ≤ (bitsOf (deflate content)).length := by
    rw [length_bitsOf]
    omega
  simp only [inflate?, Inflate.blocks_deflate content _ hroom [], Option.map_some, List.nil_append]

end Blockwork.Archive
