/-
Text as bytes.

- `Bytes.text?_ofText`: the bytes of a text are read back as that text.
- `Bytes.ofText_ofList`: they are the bytes of its characters in a row.
- `Bytes.encodeChar_ascii`, `Bytes.encodeChar_high`: a character of ASCII is one byte, its own number, and all bytes of
  any other character are from 128 on; so a byte of ASCII stands for nothing but its character.
-/
import Blockwork.Bytes
import Blockwork.Markup.Encoding
import Mathlib.Tactic

namespace Blockwork.Bytes

/-- **The bytes of a text are read back as that text.** -/
theorem text?_ofText (text : String) : text? (ofText text) = some text := by
  have harray : (⟨(ofText text).toArray⟩ : ByteArray) = text.toUTF8 := by
    simp [ofText]
  have hvalid : text.toUTF8.IsValidUTF8 := text.isValidUTF8
  rw [text?, harray, String.fromUTF8?, dif_pos hvalid]
  rfl

theorem utf8Chars?_ofText (text : String) : Markup.Encoding.utf8Chars? (ofText text) = some text.toList := by
  have hread := text?_ofText text
  rw [text?] at hread
  rw [Markup.Encoding.utf8Chars?, hread]
  rfl

theorem ofText_ofList (cs : List Char) : ofText (String.ofList cs) = cs.flatMap String.utf8EncodeChar := by
  rw [ofText, String.toUTF8, String.toByteArray_ofList]
  simp [List.utf8Encode]

theorem length_ofText_le (text : String) : (ofText text).length ≤ 4 * text.toList.length := by
  rw [← String.ofList_toList (s := text), ofText_ofList, String.toList_ofList, List.length_flatMap]
  refine (List.sum_le_card_nsmul _ 4 ?_).trans (by simp [Nat.mul_comm])
  intro n hn
  obtain ⟨c, -, rfl⟩ := List.mem_map.1 hn
  rw [String.length_utf8EncodeChar]
  exact c.utf8Size_le_four

theorem encodeChar_ascii {c : Char} (h : c.toNat < 128) : String.utf8EncodeChar c = [UInt8.ofNat c.toNat] := by
  have hv : c.val.toNat ≤ 127 := Nat.le_of_lt_succ h
  simp only [String.utf8EncodeChar, hv, if_true]
  rfl

theorem encodeChar_high {c : Char} (h : 128 ≤ c.toNat) : ∀ b ∈ String.utf8EncodeChar c, 128 ≤ b.toNat := by
  have hv : ¬ c.val.toNat ≤ 127 := Nat.not_le.2 h
  simp only [String.utf8EncodeChar, hv, if_false]
  split_ifs <;>
    simp only [List.forall_mem_cons, List.not_mem_nil, false_implies, implies_true, and_true, UInt8.toNat_ofNat'] <;>
    omega

/-- a byte of ASCII stands for nothing but its character -/
theorem not_mem_encodeChar {c d : Char} (hd : d.toNat < 128) (h : c ≠ d) :
    UInt8.ofNat d.toNat ∉ String.utf8EncodeChar c := by
  intro hm
  have hbyte : (UInt8.ofNat d.toNat).toNat = d.toNat := by
    rw [UInt8.toNat_ofNat']
    omega
  by_cases hc : c.toNat < 128
  · rw [encodeChar_ascii hc, List.mem_singleton] at hm
    have hsame := congrArg UInt8.toNat hm
    rw [hbyte, UInt8.toNat_ofNat', Nat.mod_eq_of_lt (by omega)] at hsame
    exact h (Char.toNat_inj.1 hsame.symm)
  · have hhigh := encodeChar_high (Nat.le_of_not_lt hc) _ hm
    omega

end Blockwork.Bytes
