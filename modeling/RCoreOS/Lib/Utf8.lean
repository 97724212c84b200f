import Mathlib.Init

/-! The UTF-8 codes of characters: an ASCII character is one byte, which is in no code of another
character.
-/

namespace Utf8

/-- The first half of the bytes are the codes of ASCII characters. -/
def Ascii (c : Char) : Prop :=
  c.val ≤ 127

instance (c : Char) : Decidable (Ascii c) :=
  inferInstanceAs (Decidable (_ ≤ _))

def code (c : Char) : UInt8 :=
  c.val.toUInt8

theorem encode_ascii {c : Char} (ascii : Ascii c) : String.utf8EncodeChar c = [code c] :=
  String.utf8EncodeChar_eq_singleton (Char.utf8Size_eq_one_iff.mpr ascii)

theorem toNat_code {c : Char} (ascii : Ascii c) : (code c).toNat = c.toNat := by
  have small : c.toNat ≤ 127 := UInt32.le_iff_toNat_le.mp ascii
  rw [code, UInt32.toNat_toUInt8]
  exact Nat.mod_eq_of_lt (Nat.lt_of_le_of_lt small (by decide))

/-- The bytes of other characters are in the second half. -/
theorem high_of_mem {c : Char} (other : ¬ Ascii c) {byte : UInt8}
    (present : byte ∈ String.utf8EncodeChar c)
    : 128 ≤ byte := by
  have high {x mark : UInt8} (marked : 128 ≤ mark) : 128 ≤ x ||| mark :=
    UInt8.le_trans marked UInt8.right_le_or
  rcases Char.utf8Size_eq c with one | two | three | four
  · exact absurd (Char.utf8Size_eq_one_iff.mp one) other
  · rw [String.utf8EncodeChar_eq_cons_cons two] at present
    simp only [List.mem_cons, List.not_mem_nil, or_false] at present
    rcases present with rfl | rfl <;> exact high (by decide)
  · rw [String.utf8EncodeChar_eq_cons_cons_cons three] at present
    simp only [List.mem_cons, List.not_mem_nil, or_false] at present
    rcases present with rfl | rfl | rfl <;> exact high (by decide)
  · rw [String.utf8EncodeChar_eq_cons_cons_cons_cons four] at present
    simp only [List.mem_cons, List.not_mem_nil, or_false] at present
    rcases present with rfl | rfl | rfl | rfl <;> exact high (by decide)

/-- Only an ASCII character has its byte. -/
theorem eq_of_code_mem {c d : Char} (ascii : Ascii d) (present : code d ∈ String.utf8EncodeChar c)
    : c = d := by
  have small : d.toNat ≤ 127 := UInt32.le_iff_toNat_le.mp ascii
  have byte := toNat_code ascii
  by_cases plain : Ascii c
  · rw [encode_ascii plain, List.mem_singleton] at present
    have same : c.toNat = d.toNat := by
      rw [← toNat_code plain, ← byte, present]
    exact Char.ext (UInt32.toNat_inj.mp same)
  · have high : 128 ≤ (code d).toNat := UInt8.le_iff_toNat_le.mp (high_of_mem plain present)
    omega

-----------------------------------------------------------------------------------------
-- Strings
-----------------------------------------------------------------------------------------

/-- The bytes of a string. -/
def bytes (text : String) : List UInt8 :=
  text.toByteArray.data.toList

theorem bytes_ofList (text : List Char)
    : bytes (String.ofList text) = text.flatMap String.utf8EncodeChar := by
  rw [bytes, String.toByteArray_ofList]
  exact List.toList_data_toByteArray

theorem bytes_eq (text : String) : bytes text = text.toList.flatMap String.utf8EncodeChar := by
  rw [← bytes_ofList, String.ofList_toList]

theorem toByteArray_bytes (text : String) : (bytes text).toByteArray = text.toByteArray := by
  apply ByteArray.ext
  rw [List.data_toByteArray, bytes, Array.toArray_toList]

theorem bytes_injective : Function.Injective bytes := by
  intro text text' same
  rw [← String.toByteArray_inj, ← toByteArray_bytes, same, toByteArray_bytes]

/-- Valid bytes are those of a string. -/
theorem exists_bytes {line : List UInt8} (valid : line.toByteArray.IsValidUTF8)
    : ∃ text, bytes text = line :=
  ⟨⟨line.toByteArray, valid⟩, List.toList_data_toByteArray⟩

theorem fromUTF8?_bytes (text : String)
    : String.fromUTF8? (bytes text).toByteArray = some text := by
  rw [toByteArray_bytes, String.fromUTF8?, dif_pos text.isValidUTF8]
  rfl

end Utf8
