import Mathlib.Data.List.Basic
import PascalUnits.Text.Bytes

/-!
# Texts and their bytes

The UTF-8 form of a text is that of its characters, one after the other (`Bytes.ofText_ofList`). An
ASCII character is the byte of its number (`Bytes.ofText_singleton`), and texts with the same bytes
are the same (`Bytes.ofText_injective`).
-/

namespace PascalUnits

namespace Bytes

theorem toList_loop (bytes : ByteArray) (index : Nat) (seen : Bytes) :
    ByteArray.toList.loop bytes index seen = seen.reverse ++ bytes.data.toList.drop index := by
  fun_induction ByteArray.toList.loop bytes index seen with
  | case1 index seen hlt ih =>
      have hindex : index < bytes.data.toList.length := by simpa using hlt
      rw [ih, List.drop_eq_getElem_cons hindex]
      simp [ByteArray.get!, hlt]
  | case2 index seen hge =>
      rw [List.drop_eq_nil_of_le (by simpa using Nat.le_of_not_lt hge), List.append_nil]

/-- The bytes of an array are the entries of its data. -/
theorem toList_eq (bytes : ByteArray) : bytes.toList = bytes.data.toList := by
  rw [ByteArray.toList, toList_loop]
  rfl

/-- The UTF-8 form of a text is that of its characters, one after the other. -/
theorem ofText_ofList (chars : List Char) :
    ofText (String.ofList chars) = chars.flatMap String.utf8EncodeChar := by
  rw [ofText, toList_eq]
  exact List.toList_data_toByteArray

theorem ofText_append (text other : String) :
    ofText (text ++ other) = ofText text ++ ofText other := by
  rw [← String.ofList_toList (s := text), ← String.ofList_toList (s := other),
    ← String.ofList_append, ofText_ofList, List.flatMap_append, ofText_ofList, ofText_ofList]

/-- Texts with the same bytes are the same. -/
theorem ofText_injective : Function.Injective ofText := by
  intro text other h
  rw [ofText, ofText, toList_eq, toList_eq, Array.toList_inj] at h
  exact String.toByteArray_inj.1 (ByteArray.ext h)

/-- The character of a byte in ASCII is that byte in UTF-8. -/
theorem utf8_ofNat {byte : UInt8} (h : byte < 0x80) :
    String.utf8EncodeChar (Char.ofNat byte.toNat) = [byte] := by
  have hlt : byte.toNat < 128 := UInt8.lt_iff_toNat_lt.1 h
  have hval : (Char.ofNat byte.toNat).val.toNat = byte.toNat := by
    rw [Char.ofNat, dif_pos (Or.inl (by omega))]
    rfl
  rw [String.utf8EncodeChar]
  simp only [hval]
  rw [if_pos (by omega), UInt8.ofNat_toNat]

end Bytes

end PascalUnits
