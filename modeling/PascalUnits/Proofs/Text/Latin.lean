import PascalUnits.Proofs.Text.Bytes
import PascalUnits.Proofs.Text.Rewriting

/-!
# Texts that are shown byte by byte

A scan shows text with one character for each byte. `Text.shown text` is what it shows of the UTF-8
form of `text`: an ASCII character is shown as it is, any other one as two characters or more that
are all outside ASCII. So a text is shown as it is if and only if it is in ASCII
(`Text.length_shown_eq_iff`).
-/

namespace PascalUnits.Text

/-- Whether all characters of a text are in ASCII. -/
def isAscii (text : String) : Bool :=
  text.toList.all fun char => char.toNat < 0x80

/-- What is shown of a character in UTF-8. -/
def shownChar (char : Char) : List Char :=
  (String.utf8EncodeChar char).map fun byte => Char.ofNat byte.toNat

/-- What is shown of a text in UTF-8. -/
def shown (text : String) : String :=
  Bytes.latin (Bytes.ofText text)

variable {char other : Char}

theorem toNat_ofNat (byte : UInt8) : (Char.ofNat byte.toNat).toNat = byte.toNat := by
  have hlt := byte.toNat_lt
  rw [Char.ofNat, dif_pos (Or.inl (by omega))]
  rfl

theorem shownChar_of_lt (h : char.toNat < 0x80) : shownChar char = [char] := by
  have hsize : char.toNat ≤ 127 := by omega
  have hval : char.val.toNat = char.toNat := rfl
  simp only [shownChar, String.utf8EncodeChar, hval, if_pos hsize, List.map_cons, List.map_nil]
  rw [UInt8.toNat_ofNat_of_lt' (by show _ < 256; omega), Char.ofNat_toNat]

theorem shownChar_of_ge (h : 0x80 ≤ char.toNat) :
    2 ≤ (shownChar char).length ∧ ∀ other ∈ shownChar char, 0x80 ≤ other.toNat := by
  have hsize : ¬ char.toNat ≤ 127 := by omega
  have hval : char.val.toNat = char.toNat := rfl
  simp only [shownChar, String.utf8EncodeChar, hval, if_neg hsize, List.length_map,
    List.forall_mem_map, toNat_ofNat]
  -- every byte has its highest bit set
  split
  · simp
    omega
  · split
    · simp
      omega
    · simp
      omega

theorem shownChar_ne_nil (char : Char) : shownChar char ≠ [] := by
  by_cases h : char.toNat < 0x80
  · simp [shownChar_of_lt h]
  · exact List.ne_nil_of_length_pos (by have := (shownChar_of_ge (Nat.le_of_not_lt h)).1; omega)

theorem toList_shown (text : String) : (shown text).toList = text.toList.flatMap shownChar := by
  conv => lhs; rw [← String.ofList_toList (s := text)]
  rw [shown, Bytes.ofText_ofList, Bytes.latin, String.toList_ofList, List.map_flatMap]
  rfl

theorem shown_eq_rewritten (text : String) : shown text = rewritten shownChar text := by
  rw [← String.toList_inj, toList_shown, toList_rewritten]

theorem shown_append (text other : String) : shown (text ++ other) = shown text ++ shown other := by
  rw [← String.toList_inj, toList_shown, String.toList_append, String.toList_append,
    List.flatMap_append, toList_shown, toList_shown]

/-- An ASCII character is shown as it is, and where it is shown it stands. -/
theorem keeps_shownChar {separator : Char} (h : separator.toNat < 0x80) :
    Keeps shownChar separator where
  kept := shownChar_of_lt h
  eq_of_mem char hmem := by
    by_cases hchar : char.toNat < 0x80
    · rw [shownChar_of_lt hchar, List.mem_singleton] at hmem
      exact hmem.symm
    · have hge := (shownChar_of_ge (Nat.le_of_not_lt hchar)).2 separator hmem
      omega

/-- A byte in ASCII stands in the UTF-8 form of a text for its own character only. -/
theorem mem_toList_of_mem_ofText {text : String} {byte : UInt8} (h : byte < 0x80)
    (hbyte : byte ∈ Bytes.ofText text) : Char.ofNat byte.toNat ∈ text.toList := by
  have hkeeps : Keeps shownChar (Char.ofNat byte.toNat) :=
    keeps_shownChar (by rw [toNat_ofNat]; exact UInt8.lt_iff_toNat_lt.1 h)
  rw [← hkeeps.mem_flatMap_iff, ← toList_shown, shown, Bytes.latin, String.toList_ofList]
  exact List.mem_map_of_mem hbyte

theorem keepsMarks_shownChar : Path.KeepsMarks shownChar where
  slash := keeps_shownChar (by decide)
  period := keeps_shownChar (by decide)
  ne_nil := shownChar_ne_nil

/-- The stem of a path that is shown. -/
theorem ofPath_shown (path : String) :
    UnitName.ofPath (shown path) = shown (UnitName.ofPath path) := by
  rw [shown_eq_rewritten, keepsMarks_shownChar.ofPath_rewritten, shown_eq_rewritten]

/-- A text in ASCII is shown as it is. -/
theorem shown_of_isAscii {text : String} (h : isAscii text) : shown text = text := by
  rw [← String.toList_inj, toList_shown]
  rw [isAscii, List.all_eq_true] at h
  rw [List.flatMap_congr fun char hchar => shownChar_of_lt (by simpa using h char hchar)]
  exact List.flatMap_singleton' _

/-- Any other text is shown with more characters. -/
theorem length_shown_eq_iff {text : String} :
    (shown text).length = text.length ↔ isAscii text := by
  refine ⟨fun hlength => ?_, fun h => by rw [shown_of_isAscii h]⟩
  have hge : ∀ chars : List Char, chars.length ≤ (chars.flatMap shownChar).length ∧
      ((chars.flatMap shownChar).length = chars.length →
        chars.all fun char => char.toNat < 0x80) := by
    intro chars
    induction chars with
    | nil => simp
    | cons char chars ih =>
        rw [List.flatMap_cons, List.length_append, List.length_cons, List.all_cons]
        by_cases hchar : char.toNat < 0x80
        · have hone : (shownChar char).length = 1 := by rw [shownChar_of_lt hchar]; rfl
          refine ⟨by omega, fun heq => ?_⟩
          simpa [hchar] using ih.2 (by omega)
        · have htwo := (shownChar_of_ge (Nat.le_of_not_lt hchar)).1
          exact ⟨by omega, fun heq => by omega⟩
  rw [← String.length_toList, ← String.length_toList, toList_shown] at hlength
  exact (hge _).2 hlength

end PascalUnits.Text
