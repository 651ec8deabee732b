import Mathlib.Data.FinEnum
import PascalUnits.Proofs.Text.Rewriting
import PascalUnits.Text.Bytes

/-!
# Bytes and texts in lower case

Only the bytes of the letters `A` to `Z` change in lower case, so a mark is at the same places
(`Byte.lower_eq_iff`), and a byte belongs to the same classes as before. Text that is shown of bytes
in lower case is in lower case (`Bytes.latin_lower`). No mark of a path has a letter case, so the
stem of a path in lower case is its stem in lower case (`Text.ofPath_lower`).
-/

namespace PascalUnits

namespace Byte

/-- A letter from `A` to `Z` in lower case, every other byte as it is. -/
def lower (byte : UInt8) : UInt8 :=
  if 0x41 ≤ byte ∧ byte ≤ 0x5A then byte + 0x20 else byte

theorem isLetter_lower : ∀ byte, isLetter (lower byte) = isLetter byte := by
  decide +kernel

theorem isDigit_lower : ∀ byte, isDigit (lower byte) = isDigit byte := by
  decide +kernel

theorem isHexDigit_lower : ∀ byte, isHexDigit (lower byte) = isHexDigit byte := by
  decide +kernel

theorem isExponentMark_lower : ∀ byte, isExponentMark (lower byte) = isExponentMark byte := by
  decide +kernel

theorem isBlank_lower : ∀ byte, isBlank (lower byte) = isBlank byte := by
  decide +kernel

theorem isWordByte_lower (byte : UInt8) : isWordByte (lower byte) = isWordByte byte := by
  rw [isWordByte, isWordByte, isLetter_lower, isDigit_lower]

/-- A byte that is no letter has no case. -/
theorem lower_of_isLetter_eq_false : ∀ byte, isLetter byte = false → lower byte = byte := by
  decide +kernel

/-- A mark is in the same place in lower case. -/
theorem lower_eq_iff {byte mark : UInt8} (hmark : isLetter mark = false) :
    lower byte = mark ↔ byte = mark := by
  constructor
  · rintro rfl
    rw [isLetter_lower] at hmark
    exact (lower_of_isLetter_eq_false byte hmark).symm
  · rintro rfl
    exact lower_of_isLetter_eq_false byte hmark

/-- What is shown of a byte in lower case. -/
theorem ofNat_lower : ∀ byte, Char.ofNat (lower byte).toNat = (Char.ofNat byte.toNat).toLower := by
  decide +kernel

end Byte

namespace Bytes

theorem lower_cons (byte : UInt8) (bytes : Bytes) :
    lower (byte :: bytes) = Byte.lower byte :: lower bytes :=
  rfl

theorem length_lower (bytes : Bytes) : (lower bytes).length = bytes.length :=
  List.length_map _

theorem take_lower (size : Nat) (bytes : Bytes) :
    (lower bytes).take size = lower (bytes.take size) :=
  List.map_take.symm

theorem drop_lower (size : Nat) (bytes : Bytes) :
    (lower bytes).drop size = lower (bytes.drop size) :=
  List.map_drop.symm

/-- A mark is the first byte in lower case if it was before. -/
theorem head?_lower_eq_iff {mark : UInt8} (hmark : Byte.isLetter mark = false) (bytes : Bytes) :
    (lower bytes).head? = some mark ↔ bytes.head? = some mark := by
  cases bytes with
  | nil => rfl
  | cons byte bytes =>
      rw [lower_cons, List.head?_cons, List.head?_cons, Option.some_inj, Option.some_inj,
        Byte.lower_eq_iff hmark]

/-- Marks come first in lower case if they did before. -/
theorem prefix_lower_iff {marks : Bytes} (hmarks : ∀ mark ∈ marks, Byte.isLetter mark = false)
    (bytes : Bytes) : marks <+: lower bytes ↔ marks <+: bytes := by
  induction marks generalizing bytes with
  | nil => exact iff_of_true List.nil_prefix List.nil_prefix
  | cons mark marks ih =>
      obtain ⟨hmark, hrest⟩ := List.forall_mem_cons.1 hmarks
      cases bytes with
      | nil => rfl
      | cons byte bytes =>
          rw [lower_cons, List.cons_prefix_cons, List.cons_prefix_cons, ih hrest, eq_comm,
            Byte.lower_eq_iff hmark, eq_comm]

/-- What is shown of bytes in lower case is in lower case. -/
theorem latin_lower (bytes : Bytes) : latin (lower bytes) = Text.lower (latin bytes) := by
  rw [latin, latin, Text.lower, String.toList_ofList, List.map_map]
  refine congrArg String.ofList ?_
  rw [lower, List.map_map]
  exact List.map_congr_left fun byte _ => Byte.ofNat_lower byte

end Bytes

namespace Text

theorem lower_eq_rewritten (text : String) :
    lower text = rewritten (fun char => [char.toLower]) text := by
  rw [lower, rewritten, List.map_eq_flatMap]

/-- A mark is in the same place in lower case. -/
theorem toLower_eq_iff {char mark : Char} (hmark : mark.val < 'A'.val ∨ 'z'.val < mark.val) :
    char.toLower = mark ↔ char = mark := by
  by_cases hupper : char.val ≥ 'A'.val ∧ char.val ≤ 'Z'.val
  · have hval : char.toLower.val = char.val + ('a'.val - 'A'.val) := by
      unfold Char.toLower
      rw [dif_pos hupper]
    -- the letter is no mark, and neither is what it becomes
    refine iff_of_false ?_ ?_
    · rintro rfl
      rw [hval] at hmark
      simp [UInt32.lt_iff_toNat_lt, UInt32.le_iff_toNat_le] at hmark hupper
      omega
    · rintro rfl
      simp [UInt32.lt_iff_toNat_lt, UInt32.le_iff_toNat_le] at hmark hupper
      omega
  · rw [show char.toLower = char from dif_neg hupper]

theorem keeps_toLower {mark : Char} (hmark : mark.val < 'A'.val ∨ 'z'.val < mark.val) :
    Keeps (fun char => [char.toLower]) mark where
  kept := congrArg ([·]) ((toLower_eq_iff hmark).2 rfl)
  eq_of_mem _ hmem := (toLower_eq_iff hmark).1 (List.mem_singleton.1 hmem).symm

theorem keepsMarks_toLower : Path.KeepsMarks fun char => [char.toLower] where
  slash := keeps_toLower (by decide)
  period := keeps_toLower (by decide)
  ne_nil _ := List.cons_ne_nil _ _

/-- The stem of a path in lower case. -/
theorem ofPath_lower (path : String) :
    UnitName.ofPath (lower path) = lower (UnitName.ofPath path) := by
  rw [lower_eq_rewritten, keepsMarks_toLower.ofPath_rewritten, lower_eq_rewritten]

theorem dropWhile_map_toLower {drop : Char → Bool} (hdrop : ∀ char, drop char.toLower = drop char)
    (chars : List Char) :
    (chars.map Char.toLower).dropWhile drop = (chars.dropWhile drop).map Char.toLower := by
  rw [List.dropWhile_map, show drop ∘ Char.toLower = drop from funext hdrop]

/-- Characters without a case are taken off a text in lower case. -/
theorem trim_lower {strip : Char → Bool} (hstrip : ∀ char, strip char.toLower = strip char)
    (text : String) : trim strip (lower text) = lower (trim strip text) := by
  simp only [trim, lower, String.toList_ofList, dropWhile_map_toLower hstrip, ← List.map_reverse]

end Text

end PascalUnits
