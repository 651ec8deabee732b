/-!
# Letter case in ASCII

Unit names, words and extensions are compared without regard to the case of the letters `A` to `Z`.
No other character has a case here: `É` and `é` differ.
-/

namespace PascalUnits.Text

/-- `text` with the letters `A` to `Z` in lower case and every other character as it is. -/
def lower (text : String) : String :=
  String.ofList (text.toList.map Char.toLower)

/-- Two texts that differ in the case of ASCII letters only. -/
def sameIgnoringCase (first second : String) : Bool :=
  lower first == lower second

theorem char_lower_lower (char : Char) : char.toLower.toLower = char.toLower := by
  unfold Char.toLower
  split <;> rename_i h
  · have : ¬ (char.val + 32 ≥ 65 ∧ char.val + 32 ≤ 90) := by
      simp [UInt32.le_iff_toNat_le] at *
      omega
    simp_all
  · simp_all

@[simp] theorem lower_lower (text : String) : lower (lower text) = lower text := by
  simp only [lower, String.toList_ofList, List.map_map]
  congr 2
  exact funext char_lower_lower

end PascalUnits.Text
