import Mathlib.Data.String.Basic
import PascalUnits.Proofs.Text.Bytes

/-!
# The order of texts and of their bytes

Texts are ordered character by character. Their UTF-8 forms are in the same order, byte by byte
(`Bytes.ofText_lt`), since of two characters the smaller one has the smaller form, whatever follows
(`Bytes.utf8_lt`).
-/

namespace PascalUnits.Bytes

/-- Numbers below 256 are in the order of their bytes. -/
theorem ofNat_lt_ofNat {number other : Nat} (hnumber : number < 256) (hother : other < 256) :
    UInt8.ofNat number < UInt8.ofNat other ↔ number < other := by
  rw [UInt8.lt_iff_toNat_lt, UInt8.toNat_ofNat_of_lt' hnumber, UInt8.toNat_ofNat_of_lt' hother]

theorem ofNat_eq_ofNat {number other : Nat} (hnumber : number < 256) (hother : other < 256) :
    UInt8.ofNat number = UInt8.ofNat other ↔ number = other := by
  rw [← UInt8.toNat_inj, UInt8.toNat_ofNat_of_lt' hnumber, UInt8.toNat_ofNat_of_lt' hother]

/-- The bytes of a smaller character come before those of a greater one, whatever follows. -/
theorem utf8_lt {char other : Char} (h : char < other) (text text' : Bytes) :
    String.utf8EncodeChar char ++ text < String.utf8EncodeChar other ++ text' := by
  have hlt : char.val.toNat < other.val.toNat := h
  have hchar : char.val.toNat < 0x110000 := by
    have := char.valid
    simp only [UInt32.isValidChar, Nat.isValidChar] at this
    omega
  have hother : other.val.toNat < 0x110000 := by
    have := other.valid
    simp only [UInt32.isValidChar, Nat.isValidChar] at this
    omega
  simp only [String.utf8EncodeChar]
  generalize char.val.toNat = number at hlt hchar
  generalize other.val.toNat = number' at hlt hother
  -- each byte holds six bits of what the byte before it leaves
  have hdiv (n : Nat) : n / 4096 = n / 64 / 64 ∧ n / 262144 = n / 64 / 64 / 64 := by
    simp only [Nat.div_div_eq_div_mul, and_self]
  simp only [hdiv number, hdiv number']
  repeat' split
  all_goals first
    | omega
    | simp (disch := omega) only [List.cons_append, List.nil_append, List.cons_lt_cons_iff,
        ofNat_lt_ofNat, ofNat_eq_ofNat]
      omega

/-- The bytes of a text that comes before another one come before those of the other one. -/
theorem ofText_lt {text other : String} (h : text < other) : ofText text < ofText other := by
  rw [String.lt_iff_toList_lt] at h
  rw [← String.ofList_toList (s := text), ← String.ofList_toList (s := other), ofText_ofList,
    ofText_ofList]
  generalize text.toList = chars at h
  generalize other.toList = others at h
  induction h with
  | @nil char rest =>
      rw [List.flatMap_cons]
      obtain ⟨byte, bytes, hbytes⟩ : ∃ byte bytes, String.utf8EncodeChar char = byte :: bytes :=
        List.exists_cons_of_ne_nil String.utf8EncodeChar_ne_nil
      rw [hbytes]
      exact .nil
  | cons _ ih =>
      rw [List.flatMap_cons, List.flatMap_cons]
      exact List.append_left_lt ih
  | rel hlt =>
      rw [List.flatMap_cons, List.flatMap_cons]
      exact utf8_lt hlt _ _

end PascalUnits.Bytes
