import PascalUnits.Proofs.Literal

/-!
# What a literal shows

A literal is a list of segments (`exists_segments`): bytes between quotes, and single bytes that are
given by their numbers. A byte that is not to be shown as it is, such as a control character, is
always given by its number, with one exception: `Byte.delete`, the last byte of ASCII, stands
between quotes like a printable one. The main statement is `literal_is_printable_iff`.
-/

namespace PascalUnits

/-- The control character at the end of ASCII. -/
abbrev Byte.delete : UInt8 := 0x7F

namespace Literal

/-- A byte that shows as one character of ASCII on one line. -/
def IsPrintable (byte : UInt8) : Prop :=
  0x20 ≤ byte ∧ byte ≤ 0x7E

instance (byte : UInt8) : Decidable (IsPrintable byte) :=
  inferInstanceAs (Decidable (_ ∧ _))

/-- A byte that is not to stand between quotes: a control character, one outside ASCII, or the quote
itself. -/
def IsSpecial (byte : UInt8) : Prop :=
  ¬ IsPrintable byte ∨ byte = Byte.quote

/-- A part of a literal: bytes between quotes, or one byte that is given by its number. -/
inductive Segment where
  | quoted (plain : Bytes)
  | numbered (byte : UInt8)
  deriving DecidableEq, Repr

namespace Segment

/-- How a segment is written. -/
def shown : Segment → Bytes
  | .quoted plain => Byte.quote :: (plain ++ [Byte.quote])
  | .numbered byte => Bytes.ofText ("#$" ++ Byte.hex byte)

/-- What a segment stands for. -/
def bytes : Segment → Bytes
  | .quoted plain => plain
  | .numbered byte => [byte]

/-- Special bytes are given by their numbers, and no others; but `Byte.delete` is never given by its
number. -/
def Proper : Segment → Prop
  | .quoted plain => ∀ byte ∈ plain, IsSpecial byte → byte = Byte.delete
  | .numbered byte => IsSpecial byte ∧ byte ≠ Byte.delete

end Segment

/-- A byte is written by its number exactly if it is special and not the last one of ASCII. -/
theorem needsNumber_iff (byte : UInt8) :
    needsNumber byte ↔ IsSpecial byte ∧ byte ≠ Byte.delete := by
  simp only [needsNumber, IsSpecial, IsPrintable, Bool.or_eq_true, decide_eq_true_eq,
    beq_iff_eq, UInt8.lt_iff_toNat_lt, UInt8.le_iff_toNat_le, ne_eq, ← UInt8.toNat_inj,
    Byte.delete, Byte.quote, UInt8.reduceToNat]
  omega

/-- The number of a byte is the digits that a literal writes. -/
theorem shown_numbered (byte : UInt8) :
    (Segment.numbered byte).shown =
      [Byte.hash, Byte.dollar, digit (byte / 16), digit byte] := by
  have hmarks : Bytes.ofText "#$" = [Byte.hash, Byte.dollar] := by decide +kernel
  rw [Segment.shown, Byte.hex, Bytes.ofText_append, hmarks, Bytes.ofText_ofList]
  simp only [List.flatMap_cons, List.flatMap_nil, utf8_hexDigit]
  rfl

/-- The digits of a number are printable. -/
theorem isPrintable_digit (value : UInt8) : IsPrintable (digit value) := by
  have hall : "0123456789ABCDEF".toList.all fun char =>
      0x20 ≤ char.toUInt8 && char.toUInt8 ≤ 0x7E := by decide
  simpa [IsPrintable, digit] using List.all_eq_true.1 hall _ (mem_hexDigits value)

/-- A literal is a list of segments, which stand for its bytes. -/
theorem exists_segments (bytes : Bytes) :
    ∃ segments : List Segment, Byte.quote :: spelled bytes = segments.flatMap Segment.shown ∧
      segments.flatMap Segment.bytes = bytes ∧ ∀ segment ∈ segments, segment.Proper := by
  have hplain {plain : Bytes} (h : ∀ byte ∈ plain, needsNumber byte = false) :
      (Segment.quoted plain).Proper := by
    intro byte hbyte hspecial
    by_contra hdelete
    exact absurd ((needsNumber_iff byte).2 ⟨hspecial, hdelete⟩) (by simp [h byte hbyte])
  induction bytes using number_induction with
  | plain plain h =>
      refine ⟨[.quoted plain], ?_, by simp [Segment.bytes],
        List.forall_mem_singleton.2 (hplain h)⟩
      have hspelled := spelled_append h []
      rw [List.append_nil] at hspelled
      rw [hspelled]
      simp [Segment.shown, spelled]
  | number plain byte more h hbyte ih =>
      obtain ⟨segments, hshown, hbytes, hproper⟩ := ih
      refine ⟨.quoted plain :: .numbered byte :: segments, ?_, ?_, ?_⟩
      · rw [spelled_append h, spelled_cons hbyte, hshown, List.flatMap_cons, List.flatMap_cons,
          shown_numbered]
        simp [Segment.shown]
      · simp [Segment.bytes, hbytes]
      · exact List.forall_mem_cons.2
          ⟨hplain h, List.forall_mem_cons.2 ⟨(needsNumber_iff byte).1 hbyte, hproper⟩⟩

/-- A segment is printable but for the last byte of ASCII, which it shows if it stands for it. -/
theorem Segment.Proper.isPrintable_iff {segment : Segment} (h : segment.Proper) :
    (∀ byte ∈ segment.shown, IsPrintable byte) ↔ Byte.delete ∉ segment.bytes := by
  have hdelete : ¬ IsPrintable Byte.delete := by decide
  cases segment with
  | quoted plain =>
      have hplain : (∀ byte ∈ plain, IsPrintable byte) ↔ Byte.delete ∉ plain := by
        constructor
        · exact fun hshown hmem => hdelete (hshown _ hmem)
        · intro hnone byte hbyte
          by_contra hnot
          exact hnone (h byte hbyte (.inl hnot) ▸ hbyte)
      have hquote : IsPrintable Byte.quote := by decide
      rw [shown, bytes, ← hplain, List.forall_mem_cons, List.forall_mem_append,
        List.forall_mem_singleton]
      exact ⟨fun hshown => hshown.2.1, fun hshown => ⟨hquote, hshown, hquote⟩⟩
  | numbered byte =>
      refine iff_of_true ?_ (by simpa [bytes] using Ne.symm h.2)
      rw [shown_numbered]
      simp only [List.forall_mem_cons, List.not_mem_nil, false_imp_iff, implies_true, and_true]
      exact ⟨by decide, by decide, isPrintable_digit _, isPrintable_digit _⟩

end Literal

open Literal in
/-- What the literal for a text shows. It is one line of printable ASCII exactly if the text does
not hold the last byte of ASCII, a control character that it shows as it is. Any other control
character, any byte outside ASCII and any quote is given by its number: the literal is a list of
segments, which stand for the bytes of the text, and none of these bytes is between quotes. -/
theorem literal_is_printable_iff (text : String) :
    let literal := Bytes.ofText (Literal.ofText text)
    ((∀ byte ∈ literal, IsPrintable byte) ↔ Byte.delete ∉ Bytes.ofText text) ∧
    ∃ segments : List Segment, segments.flatMap Segment.shown = literal ∧
      segments.flatMap Segment.bytes = Bytes.ofText text ∧
      ∀ segment ∈ segments, segment.Proper := by
  intro literal
  obtain ⟨segments, hshown, hbytes, hproper⟩ := exists_segments (Bytes.ofText text)
  have hliteral : segments.flatMap Segment.shown = literal := by
    rw [← hshown, ← bytes_ofText]
  refine ⟨?_, segments, hliteral, hbytes, hproper⟩
  rw [← hliteral, ← hbytes, List.mem_flatMap, List.forall_mem_flatMap]
  constructor
  · rintro hprintable ⟨segment, hmem, hdelete⟩
    exact (hproper segment hmem).isPrintable_iff.1 (hprintable segment hmem) hdelete
  · intro hnone segment hmem
    exact (hproper segment hmem).isPrintable_iff.2 fun hdelete => hnone ⟨segment, hmem, hdelete⟩

/-- The last byte of ASCII is shown as it is, though it is a control character. -/
theorem literal_shows_delete :
    Bytes.ofText (Literal.ofText "\x7f") = [Byte.quote, 0x7F, Byte.quote] ∧
      ¬ ∀ byte ∈ Bytes.ofText (Literal.ofText "\x7f"), 0x20 ≤ byte ∧ byte ≤ 0x7E := by
  have hliteral : Bytes.ofText (Literal.ofText "\x7f") = [Byte.quote, 0x7F, Byte.quote] := by
    decide +kernel
  rw [hliteral]
  have hdelete : ¬ (0x20 ≤ (0x7F : UInt8) ∧ (0x7F : UInt8) ≤ 0x7E) := by decide
  exact ⟨rfl, fun hprintable => hdelete (hprintable 0x7F (by simp))⟩

end PascalUnits
