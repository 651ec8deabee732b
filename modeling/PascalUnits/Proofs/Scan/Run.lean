import PascalUnits.Proofs.Scan.Lexeme
import PascalUnits.Scan.Scanner

/-!
# Runs of the scanner

`Scanner.run` lists what a scanner hands out up to the first end of the text, the end included. A
scanner that `StandsIn` a source is at an offset of it and has the rest of it before it; so is the
scanner after each call (`StandsIn.accept`, `start_stands`). `next_of_nil` and `next_of_cons` say
what one call does.
-/

namespace PascalUnits

namespace Scanner

/-- What a scanner hands out from here on, up to the first end of the text, which is the last one
of the list. -/
def run (comments : Comments) (scanner : Scanner) : List Scanned :=
  let found := scanner.next comments
  if _ : found.1.token = .eof then [found.1] else found.1 :: run comments found.2
termination_by scanner.rest.length
decreasing_by exact rest_length_lt comments scanner ‹_›

/-- A scanner that is at an offset of `source` and has the rest of it before it. -/
structure StandsIn (scanner : Scanner) (source : Bytes) : Prop where
  offset_le : scanner.offset ≤ source.length
  rest_eq : scanner.rest = source.drop scanner.offset

/-- The lexeme that a scanner reads where the byte `first` begins one. -/
def lexeme (scanner : Scanner) (first : UInt8) (rest : Bytes) : Lexeme :=
  .read scanner.previous first rest

variable {scanner : Scanner} {source : Bytes} {comments : Comments}

/-- Only blanks are left: the call meets the end of the text. -/
theorem next_of_nil (h : scanner.skipBlanks.rest = []) :
    scanner.next comments =
      ({ offset := scanner.skipBlanks.offset, token := .eof, literal := [] },
       { scanner.skipBlanks with previous := .eof }) := by
  rw [next]
  split
  · rfl
  · rename_i hcons
    rw [h] at hcons
    cases hcons

/-- A lexeme that is handed out is taken off the text. -/
theorem next_of_cons {first : UInt8} {rest : Bytes} (h : scanner.skipBlanks.rest = first :: rest)
    (hkept : (scanner.skipBlanks.lexeme first rest).token = .comment → comments = .kept) :
    scanner.next comments =
      scanner.skipBlanks.accept (scanner.skipBlanks.lexeme first rest) := by
  rw [next]
  split
  · rename_i hnil
    rw [h] at hnil
    cases hnil
  · rename_i other others hcons
    obtain ⟨rfl, rfl⟩ := List.cons.inj (h.symm.trans hcons)
    refine if_neg ?_
    rintro ⟨hcomment, hskipped⟩
    rw [hkept hcomment] at hskipped
    cases hskipped

/-- The beginning of a source of the right size, past the mark. -/
theorem start_eq_ok {file : SourceFile} (hsize : file.size = source.length) :
    Scanner.start file source = .ok
      { file
        offset := if byteOrderMark <+: source then byteOrderMark.length else 0
        rest := source.drop (if byteOrderMark <+: source then byteOrderMark.length else 0) } := by
  rw [Scanner.start, if_pos hsize]
  simp only [List.isPrefixOf_iff_prefix]

/-- A scanner that starts has met no token and no fault, and knows no more of the file than there
was known. -/
theorem of_start_eq_ok {file : SourceFile} (h : Scanner.start file source = .ok scanner) :
    scanner.file = file ∧ scanner.previous = .illegal ∧ scanner.errorCount = 0 := by
  unfold Scanner.start at h
  split at h
  · cases h
    exact ⟨rfl, rfl, rfl⟩
  · cases h

/-- A scanner at the beginning of a file of the right size stands in the source, past the mark. -/
theorem start_stands {file : SourceFile} (hsize : file.size = source.length) :
    ∃ scanner, Scanner.start file source = .ok scanner ∧ scanner.StandsIn source ∧
      scanner.offset = if byteOrderMark <+: source then byteOrderMark.length else 0 := by
  unfold Scanner.start
  rw [if_pos hsize]
  refine ⟨_, rfl, ⟨?_, rfl⟩, ?_⟩
  · show (if byteOrderMark.isPrefixOf source then byteOrderMark.length else 0) ≤ source.length
    split
    · rename_i hmark
      exact (List.isPrefixOf_iff_prefix.1 hmark).length_le
    · exact Nat.zero_le _
  · simp only [List.isPrefixOf_iff_prefix]

/-- Where no text is left, the source ends. -/
theorem StandsIn.offset_eq (h : scanner.StandsIn source) (hrest : scanner.rest = []) :
    scanner.offset = source.length := by
  refine Nat.le_antisymm h.offset_le ?_
  rw [← List.drop_eq_nil_iff, ← h.rest_eq, hrest]

/-- Moving over bytes that are there leads to a place in the source. -/
theorem StandsIn.advance (h : scanner.StandsIn source) {size : Nat}
    (hsize : size ≤ scanner.rest.length) : (scanner.advance size).StandsIn source := by
  have hrest := congrArg List.length h.rest_eq
  rw [List.length_drop] at hrest
  have hoffset := h.offset_le
  refine ⟨?_, ?_⟩
  · show scanner.offset + size ≤ source.length
    omega
  · show scanner.rest.drop size = source.drop (scanner.offset + size)
    rw [h.rest_eq, List.drop_drop]

/-- Passing blanks leads to a place in the source. -/
theorem StandsIn.skipBlanks (h : scanner.StandsIn source) : scanner.skipBlanks.StandsIn source :=
  h.advance (Lexeme.run_le Byte.isBlank scanner.rest)

/-- Taking a lexeme that is there leads to a place in the source. -/
theorem StandsIn.accept (h : scanner.StandsIn source) {lexeme : Lexeme}
    (hsize : lexeme.size ≤ scanner.rest.length) : (scanner.accept lexeme).2.StandsIn source :=
  ⟨(h.advance hsize).offset_le, (h.advance hsize).rest_eq⟩

/-- The bytes that are passed before a token are blanks. -/
theorem StandsIn.blank (h : scanner.StandsIn source) {index : Nat} {byte : UInt8}
    (hbyte : source[index]? = some byte) (hle : scanner.offset ≤ index)
    (hlt : index < scanner.skipBlanks.offset) : Byte.isBlank byte := by
  have hcount : index - scanner.offset < (scanner.rest.takeWhile Byte.isBlank).length := by
    have hskip : scanner.skipBlanks.offset =
        scanner.offset + (scanner.rest.takeWhile Byte.isBlank).length := rfl
    omega
  have hrest : scanner.rest[index - scanner.offset]? = some byte := by
    rw [h.rest_eq, List.getElem?_drop, Nat.add_sub_cancel' hle, hbyte]
  rw [← List.takeWhile_append_dropWhile (p := Byte.isBlank) (l := scanner.rest),
    List.getElem?_append_left hcount] at hrest
  exact List.all_eq_true.1 List.all_takeWhile byte (List.mem_of_getElem? hrest)

end Scanner

end PascalUnits
