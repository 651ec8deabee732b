import PascalUnits.Proofs.Scan.Tiling
import PascalUnits.Proofs.Scan.Trace

/-!
# One call of a scanner that keeps comments

Such a call passes blanks and hands out the lexeme behind them. `rest_eq_append` says how the text
is divided: blanks, the bytes that are `taken`, and what the next call begins with;
`offset_next_kept` and `file_next_kept` say where that is and which lines lie before it. Passing
over blanks may be done in steps (`skipBlanks_advance`).
-/

namespace PascalUnits

namespace SourceFile

/-- Lines are found in one text after the other. -/
theorem addLines_append (file : SourceFile) (offset : Nat) (text other : Bytes) :
    file.addLines offset (text ++ other) =
      (file.addLines offset text).addLines (offset + text.length) other := by
  induction text generalizing file offset with
  | nil => rfl
  | cons byte text ih =>
      simp only [List.cons_append, addLines, List.length_cons]
      split
      · rw [ih, Nat.add_assoc, Nat.add_comm 1]
      · rw [ih, Nat.add_assoc, Nat.add_comm 1]

end SourceFile

namespace Scanner

variable {scanner : Scanner} {source : Bytes} {first : UInt8} {rest : Bytes}

/-- Moving on twice is moving on once. -/
theorem advance_advance {size more : Nat} (h : size ≤ scanner.rest.length) :
    (scanner.advance size).advance more = scanner.advance (size + more) := by
  have hlength : (scanner.rest.take size).length = size := List.length_take_of_le h
  simp only [advance, List.take_add, SourceFile.addLines_append, hlength, List.drop_drop,
    Nat.add_assoc]

/-- Blanks may be passed in two steps. -/
theorem skipBlanks_advance {blanks text : Bytes} (hrest : scanner.rest = blanks ++ text)
    (hblanks : ∀ byte ∈ blanks, Byte.isBlank byte) :
    (scanner.advance blanks.length).skipBlanks = scanner.skipBlanks := by
  have hrun : Lexeme.run Byte.isBlank scanner.rest =
      blanks.length + Lexeme.run Byte.isBlank (scanner.rest.drop blanks.length) := by
    rw [hrest, List.drop_left, Lexeme.run, List.takeWhile_append_of_pos hblanks, List.length_append]
    rfl
  rw [skipBlanks, skipBlanks, hrun]
  exact advance_advance (by rw [hrest, List.length_append]; omega)

/-- Blanks are passed up to a byte that is none. -/
theorem skipBlanks_of_append {blanks text : Bytes} (hrest : scanner.rest = blanks ++ first :: text)
    (hblanks : ∀ byte ∈ blanks, Byte.isBlank byte) (hfirst : Byte.isBlank first = false) :
    scanner.skipBlanks = scanner.advance blanks.length := by
  rw [skipBlanks, hrest, Lexeme.run, List.takeWhile_append_of_pos hblanks,
    List.takeWhile_cons_of_neg (by simp [hfirst]), List.append_nil]

/-- The bytes of the lexeme that begins after the blanks. -/
def taken (scanner : Scanner) (first : UInt8) (rest : Bytes) : Bytes :=
  (first :: rest).take (scanner.skipBlanks.lexeme first rest).size

theorem length_taken (scanner : Scanner) (first : UInt8) (rest : Bytes) :
    (scanner.taken first rest).length = (scanner.skipBlanks.lexeme first rest).size :=
  List.length_take_of_le (Lexeme.read_size_le _ _ _)

section Lexeme

variable (hstands : scanner.StandsIn source) (hrest : scanner.skipBlanks.rest = first :: rest)

include hrest

theorem dropWhile_isBlank : scanner.rest.dropWhile Byte.isBlank = first :: rest := by
  rw [← hrest, ← Lexeme.drop_run]
  rfl

/-- A scanner that keeps comments hands out that lexeme. -/
theorem next_kept_of_cons :
    scanner.next .kept = scanner.skipBlanks.accept (scanner.skipBlanks.lexeme first rest) :=
  next_of_cons hrest fun _ => rfl

/-- It is not the end of the text. -/
theorem token_next_kept_ne_eof : (scanner.next .kept).1.token ≠ .eof := by
  rw [next_kept_of_cons hrest]
  exact (Lexeme.read_spelled _ _ _).token_ne_eof

theorem run_kept_of_cons :
    scanner.run .kept = (scanner.next .kept).1 :: (scanner.next .kept).2.run .kept := by
  rw [run]
  exact dif_neg (token_next_kept_ne_eof hrest)

/-- What is left of the text: the blanks, the lexeme, and what the next call begins with. -/
theorem rest_eq_append :
    scanner.rest = scanner.rest.takeWhile Byte.isBlank ++
      (scanner.taken first rest ++ (scanner.next .kept).2.rest) := by
  have hafter : (scanner.next .kept).2.rest =
      (first :: rest).drop (scanner.skipBlanks.lexeme first rest).size := by
    rw [next_kept_of_cons hrest, ← hrest]
    rfl
  rw [hafter, taken, List.take_append_drop, ← dropWhile_isBlank hrest,
    List.takeWhile_append_dropWhile]

/-- The next call begins after the lexeme. -/
theorem offset_next_kept :
    (scanner.next .kept).2.offset = scanner.offset +
      (scanner.rest.takeWhile Byte.isBlank).length + (scanner.taken first rest).length := by
  rw [length_taken, next_kept_of_cons hrest]
  rfl

/-- The token belongs to the bytes of the lexeme. -/
theorem spans_next_kept {index : Nat} :
    (scanner.next .kept).1.Spans index ↔
      scanner.offset + (scanner.rest.takeWhile Byte.isBlank).length ≤ index ∧
        index < (scanner.next .kept).2.offset := by
  have hsize : (scanner.skipBlanks.lexeme first rest).size ≤ scanner.skipBlanks.rest.length :=
    hrest ▸ Lexeme.read_size_le _ _ _
  have hstop := stop_accept hsize
    (lexeme_accept hrest (Lexeme.read_spelled _ _ _) (Lexeme.read_size_pos _ _ _))
  rw [Scanned.Spans, next_kept_of_cons hrest, hstop]
  rfl

/-- The lines up to the next call are those of the blanks and the lexeme. -/
theorem file_next_kept :
    (scanner.next .kept).2.file = scanner.file.addLines scanner.offset
      (scanner.rest.takeWhile Byte.isBlank ++ scanner.taken first rest) := by
  rw [SourceFile.addLines_append, next_kept_of_cons hrest, taken, ← hrest, ← Lexeme.take_run,
    Lexeme.take_run]
  show (scanner.file.addLines scanner.offset
    (scanner.rest.take (Lexeme.run Byte.isBlank scanner.rest))).addLines _ _ = _
  rw [Lexeme.take_run]
  rfl

/-- The lexeme that begins after the blanks has a first byte, which is none of the blanks. -/
theorem taken_eq_cons :
    ∃ inside, scanner.taken first rest = first :: inside ∧
      inside.length = (scanner.skipBlanks.lexeme first rest).size - 1 ∧
      rest = inside ++ (scanner.next .kept).2.rest ∧ Byte.isBlank first = false := by
  obtain ⟨size, hsize⟩ : ∃ size, (scanner.skipBlanks.lexeme first rest).size = size + 1 :=
    Nat.exists_eq_add_one.2 (Lexeme.read_size_pos _ _ _)
  have hle : (scanner.skipBlanks.lexeme first rest).size ≤ (first :: rest).length :=
    Lexeme.read_size_le _ _ _
  rw [hsize, List.length_cons] at hle
  refine ⟨rest.take size, ?_, ?_, ?_, ?_⟩
  · rw [taken, hsize, List.take_succ_cons]
  · rw [hsize, List.length_take_of_le (by omega)]
    rfl
  · have hafter : (scanner.next .kept).2.rest = rest.drop size := by
      rw [next_kept_of_cons hrest]
      show scanner.skipBlanks.rest.drop _ = _
      rw [hrest, hsize, List.drop_succ_cons]
    rw [hafter, List.take_append_drop]
  · have hhead := List.head?_dropWhile_not Byte.isBlank scanner.rest
    rw [dropWhile_isBlank hrest] at hhead
    simpa using hhead

include hstands

/-- The scanner after the call stands in the source. -/
theorem stands_next_kept : (scanner.next .kept).2.StandsIn source := by
  rw [next_kept_of_cons hrest]
  exact hstands.skipBlanks.accept (hrest ▸ Lexeme.read_size_le _ _ _)

end Lexeme

end Scanner

end PascalUnits
