import PascalUnits.Proofs.Reader.Lexeme
import PascalUnits.Proofs.Scan.Call

/-!
# The steps of a reader

`Reader.beside` puts a reader in the place of a scanner. From there a step of the reader leads to
the place of a scanner again, so far as the scanner would move over the same bytes at once: one byte
for `next` (`next_beside`), a run for `passWhile` (`passWhile_beside`), and so on.
-/

namespace PascalUnits

namespace Scanner

/-- A scanner that stands in `source`, in a file of the size of it, of which the table is in
order. -/
structure InFile (scanner : Scanner) (source : Bytes) : Prop where
  stands : scanner.StandsIn source
  size_eq : scanner.file.size = source.length
  tabled : scanner.file.Tabled

variable {scanner : Scanner} {source : Bytes}

theorem InFile.advance (h : scanner.InFile source) {size : Nat}
    (hsize : size ≤ scanner.rest.length) : (scanner.advance size).InFile source :=
  ⟨h.stands.advance hsize, (SourceFile.size_addLines _ _ _).trans h.size_eq,
    h.tabled.addLines _ _⟩

theorem InFile.skipBlanks (h : scanner.InFile source) : scanner.skipBlanks.InFile source :=
  h.advance (Lexeme.run_le Byte.isBlank scanner.rest)

theorem InFile.accept (h : scanner.InFile source) {lexeme : Lexeme}
    (hsize : lexeme.size ≤ scanner.rest.length) : (scanner.accept lexeme).2.InFile source :=
  ⟨h.stands.accept hsize, (h.advance hsize).size_eq, (h.advance hsize).tabled⟩

theorem InFile.next {scanner : Scanner} (h : scanner.InFile source) (comments : Comments) :
    (scanner.next comments).2.InFile source := by
  fun_induction Scanner.next comments scanner with
  | case1 scanner hrest =>
      exact ⟨⟨h.skipBlanks.stands.offset_le, h.skipBlanks.stands.rest_eq⟩, h.skipBlanks.size_eq,
        h.skipBlanks.tabled⟩
  | case2 scanner first rest hrest found hskipped following ih =>
      exact ih (h.skipBlanks.accept (hrest ▸ Lexeme.read_size_le _ _ _))
  | case3 scanner first rest hrest found hkept =>
      exact h.skipBlanks.accept (hrest ▸ Lexeme.read_size_le _ _ _)

/-- The scanner with further faults counted. -/
def counting (scanner : Scanner) (faults : Nat) : Scanner :=
  { scanner with errorCount := scanner.errorCount + faults }

theorem InFile.counting (h : scanner.InFile source) (faults : Nat) :
    (scanner.counting faults).InFile source :=
  ⟨⟨h.stands.offset_le, h.stands.rest_eq⟩, h.size_eq, h.tabled⟩

@[simp] theorem counting_zero (scanner : Scanner) : scanner.counting 0 = scanner :=
  rfl

/-- Where a scanner is in its source, and what is left. -/
theorem InFile.length_eq (h : scanner.InFile source) :
    source.length = scanner.offset + scanner.rest.length := by
  have hoffset := h.stands.offset_le
  rw [h.stands.rest_eq, List.length_drop]
  omega

@[simp] theorem advance_zero (scanner : Scanner) : scanner.advance 0 = scanner := by
  simp [advance, SourceFile.addLines]

end Scanner

namespace Reader

/-- The reader in the place of a scanner. -/
def beside (reader : Reader) (scanner : Scanner) : Reader :=
  { reader with
    file := scanner.file
    current := scanner.rest.head?
    offset := scanner.offset
    ahead := scanner.offset + (scanner.rest.take 1).length
    previous := scanner.previous
    errorCount := scanner.errorCount }

/-- The reader with further faults that it has been told, if it reports any. -/
def telling (reader : Reader) (diagnostics : List Diagnostic) : Reader :=
  { reader with
    reported := reader.reported ++ if reader.reports then diagnostics else [] }

variable {reader : Reader} {scanner : Scanner} {byte : UInt8} {rest : Bytes}

@[simp] theorem telling_nil (reader : Reader) : reader.telling [] = reader := by
  simp [telling]

theorem rest_of_current_none (h : (reader.beside scanner).current = none) : scanner.rest = [] :=
  List.head?_eq_none_iff.1 h

theorem exists_rest_of_current (h : (reader.beside scanner).current = some byte) :
    ∃ rest, scanner.rest = byte :: rest :=
  List.head?_eq_some_iff.1 h

section Steps

variable (h : scanner.InFile reader.source)

include h

/-- The byte at some distance. -/
theorem source_getElem? (distance : Nat) :
    reader.source[scanner.offset + distance]? = scanner.rest[distance]? := by
  rw [h.stands.rest_eq, List.getElem?_drop]

/-- The step: the next byte, or the end, where a reader stays. -/
theorem next_beside :
    (reader.beside scanner).next =
      reader.beside (scanner.advance (scanner.rest.take 1).length) := by
  have hlength := h.length_eq
  cases hrest : scanner.rest with
  | nil =>
      rw [hrest, List.length_nil, Nat.add_zero] at hlength
      simp [next, beside, lined, hrest, hlength]
  | cons byte rest =>
      have hahead := source_getElem? h 1
      rw [hrest, List.getElem?_cons_succ] at hahead
      rw [hrest, List.length_cons] at hlength
      cases rest with
      | nil => simp [next, beside, lined, hrest, hlength, Scanner.advance, SourceFile.addLines]
      | cons second rest =>
          have hinside : scanner.offset + 1 < reader.source.length := by
            rw [hlength, List.length_cons]
            omega
          rw [List.getElem?_eq_getElem hinside, List.getElem?_cons_zero,
            Option.some.injEq] at hahead
          simp [next, beside, lined, hrest, hinside, hahead, Scanner.advance, SourceFile.addLines]

/-- The byte behind the current one. -/
theorem peek_beside : (reader.beside scanner).peek = scanner.rest[1]? := by
  have hlength := h.length_eq
  cases hrest : scanner.rest with
  | nil =>
      rw [hrest, List.length_nil, Nat.add_zero] at hlength
      simp [peek, beside, hrest, ← hlength]
  | cons byte rest =>
      have hahead := source_getElem? h 1
      rw [hrest] at hahead
      simpa [peek, beside, hrest] using hahead

section Cons

variable (hrest : scanner.rest = byte :: rest)

include hrest

theorem next_of_cons : (reader.beside scanner).next = reader.beside (scanner.advance 1) := by
  rw [next_beside h, hrest]
  rfl

omit h in
theorem current_of_cons : (reader.beside scanner).current = some byte := by
  simp [beside, hrest]

omit h in
theorem rest_advance_one : (scanner.advance 1).rest = rest := by
  simp [Scanner.advance, hrest]

/-- The second byte, if there is one. -/
theorem current_next_of_cons : (reader.beside scanner).next.current = rest.head? := by
  rw [next_of_cons h hrest]
  exact congrArg List.head? (rest_advance_one hrest)

theorem inFile_advance_one : (scanner.advance 1).InFile reader.source :=
  h.advance (by simp [hrest])

omit h in
/-- A byte is passed, and then more. -/
theorem advance_one_advance (more : Nat) :
    (scanner.advance 1).advance more = scanner.advance (more + 1) := by
  rw [Scanner.advance_advance (by simp [hrest]), Nat.add_comm]

end Cons

end Steps

/-- A run is passed byte by byte. -/
theorem passWhile_beside (h : scanner.InFile reader.source) (accept : UInt8 → Bool) :
    (reader.beside scanner).passWhile accept =
      reader.beside (scanner.advance (Lexeme.run accept scanner.rest)) := by
  generalize hplace : reader.beside scanner = place
  fun_induction passWhile accept place generalizing scanner with subst hplace
  | case1 place hnone =>
      rw [rest_of_current_none hnone, Lexeme.run]
      simp
  | case2 place byte hbyte haccept ih =>
      obtain ⟨rest, hrest⟩ := exists_rest_of_current hbyte
      have hafter := ih (inFile_advance_one h hrest) (next_of_cons h hrest).symm
      rw [hafter, rest_advance_one hrest, advance_one_advance hrest, hrest, Lexeme.run, Lexeme.run,
        List.takeWhile_cons_of_pos haccept, List.length_cons]
  | case3 place byte hbyte hreject =>
      obtain ⟨rest, hrest⟩ := exists_rest_of_current hbyte
      rw [hrest, Lexeme.run, List.takeWhile_cons_of_neg hreject, List.length_nil,
        Scanner.advance_zero]

/-- So is a run behind other bytes. -/
theorem passWhile_advance (h : scanner.InFile reader.source) {size : Nat}
    (hsize : size ≤ scanner.rest.length) (accept : UInt8 → Bool) :
    (reader.beside (scanner.advance size)).passWhile accept =
      reader.beside (scanner.advance (size + Lexeme.run accept (scanner.rest.drop size))) := by
  rw [passWhile_beside (h.advance hsize), Scanner.advance_advance hsize]
  rfl

/-- Behind the current byte, a run is passed from the next one on. -/
theorem next_passWhile_of_cons (h : scanner.InFile reader.source)
    (hrest : scanner.rest = byte :: rest) (accept : UInt8 → Bool) :
    1 + Lexeme.run accept rest ≤ scanner.rest.length ∧
      (reader.beside scanner).next.passWhile accept =
        reader.beside (scanner.advance (1 + Lexeme.run accept rest)) := by
  have hrun := Lexeme.run_le accept rest
  have hpassed := passWhile_beside (inFile_advance_one h hrest) accept
  rw [rest_advance_one hrest, advance_one_advance hrest, Nat.add_comm] at hpassed
  rw [next_of_cons h hrest, hpassed, hrest, List.length_cons]
  exact ⟨by omega, rfl⟩

/-- A comment in braces is passed up to the brace that closes it, or up to the end. -/
theorem passBrace_beside (h : scanner.InFile reader.source) :
    (reader.beside scanner).passBrace =
      (reader.beside
        (scanner.advance ((Lexeme.pastBrace? scanner.rest).getD scanner.rest.length)),
        (Lexeme.pastBrace? scanner.rest).isSome) := by
  generalize hplace : reader.beside scanner = place
  fun_induction passBrace place generalizing scanner with subst hplace
  | case1 place hnone =>
      rw [rest_of_current_none hnone]
      simp [Lexeme.pastBrace?]
  | case2 place hbyte =>
      obtain ⟨rest, hrest⟩ := exists_rest_of_current hbyte
      rw [next_of_cons h hrest, hrest]
      simp [Lexeme.pastBrace?]
  | case3 place byte hbyte hother ih =>
      obtain ⟨rest, hrest⟩ := exists_rest_of_current hbyte
      have hafter := ih (inFile_advance_one h hrest) (next_of_cons h hrest).symm
      rw [hafter, rest_advance_one hrest, advance_one_advance hrest, hrest, Lexeme.pastBrace?,
        if_neg hother]
      cases Lexeme.pastBrace? rest <;> rfl

/-- A comment with stars is passed up to what closes it, or up to the end. -/
theorem passStar_beside (h : scanner.InFile reader.source) :
    (reader.beside scanner).passStar =
      (reader.beside
        (scanner.advance ((Lexeme.pastStar? scanner.rest).getD scanner.rest.length)),
        (Lexeme.pastStar? scanner.rest).isSome) := by
  generalize hplace : reader.beside scanner = place
  fun_induction passStar place generalizing scanner with subst hplace
  | case1 place hnone =>
      rw [rest_of_current_none hnone]
      simp [Lexeme.pastStar?]
  | case2 place byte hbyte hclosing =>
      obtain ⟨rest, hrest⟩ := exists_rest_of_current hbyte
      have hone := inFile_advance_one h hrest
      rw [next_of_cons h hrest] at hclosing ⊢
      obtain ⟨others, hothers⟩ := exists_rest_of_current hclosing.2
      rw [next_of_cons hone hothers, advance_one_advance hrest]
      rw [rest_advance_one hrest] at hothers
      rw [hrest, hothers, hclosing.1]
      rfl
  | case3 place byte hbyte hother ih =>
      obtain ⟨rest, hrest⟩ := exists_rest_of_current hbyte
      have hafter := ih (inFile_advance_one h hrest) (next_of_cons h hrest).symm
      rw [next_of_cons h hrest] at hother
      have hopen : ¬(byte = Byte.star ∧ rest.head? = some Byte.rightParen) := by
        rwa [← rest_advance_one hrest]
      rw [hafter, rest_advance_one hrest, advance_one_advance hrest, hrest,
        Lexeme.pastStar?_of_open hopen]
      cases Lexeme.pastStar? rest <;> rfl

/-- The inside of a string is passed with its closing quote, or up to the end of the line. -/
theorem passString_beside (h : scanner.InFile reader.source) (characters : Nat) :
    (reader.beside scanner).passString characters =
      (reader.beside (scanner.advance (Lexeme.quotation scanner.rest).size),
        characters + (Lexeme.quotation scanner.rest).characters,
        (Lexeme.quotation scanner.rest).closed) := by
  generalize hplace : reader.beside scanner = place
  fun_induction passString characters place generalizing scanner with subst hplace
  | case1 characters place hnone =>
      rw [rest_of_current_none hnone]
      simp [Lexeme.quotation]
  | case2 characters place hbyte =>
      obtain ⟨rest, hrest⟩ := exists_rest_of_current hbyte
      have hopen : Lexeme.quotation (Byte.lineFeed :: rest) = ⟨0, 0, false⟩ := rfl
      rw [hrest, hopen, Scanner.advance_zero]
      rfl
  | case3 characters place hdouble hbyte hline ih =>
      obtain ⟨rest, hrest⟩ := exists_rest_of_current hbyte
      have hone := inFile_advance_one h hrest
      rw [next_of_cons h hrest] at hdouble ih ⊢
      obtain ⟨others, hothers⟩ := exists_rest_of_current hdouble
      have hafter := ih (inFile_advance_one hone hothers) (next_of_cons hone hothers).symm
      rw [hafter, rest_advance_one hothers, advance_one_advance hothers, advance_one_advance hrest]
      rw [rest_advance_one hrest] at hothers
      rw [hrest, hothers, Nat.add_right_comm characters 1]
      rfl
  | case4 characters place hsingle hbyte hline =>
      obtain ⟨rest, hrest⟩ := exists_rest_of_current hbyte
      rw [next_of_cons h hrest] at hsingle ⊢
      have hclosed : rest.head? ≠ some Byte.quote := by
        rwa [← rest_advance_one hrest]
      rw [hrest, Lexeme.quotation_quote hclosed]
      rfl
  | case5 characters place byte hbyte hline hquote ih =>
      obtain ⟨rest, hrest⟩ := exists_rest_of_current hbyte
      have hafter := ih (inFile_advance_one h hrest) (next_of_cons h hrest).symm
      rw [hafter, rest_advance_one hrest, advance_one_advance hrest, hrest,
        Lexeme.quotation_cons hquote hline, Nat.add_right_comm characters 1]
      rfl

end Reader

end PascalUnits
