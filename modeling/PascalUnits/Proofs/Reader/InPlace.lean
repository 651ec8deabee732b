import PascalUnits.Proofs.Reader.Run

/-!
# A reader keeps in its place

`Reader.InPlace` says how the offset of a reader, its current byte and the offset from which it
reads on fit together. Each step of a reader keeps this, from any place, and none of them fails
(`Step.exists_run`). So does each call, and any number of them. The main statement is
`reader_keeps_in_place`.
-/

namespace PascalUnits

/-- The last of the tokens that is neither a comment nor a directive. -/
def Token.lastSignificant (tokens : List Token) : Option Token :=
  (tokens.filter fun token => !token.isTrivia).getLast?

namespace Reader

/-- A reader whose current byte is the one at its offset in `source`, if there is one, and which
reads on from the offset behind. The lines of its file are in order. -/
structure InPlace (source : Bytes) (reader : Reader) : Prop where
  source_eq : reader.source = source
  size_eq : reader.file.size = source.length
  tabled : reader.file.Tabled
  offset_le : reader.offset ≤ source.length
  current_eq : reader.current = source[reader.offset]?
  ahead_eq : reader.ahead =
    if reader.offset < source.length then reader.offset + 1 else source.length

/-- What a reader does on the way to a token. A comment or directive is taken with its first
byte. -/
inductive Step where
  | next
  | passWhile (accept : UInt8 → Bool)
  | report (offset : Nat) (fault : Fault)
  | identifier
  | number
  | string
  | numbered
  | choose (alone : Operator) (longer : List (UInt8 × Operator))
  | caret
  | comment (first : UInt8)

namespace Step

/-- The reader after a step. -/
def run (reader : Reader) : Step → Except Mishap Reader
  | next => return reader.next
  | passWhile accept => return reader.passWhile accept
  | report offset fault => reader.report offset fault
  | identifier => return (← reader.identifier).after
  | number => return (← reader.number).after
  | string => return (← reader.string).after
  | numbered => return (← reader.numbered).after
  | choose alone longer => return (reader.choose alone longer).after
  | caret => return (← reader.caret).after
  | comment first => return (← reader.comment .comment first).after

/-- Faults are reported inside the source, and some steps go on behind a byte that has been
taken. -/
def Fits (reader : Reader) : Step → Prop
  | report offset _ => offset ≤ reader.source.length
  | string | numbered | caret | comment _ => 0 < reader.offset
  | _ => True

end Step

variable {reader after : Reader} {scanner : Scanner} {source : Bytes}

/-- In the place of a scanner a reader is in place. -/
theorem inPlace_beside (h : scanner.InFile reader.source) :
    (reader.beside scanner).InPlace reader.source := by
  have hlength := h.length_eq
  refine ⟨rfl, h.size_eq, h.tabled, h.stands.offset_le, ?_, ?_⟩
  · show scanner.rest.head? = reader.source[scanner.offset]?
    rw [h.stands.rest_eq, List.head?_drop]
  · show scanner.offset + (scanner.rest.take 1).length =
      if scanner.offset < reader.source.length then scanner.offset + 1 else reader.source.length
    rw [List.length_take]
    split <;> omega

/-- A reader that is in place is in the place of a scanner. -/
theorem InPlace.exists_beside (h : reader.InPlace source) :
    ∃ scanner : Scanner, scanner.InFile reader.source ∧ reader.beside scanner = reader := by
  obtain ⟨rfl, hsize, htabled, hoffset, hcurrent, hahead⟩ := h
  refine ⟨{ file := reader.file, offset := reader.offset
            rest := reader.source.drop reader.offset, previous := reader.previous
            errorCount := reader.errorCount }, ⟨⟨hoffset, rfl⟩, hsize, htabled⟩, ?_⟩
  have hlength : reader.offset + ((reader.source.drop reader.offset).take 1).length =
      reader.ahead := by
    rw [hahead, List.length_take, List.length_drop]
    split <;> omega
  rw [beside, hlength, List.head?_drop, ← hcurrent]

/-- The end of a lexeme inside the source is such a place. -/
theorem inPlace_taking (h : scanner.InFile reader.source) {start : Nat} {lexeme : Lexeme}
    (hsize : start + lexeme.size ≤ reader.source.length) :
    (reader.taking scanner start lexeme).after.InPlace reader.source := by
  have hlength := h.length_eq
  have hpassed : start + lexeme.size - scanner.offset ≤ scanner.rest.length := by omega
  exact @inPlace_beside (reader.telling _) _ ((h.advance hpassed).counting _)

/-- A step that reads a lexeme inside the source gets through. -/
theorem exists_of_taking {outcome : Except Mishap Taken} (h : scanner.InFile reader.source)
    {start : Nat} {lexeme : Lexeme} (houtcome : outcome = .ok (reader.taking scanner start lexeme))
    (hsize : start + lexeme.size ≤ reader.source.length) :
    ∃ after, (do return (← outcome).after : Except Mishap Reader) = .ok after ∧
      after.InPlace reader.source ∧ after.previous = scanner.previous := by
  subst houtcome
  exact ⟨_, rfl, inPlace_taking h hsize, rfl⟩

theorem Step.exists_run_beside (step : Step) (h : scanner.InFile reader.source)
    (hfits : step.Fits (reader.beside scanner)) :
    ∃ after, step.run (reader.beside scanner) = .ok after ∧ after.InPlace reader.source ∧
      after.previous = scanner.previous := by
  have hlength := h.length_eq
  have hone : (scanner.rest.take 1).length ≤ scanner.rest.length := by simp
  cases step with
  | next =>
      exact ⟨_, congrArg _ (next_beside h), inPlace_beside (h.advance hone), rfl⟩
  | passWhile accept =>
      exact ⟨_, congrArg _ (passWhile_beside h accept),
        inPlace_beside (h.advance (Lexeme.run_le _ _)), rfl⟩
  | report offset fault =>
      exact ⟨_, report_beside h hfits fault, @inPlace_beside (reader.telling _) _ (h.counting 1),
        rfl⟩
  | identifier =>
      have hsize : (Lexeme.name scanner.rest).size ≤ scanner.rest.length := Lexeme.run_le _ _
      exact exists_of_taking h (identifier_beside h) (by omega)
  | number =>
      by_cases hdollar : scanner.rest.head? = some Byte.dollar
      · obtain ⟨rest, hrest⟩ := List.head?_eq_some_iff.1 hdollar
        have hsize : (Lexeme.hexadecimal rest).size ≤ scanner.rest.length :=
          (next_passWhile_of_cons h hrest Byte.isHexDigit).1
        exact exists_of_taking h (number_of_dollar h hrest) (by omega)
      · have hsize := Lexeme.numeral_size_le scanner.rest
        exact exists_of_taking h (number_of_ne h hdollar) (by omega)
  | string =>
      have htaken : 0 < scanner.offset := hfits
      have hsize : (Lexeme.string scanner.rest).size ≤ scanner.rest.length + 1 := by
        have hinside := Lexeme.quotation_size_le scanner.rest
        simp only [Lexeme.string]
        omega
      exact exists_of_taking h (string_beside h htaken) (by omega)
  | numbered =>
      have htaken : 0 < scanner.offset := hfits
      have hsize := Lexeme.numbered_size_le scanner.rest
      exact exists_of_taking h (numbered_beside h htaken) (by omega)
  | choose alone longer =>
      refine ⟨_, rfl, ?_⟩
      unfold Reader.choose
      split
      · rw [next_beside h]
        exact ⟨inPlace_beside (h.advance hone), rfl⟩
      · exact ⟨inPlace_beside h, rfl⟩
  | caret =>
      have htaken : 0 < scanner.offset := hfits
      have hsize := Lexeme.caret_size_le scanner.previous scanner.rest
      exact exists_of_taking h (caret_beside h htaken) (by omega)
  | comment first =>
      have htaken : 0 < scanner.offset := hfits
      have hsize := Lexeme.remark_size_le .comment first scanner.rest
      exact exists_of_taking h (comment_beside h htaken rfl first) (by omega)

/-- The step: from any place, a step of a reader gets through, and leads to a place in the same
source. It leaves the last token as it is. -/
theorem Step.exists_run (step : Step) (h : reader.InPlace source) (hfits : step.Fits reader) :
    ∃ after, step.run reader = .ok after ∧ after.InPlace source ∧
      after.previous = reader.previous := by
  obtain ⟨scanner, hscanner, hbeside⟩ := h.exists_beside
  have hrun := step.exists_run_beside hscanner
  rw [hbeside, h.source_eq] at hrun
  have hprevious : scanner.previous = reader.previous := congrArg Reader.previous hbeside
  rw [hprevious] at hrun
  exact hrun hfits

end Reader

namespace Scanner

variable {scanner : Scanner} {previous : Option Token}

/-- A call remembers its token, unless that is a comment or directive. -/
theorem previous_next (comments : Comments) (scanner : Scanner) :
    (scanner.next comments).2.previous =
      if (scanner.next comments).1.token.isTrivia then scanner.previous
      else (scanner.next comments).1.token := by
  fun_induction Scanner.next comments scanner with
  | case1 scanner hrest => rfl
  | case2 scanner first rest hrest found hskipped following ih =>
      have hfound : found.2.previous = scanner.previous := by
        show (if found.1.token.isTrivia then scanner.previous else _) = _
        rw [hskipped.1]
        rfl
      rw [hfound] at ih
      exact ih
  | case3 scanner first rest hrest found hkept => rfl

theorem InFile.calls {scanner : Scanner} {source : Bytes} (h : scanner.InFile source)
    (comments : Comments) (count : Nat) : (scanner.calls comments count).2.InFile source := by
  induction count generalizing scanner with
  | zero => exact h
  | succ count ih => exact ih (h.next comments)

/-- So after any number of calls the last token is remembered that was neither. -/
theorem previous_calls (comments : Comments) (count : Nat)
    (h : scanner.previous = previous.getD .illegal) :
    (scanner.calls comments count).2.previous =
      ((lastSignificant (scanner.calls comments count).1).or previous).getD .illegal := by
  induction count generalizing scanner previous with
  | zero => exact h
  | succ count ih =>
      rw [calls, lastSignificant_cons]
      refine ih ?_
      rw [previous_next, Token.getD_orPrevious, h]

end Scanner

/-- A reader always knows where it is, and nothing that it does can fail. From the beginning of any
source, and after any number of calls, its current byte is the one at its offset, or missing at the
end, it reads on from the offset behind, and it remembers the last token handed out that was neither
a comment nor a directive. No call ends in a mishap, and the calls hand out what those of a scanner
do. So no subtraction, no cut and no position is ever out of range, whether faults are reported or
not. The same holds of each single step, from any place in the source. -/
theorem reader_keeps_in_place (name : String) (base : Nat) (source : Bytes) (recorded : List Nat)
    (reports : Bool) (comments : Comments) (count : Nat) :
    let file := recorded.foldl SourceFile.addLine (.fresh name base source.length)
    (∃ reader scanner handed last,
      Reader.start file source reports = .ok reader ∧ reader.InPlace source ∧
      reader.previous = .illegal ∧ Scanner.start file source = .ok scanner ∧
      reader.calls comments count = .ok (handed, last) ∧ last.InPlace source ∧
      last.previous = (Token.lastSignificant (handed.map (·.2.1))).getD .illegal ∧
      (∀ pos, last.file.searched pos = .ok (last.file.position pos)) ∧
      last.reported = (if reports then Scanner.faults (scanner.calls comments count).1 else []) ∧
      handed = (scanner.calls comments count).1.map fun call =>
        (base + call.1.offset, call.1.token, call.1.literal)) ∧
    ∀ (step : Reader.Step) (reader : Reader), reader.InPlace source → step.Fits reader →
      ∃ after, step.run reader = .ok after ∧ after.InPlace source ∧
        after.previous = reader.previous := by
  intro file
  have hsize : file.size = source.length := (FileSet.foldl_addLine recorded _).2.2.1
  have hbase : file.base = base := (FileSet.foldl_addLine recorded _).2.1
  have htabled : file.Tabled :=
    (SourceFile.Tabled.fresh name base source.length).foldl_addLine recorded
  obtain ⟨scanner, hscanner, hinFile, hstart⟩ := Reader.start_beside hsize htabled reports
  obtain ⟨hfile, hprevious, -⟩ := Scanner.of_start_eq_ok hscanner
  have hinside : scanner.InFile (Reader.outside file source reports).source := hinFile
  have hlast := hinside.calls comments count
  have hremembered := @Scanner.previous_calls scanner none comments count hprevious
  refine ⟨⟨_, scanner, _, _, hstart, Reader.inPlace_beside hinside, hprevious, hscanner,
    Reader.calls_beside hinside comments count,
    @Reader.inPlace_beside ((Reader.outside file source reports).telling _) _ hlast, ?_,
    fun pos => hlast.tabled.searched_eq pos, rfl, ?_⟩,
    fun step reader hreader hfits => step.exists_run hreader hfits⟩
  · rw [List.map_map]
    rw [Option.or_none] at hremembered
    exact hremembered
  · rw [hfile, hbase]

end PascalUnits
