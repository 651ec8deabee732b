import PascalUnits.Proofs.Scan.Drain
import PascalUnits.Proofs.Scan.Faults

/-!
# The faults of a scan are its malformed tokens

Read `Scanner.malformed?` first: a token is malformed if its text shows it. A call reports a fault
if the token that it hands out is malformed (`Scanner.diagnostics_next_kept`). A comment that is
passed over is malformed only where it takes the rest of the text, so no call reports two faults
(`Scanner.length_diagnostics_le`). The main statement is `faults_are_malformed_tokens`.
-/

namespace PascalUnits

namespace Scanner

variable {scanner : Scanner}

/-- What is wrong with the token that a call hands out, at the place of the token. -/
def malformed? (call : Scanned × Scanner) : Option Diagnostic :=
  (call.1.token.fault? call.1.lexeme).map fun fault => ⟨(call.2.placed call.1).position, fault⟩

/-- A call that keeps comments reports what is wrong with its token, and nothing else. -/
theorem diagnostics_next_kept (scanner : Scanner) :
    (scanner.next .kept).1.diagnostics = (malformed? (scanner.next .kept)).toList := by
  cases hrest : scanner.skipBlanks.rest with
  | nil =>
      rw [next_of_nil hrest]
      rfl
  | cons first rest =>
      have hlexeme := lexeme_accept hrest (Lexeme.read_spelled _ _ _)
        (Lexeme.read_size_pos scanner.skipBlanks.previous first rest)
      have htells := Lexeme.read_tells scanner.skipBlanks.previous first rest
      rw [Lexeme.Tells, ← hrest, ← hlexeme] at htells
      rw [next_kept_of_cons hrest, malformed?]
      show (Option.toList _).map _ = _
      rw [lexeme, htells, Option.toList_map]
      rfl

/-- So does every call of a trace. -/
theorem diagnostics_trace_kept (scanner : Scanner) :
    ∀ call ∈ scanner.trace .kept, call.1.diagnostics = (malformed? call).toList :=
  forall_mem_trace diagnostics_next_kept scanner

theorem length_diagnostics_next_kept_le (scanner : Scanner) :
    (scanner.next .kept).1.diagnostics.length ≤ 1 := by
  rw [diagnostics_next_kept]
  exact Option.length_toList_le

/-- A comment with a fault takes the rest of the text. -/
theorem rest_of_comment (hcomment : (scanner.next .kept).1.token = .comment)
    (hfault : (scanner.next .kept).1.diagnostics ≠ []) : (scanner.next .kept).2.rest = [] := by
  cases hrest : scanner.skipBlanks.rest with
  | nil =>
      rw [next_of_nil hrest] at hcomment
      cases hcomment
  | cons first rest =>
      rw [next_kept_of_cons hrest] at hcomment hfault ⊢
      obtain ⟨fault, hread⟩ :
          ∃ fault, (scanner.skipBlanks.lexeme first rest).fault = some fault := by
        refine Option.ne_none_iff_exists'.1 fun hnone => hfault ?_
        simp [accept, hnone]
      obtain rfl := Lexeme.fault_of_comment hcomment fault hread
      show scanner.skipBlanks.rest.drop _ = []
      rw [hrest, lexeme, (Lexeme.read_sizeByFault _ _ _).openComment hread, List.drop_length]

/-- No call reports two faults. Where comments are passed over, one that has a fault is the last
thing in the text. -/
theorem length_diagnostics_le (comments : Comments) (scanner : Scanner) :
    (scanner.next comments).1.diagnostics.length ≤ 1 := by
  cases comments with
  | kept => exact length_diagnostics_next_kept_le scanner
  | skipped =>
      induction scanner using kept_induction with
      | eof scanner heof hnext => exact hnext ▸ length_diagnostics_next_kept_le scanner
      | other scanner heof hcomment hnext ih =>
          exact hnext ▸ length_diagnostics_next_kept_le scanner
      | comment scanner hcomment ih =>
          rw [next_skipped_of_comment hcomment]
          show ((scanner.next .kept).1.diagnostics ++ _).length ≤ 1
          by_cases hfault : (scanner.next .kept).1.diagnostics = []
          · rw [hfault]
            exact ih
          · have hend : (scanner.next .kept).2.skipBlanks.rest = [] := by
              simp [skipBlanks, advance, rest_of_comment hcomment hfault]
            rw [next_of_nil hend, List.append_nil]
            exact length_diagnostics_next_kept_le scanner

/-- An illegal token is a single byte, which the message shows. -/
theorem malformed?_of_illegal (h : (scanner.next .kept).1.token = .illegal) :
    ∃ byte, (scanner.next .kept).1.lexeme = [byte] ∧
      (malformed? (scanner.next .kept)).map (·.fault.message) =
        some ("illegal character 0x" ++ Byte.hex byte) := by
  cases hrest : scanner.skipBlanks.rest with
  | nil =>
      rw [next_of_nil hrest] at h
      cases h
  | cons first rest =>
      have hlexeme := lexeme_accept hrest (Lexeme.read_spelled _ _ _)
        (Lexeme.read_size_pos scanner.skipBlanks.previous first rest)
      rw [next_kept_of_cons hrest] at h ⊢
      rw [hrest, (Lexeme.fault_of_illegal h).2] at hlexeme
      refine ⟨first, hlexeme, ?_⟩
      rw [malformed?, h, lexeme, hlexeme]
      rfl

/-- At the end of the text all faults are counted. -/
theorem errorCount_atEnd (comments : Comments) (scanner : Scanner) :
    (scanner.atEnd comments).errorCount =
      scanner.errorCount + (faults (scanner.trace comments)).length := by
  have hnext := errorCount_next comments scanner
  by_cases heof : (scanner.next comments).1.token = .eof
  · rw [atEnd_of_eof heof, trace_of_eof heof, hnext]
    simp [faults]
  · rw [atEnd_of_ne_eof heof, trace_of_ne_eof heof, errorCount_atEnd, hnext, faults_cons,
      List.length_append, Nat.add_assoc]
termination_by scanner.rest.length
decreasing_by exact rest_length_lt comments scanner heof

/-- Up to the end of the text, the faults are those of the malformed tokens. -/
theorem faults_trace_kept (scanner : Scanner) :
    faults (scanner.trace .kept) = (scanner.trace .kept).filterMap malformed? := by
  rw [faults, List.filterMap_eq_flatMap_toList]
  exact List.flatMap_congr (diagnostics_trace_kept scanner)

/-- Each of these faults stands behind the one before it. -/
theorem pairwise_faults {source : Bytes} (hstands : scanner.StandsIn source)
    (hstarts : 0 ∈ scanner.file.starts) :
    (faults (scanner.trace .kept)).Pairwise
      fun earlier later => earlier.position.offset < later.position.offset := by
  obtain ⟨tokens, last, hrun, hlast, -, htiles⟩ := run_tiles hstands
  have hreports := reports_of_mem_run hstarts
  have hfaults : faults (scanner.trace .kept) = tokens.flatMap (·.diagnostics) := by
    rw [faults, ← List.flatMap_map, map_fst_trace, hrun, List.flatMap_append,
      List.flatMap_singleton, (hreports last (by simp [hrun])).eof hlast, List.append_nil]
  have hmem : ∀ found ∈ tokens, found ∈ scanner.run .kept := fun found hfound => by
    rw [hrun]
    exact List.mem_append_left _ hfound
  -- a token has one fault at most, and tokens begin one behind the other
  rw [hfaults, List.pairwise_flatMap]
  refine ⟨fun found hfound => ?_, htiles.ordered.imp_of_mem ?_⟩
  · have hfound := hmem found hfound
    rw [← map_fst_trace] at hfound
    obtain ⟨call, hcall, rfl⟩ := List.mem_map.1 hfound
    rw [diagnostics_trace_kept scanner call hcall]
    cases malformed? call with
    | none => exact .nil
    | some diagnostic => exact List.pairwise_singleton _ _
  · intro earlier later hearlier hlater hordered diagnostic hdiagnostic other hother
    rw [(hreports earlier (hmem _ hearlier)).offset_eq _ hdiagnostic,
      (hreports later (hmem _ hlater)).offset_eq _ hother]
    exact hordered.1

end Scanner

/-- Faults are reported exactly for malformed tokens. However a file is named and wherever it lies,
if its source is scanned with its comments up to the end, then the faults are those of the malformed
tokens, in the order of these; each stands where its token begins, so no two stand in one place; and
as many are counted. An illegal token is a single byte, and its message shows it. No call of any
scanner, in either mode, reports two faults. -/
theorem faults_are_malformed_tokens (name : String) (base : Nat) (source : Bytes) :
    ∃ scanner, Scanner.start (.fresh name base source.length) source = .ok scanner ∧
      Scanner.faults (scanner.trace .kept) =
        (scanner.trace .kept).filterMap Scanner.malformed? ∧
      (∀ call ∈ scanner.trace .kept, ∀ diagnostic, Scanner.malformed? call = some diagnostic →
        diagnostic.position.offset = call.1.offset) ∧
      (Scanner.faults (scanner.trace .kept)).Pairwise
        (fun earlier later => earlier.position.offset < later.position.offset) ∧
      (scanner.atEnd .kept).errorCount = (Scanner.faults (scanner.trace .kept)).length ∧
      (∀ call ∈ scanner.trace .kept, call.1.token = .illegal → ∃ byte, call.1.lexeme = [byte] ∧
        (Scanner.malformed? call).map (·.fault.message) =
          some ("illegal character 0x" ++ Byte.hex byte)) ∧
      ∀ (other : Scanner) (comments : Comments),
        (other.next comments).1.diagnostics.length ≤ 1 := by
  have hsize : (SourceFile.fresh name base source.length).size = source.length := rfl
  obtain ⟨scanner, hstart, hstands, -⟩ := Scanner.start_stands hsize
  obtain ⟨hfile, -, herrors⟩ := Scanner.of_start_eq_ok hstart
  have hstarts : 0 ∈ scanner.file.starts := by
    rw [hfile]
    exact List.mem_singleton_self 0
  refine ⟨scanner, hstart, scanner.faults_trace_kept, ?_,
    Scanner.pairwise_faults hstands hstarts, ?_, ?_,
    fun other comments => other.length_diagnostics_le comments⟩
  · intro call hcall diagnostic hmalformed
    have hrun : call.1 ∈ scanner.run .kept := by
      rw [← Scanner.map_fst_trace]
      exact List.mem_map_of_mem hcall
    refine (Scanner.reports_of_mem_run hstarts _ hrun).offset_eq diagnostic ?_
    rw [scanner.diagnostics_trace_kept call hcall, hmalformed]
    exact List.mem_singleton_self diagnostic
  · rw [Scanner.errorCount_atEnd, herrors, Nat.zero_add]
  · exact Scanner.forall_mem_trace (fun _ => Scanner.malformed?_of_illegal) scanner

/-- A malformed token of each sort, for instance, and a name between them. -/
theorem faults_of_five_tokens :
    let source := Bytes.ofText "$ #q ! 'a\n\x7bb"
    ∃ scanner, Scanner.start (.fresh "m.pas" 1 source.length) source = .ok scanner ∧
      Scanner.faults (scanner.trace .kept) =
        (scanner.trace .kept).filterMap Scanner.malformed? ∧
      ((scanner.trace .kept).filterMap Scanner.malformed?).map
          (fun diagnostic => (diagnostic.position.offset, diagnostic.fault)) =
        [(0, .hexadecimalWithoutDigits), (2, .characterWithoutDigits),
          (5, .illegalCharacter 0x21), (7, .openString), (10, .openComment)] ∧
      (scanner.atEnd .kept).errorCount = 5 := by
  intro source
  obtain ⟨scanner, hstart, hfaults, -, -, hcount, -, -⟩ :=
    faults_are_malformed_tokens "m.pas" 1 source
  have hmalformed : ((scanner.trace .kept).filterMap Scanner.malformed?).map
        (fun diagnostic => (diagnostic.position.offset, diagnostic.fault)) =
      [(0, .hexadecimalWithoutDigits), (2, .characterWithoutDigits),
        (5, .illegalCharacter 0x21), (7, .openString), (10, .openComment)] := by
    rw [Except.ok.inj (hstart.symm.trans (Scanner.start_eq_ok rfl))]
    decide +kernel
  have hlength := congrArg List.length hmalformed
  rw [List.length_map, ← hfaults] at hlength
  exact ⟨scanner, hstart, hfaults, hmalformed, hcount.trans hlength⟩

end PascalUnits
