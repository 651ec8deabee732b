import PascalUnits.Proofs.Scan.Trace

/-!
# Comments are handed out or passed over

Whether comments are kept changes nothing else. Read `next_skipped_of_comment` first: where a
scanner that keeps comments hands one out, a scanner that skips them goes on and reports the faults
of the comment before those of the next token. So the calls of the two agree once the comments are
left out (`map_quiet_trace`), they report the same faults (`faults_trace_skipped`) and end alike
(`atEnd_skipped`). The main statement is `trace_skips_comments`.
-/

namespace PascalUnits

namespace Scanner

/-- A call apart from the faults that it reports. -/
def quiet (call : Scanned × Scanner) : Scanned × Scanner :=
  ({ call.1 with diagnostics := [] }, call.2)

/-- A call that reports other faults before its own. -/
def reporting (before : List Diagnostic) (call : Scanned × Scanner) : Scanned × Scanner :=
  ({ call.1 with diagnostics := before ++ call.1.diagnostics }, call.2)

variable {scanner : Scanner}

/-- A comment that is not handed out is passed over. Its faults are reported with the next token. -/
theorem next_skipped_of_comment (h : (scanner.next .kept).1.token = .comment) :
    scanner.next .skipped = reporting (scanner.next .kept).1.diagnostics
      ((scanner.next .kept).2.next .skipped) := by
  cases hrest : scanner.skipBlanks.rest with
  | nil =>
      rw [next_of_nil hrest] at h
      cases h
  | cons first rest =>
      rw [next_of_cons hrest fun _ => rfl] at h ⊢
      rw [next]
      split
      · rename_i hnil
        rw [hrest] at hnil
        cases hnil
      · rename_i other others hcons
        obtain ⟨rfl, rfl⟩ := List.cons.inj (hrest.symm.trans hcons)
        exact if_pos ⟨h, rfl⟩

/-- A call that meets no comment does the same in either mode. -/
theorem next_skipped_of_ne_comment (h : (scanner.next .kept).1.token ≠ .comment) :
    scanner.next .skipped = scanner.next .kept := by
  cases hrest : scanner.skipBlanks.rest with
  | nil => rw [next_of_nil hrest, next_of_nil hrest]
  | cons first rest =>
      rw [next_of_cons hrest fun _ => rfl] at h ⊢
      exact next_of_cons hrest fun hcomment => absurd hcomment h

/-- Where a comment is passed over, the further calls are those of the scanner behind it. -/
theorem trace_skipped_of_comment (h : (scanner.next .kept).1.token = .comment) :
    scanner.trace .skipped = ((scanner.next .kept).2.trace .skipped).modifyHead
      (reporting (scanner.next .kept).1.diagnostics) := by
  have hnext := next_skipped_of_comment h
  by_cases heof : ((scanner.next .kept).2.next .skipped).1.token = .eof
  · have heof' : (scanner.next .skipped).1.token = .eof := by rw [hnext]; exact heof
    rw [trace_of_eof heof, trace_of_eof heof', hnext]
    rfl
  · have heof' : (scanner.next .skipped).1.token ≠ .eof := by rw [hnext]; exact heof
    rw [trace_of_ne_eof heof, trace_of_ne_eof heof', hnext]
    rfl

/-- The scanner at the end of the text does not depend on who reports the faults. -/
theorem atEnd_skipped_of_comment (h : (scanner.next .kept).1.token = .comment) :
    scanner.atEnd .skipped = (scanner.next .kept).2.atEnd .skipped := by
  have hnext := next_skipped_of_comment h
  by_cases heof : ((scanner.next .kept).2.next .skipped).1.token = .eof
  · have heof' : (scanner.next .skipped).1.token = .eof := by rw [hnext]; exact heof
    rw [atEnd_of_eof heof, atEnd_of_eof heof', hnext]
    rfl
  · have heof' : (scanner.next .skipped).1.token ≠ .eof := by rw [hnext]; exact heof
    rw [atEnd_of_ne_eof heof, atEnd_of_ne_eof heof', hnext]
    rfl

/-- What a scanner that keeps comments meets next: the end of the text, a comment, or a token that
one that skips them meets as well. Induction goes by the text that is left. -/
theorem kept_induction {motive : Scanner → Prop}
    (eof : ∀ scanner : Scanner, (scanner.next .kept).1.token = .eof →
      scanner.next .skipped = scanner.next .kept → motive scanner)
    (comment : ∀ scanner : Scanner, (scanner.next .kept).1.token = .comment →
      motive (scanner.next .kept).2 → motive scanner)
    (other : ∀ scanner : Scanner, (scanner.next .kept).1.token ≠ .eof →
      (scanner.next .kept).1.token ≠ .comment → scanner.next .skipped = scanner.next .kept →
      motive (scanner.next .kept).2 → motive scanner)
    (scanner : Scanner) : motive scanner := by
  by_cases heof : (scanner.next .kept).1.token = .eof
  · exact eof scanner heof (next_skipped_of_ne_comment (by simp [heof]))
  · have ih := kept_induction eof comment other (scanner.next .kept).2
    by_cases hcomment : (scanner.next .kept).1.token = .comment
    · exact comment scanner hcomment ih
    · exact other scanner heof hcomment (next_skipped_of_ne_comment hcomment) ih
termination_by scanner.rest.length
decreasing_by exact rest_length_lt .kept scanner heof

/-- Faults apart, a scanner that skips comments does what one that keeps them does, less the
comments. -/
theorem map_quiet_trace (scanner : Scanner) :
    (scanner.trace .skipped).map quiet =
      ((scanner.trace .kept).filter (·.1.token ≠ .comment)).map quiet := by
  induction scanner using kept_induction with
  | eof scanner heof hnext =>
      rw [trace_of_eof heof, trace_of_eof (hnext ▸ heof), hnext]
      simp [heof]
  | comment scanner hcomment ih =>
      have hne : (scanner.next .kept).1.token ≠ .eof := by simp [hcomment]
      rw [trace_skipped_of_comment hcomment, trace_of_ne_eof hne,
        List.filter_cons_of_neg (by simp [hcomment]), ← ih]
      -- only the faults of the first call differ, and they do not show
      cases (scanner.next .kept).2.trace .skipped <;> rfl
  | other scanner heof hcomment hnext ih =>
      rw [trace_of_ne_eof heof, trace_of_ne_eof (hnext ▸ heof), hnext,
        List.filter_cons_of_pos (by simp [hcomment]), List.map_cons, List.map_cons, ih]

/-- Comments or not, the same faults are reported in the same order. -/
theorem faults_trace_skipped (scanner : Scanner) :
    faults (scanner.trace .skipped) = faults (scanner.trace .kept) := by
  induction scanner using kept_induction with
  | eof scanner heof hnext => rw [trace_of_eof heof, trace_of_eof (hnext ▸ heof), hnext]
  | comment scanner hcomment ih =>
      have hne : (scanner.next .kept).1.token ≠ .eof := by simp [hcomment]
      rw [trace_skipped_of_comment hcomment, trace_of_ne_eof hne, faults, faults, List.flatMap_cons]
      rw [faults, faults] at ih
      rw [← ih]
      -- the faults of the comment come first in the list, with whichever call they are reported
      cases htrace : (scanner.next .kept).2.trace .skipped with
      | nil => exact absurd htrace (trace_ne_nil _ _)
      | cons call rest => simp [reporting]
  | other scanner heof hcomment hnext ih =>
      rw [trace_of_ne_eof heof, trace_of_ne_eof (hnext ▸ heof), hnext]
      exact congrArg ((scanner.next .kept).1.diagnostics ++ ·) ih

/-- Comments or not, the scanner is the same at the end of the text. -/
theorem atEnd_skipped (scanner : Scanner) : scanner.atEnd .skipped = scanner.atEnd .kept := by
  induction scanner using kept_induction with
  | eof scanner heof hnext => rw [atEnd_of_eof heof, atEnd_of_eof (hnext ▸ heof), hnext]
  | comment scanner hcomment ih =>
      have hne : (scanner.next .kept).1.token ≠ .eof := by simp [hcomment]
      rw [atEnd_skipped_of_comment hcomment, atEnd_of_ne_eof hne, ih]
  | other scanner heof hcomment hnext ih =>
      rw [atEnd_of_ne_eof heof, atEnd_of_ne_eof (hnext ▸ heof), hnext, ih]

/-- What is handed out does not depend on the faults that are reported with it. -/
theorem placedTokens_map_quiet (calls : List (Scanned × Scanner)) :
    placedTokens (calls.map quiet) = placedTokens calls := by
  simp [placedTokens, quiet, placed, Function.comp_def]

end Scanner

/-- Whether comments are kept changes nothing but the comments. For every source, the tokens of a
scan up to the end that keeps comments are, less the comments, those of one that skips them, in the
same places. Both report the same faults in the same order, count as many of them, and find the same
lines. -/
theorem trace_skips_comments (name : String) (base : Nat) (source : Bytes) :
    ∃ scanner : Scanner,
      Scanner.start (.fresh name base source.length) source = .ok scanner ∧
      Scanner.placedTokens ((scanner.trace .kept).filter (·.1.token ≠ .comment)) =
        Scanner.placedTokens (scanner.trace .skipped) ∧
      Scanner.faults (scanner.trace .kept) = Scanner.faults (scanner.trace .skipped) ∧
      (scanner.atEnd .kept).errorCount = (scanner.atEnd .skipped).errorCount ∧
      (scanner.atEnd .kept).file.lineTable = (scanner.atEnd .skipped).file.lineTable := by
  have hsize : (SourceFile.fresh name base source.length).size = source.length := rfl
  obtain ⟨scanner, hstart, -, -⟩ := Scanner.start_stands hsize
  have hquiet := scanner.map_quiet_trace
  have hend := scanner.atEnd_skipped
  refine ⟨scanner, hstart, ?_, scanner.faults_trace_skipped.symm, ?_, ?_⟩
  · rw [← Scanner.placedTokens_map_quiet, ← hquiet, Scanner.placedTokens_map_quiet]
  · rw [hend]
  · rw [hend]

end PascalUnits
