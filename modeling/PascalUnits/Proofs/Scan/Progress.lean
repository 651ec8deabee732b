import PascalUnits.Proofs.Scan.GrammaticalRun
import PascalUnits.Proofs.Scan.Rescan

/-!
# A scan moves on until it is at the end for good

A token begins where the one before it ends or behind that, and it ends behind its own beginning
(`Scanner.offset_le_next`, `Scanner.offset_lt_next`). So the tokens of a trace lie one behind the
other (`Scanner.pairwise_trace`, `Scanner.pairwise_ends`), and there are no more of them than bytes.
A call that has met the end of the text leaves a scanner that does not change any more
(`Scanner.next_of_next_eof`). The main statement is `scan_ends_for_good`.
-/

namespace PascalUnits

namespace Scanner

variable {scanner : Scanner} {source : Bytes} {comments : Comments}

/-- A call hands out nothing that lies before the scanner. -/
theorem offset_le_next (comments : Comments) (scanner : Scanner) :
    scanner.offset ≤ (scanner.next comments).1.offset := by
  have hblanks (scanner : Scanner) : scanner.offset ≤ scanner.skipBlanks.offset :=
    Nat.le_add_right _ _
  fun_induction next comments scanner with
  | case1 scanner empty => exact hblanks scanner
  | case2 scanner first rest nonempty found skipped following ih =>
      exact Nat.le_trans (hblanks scanner) (Nat.le_trans (Nat.le_add_right _ _) ih)
  | case3 scanner first rest nonempty found kept => exact hblanks scanner

/-- A token ends behind its beginning, and there the scanner goes on. -/
theorem offset_lt_next (h : (scanner.next comments).1.token ≠ .eof) :
    (scanner.next comments).1.offset < (scanner.next comments).2.offset := by
  fun_induction next comments scanner with
  | case1 scanner empty => exact absurd rfl h
  | case2 scanner first rest nonempty found skipped following ih => exact ih h
  | case3 scanner first rest nonempty found kept =>
      exact Nat.lt_add_of_pos_right (Lexeme.read_size_pos _ _ _)

/-- So it is for each token of a trace. -/
theorem offset_lt_of_mem_trace : ∀ call ∈ scanner.trace comments, call.1.token ≠ .eof →
    call.1.offset < call.2.offset :=
  forall_mem_trace (fun _ => offset_lt_next) scanner

/-- What a trace hands out lies behind the scanner that begins it. -/
theorem offset_le_of_mem_trace {scanner : Scanner} {call : Scanned × Scanner}
    (h : call ∈ scanner.trace comments) : scanner.offset ≤ call.1.offset := by
  have hnext := offset_le_next comments scanner
  by_cases heof : (scanner.next comments).1.token = .eof
  · rw [trace_of_eof heof, List.mem_singleton] at h
    exact h ▸ hnext
  · rw [trace_of_ne_eof heof, List.mem_cons] at h
    rcases h with rfl | hlater
    · exact hnext
    · exact Nat.le_trans hnext
        (Nat.le_trans (Nat.le_of_lt (offset_lt_next heof)) (offset_le_of_mem_trace hlater))
termination_by scanner.rest.length
decreasing_by exact rest_length_lt comments scanner heof

/-- No call hands out anything that lies before the end of an earlier one. -/
theorem pairwise_trace (comments : Comments) (scanner : Scanner) :
    (scanner.trace comments).Pairwise fun earlier later =>
      earlier.2.offset ≤ later.1.offset := by
  by_cases heof : (scanner.next comments).1.token = .eof
  · rw [trace_of_eof heof]
    exact List.pairwise_singleton _ _
  · rw [trace_of_ne_eof heof]
    exact .cons (fun call hcall => offset_le_of_mem_trace hcall) (pairwise_trace comments _)
termination_by scanner.rest.length
decreasing_by exact rest_length_lt comments scanner heof

/-- Tokens at the front of a trace end one behind the other, and the first one ends behind the
scanner. -/
theorem pairwise_ends {calls later : List (Scanned × Scanner)}
    (htrace : scanner.trace comments = calls ++ later)
    (htokens : ∀ call ∈ calls, call.1.token ≠ .eof) :
    (scanner.offset :: calls.map (·.2.offset)).Pairwise (· < ·) := by
  have hmem : ∀ call ∈ calls, call ∈ scanner.trace comments := fun call hcall =>
    htrace ▸ List.mem_append_left later hcall
  have hends : ∀ call ∈ calls, call.1.offset < call.2.offset := fun call hcall =>
    offset_lt_of_mem_trace call (hmem call hcall) (htokens call hcall)
  have hordered := pairwise_trace comments scanner
  rw [htrace, List.pairwise_append] at hordered
  refine .cons (List.forall_mem_map.2 fun call hcall => ?_) (List.pairwise_map.2 ?_)
  · exact Nat.lt_of_le_of_lt (offset_le_of_mem_trace (hmem call hcall)) (hends call hcall)
  · exact hordered.1.imp_of_mem fun _ hlater hle => Nat.lt_of_le_of_lt hle (hends _ hlater)

/-- Up to the end of the text there is one call more than there are bytes, at most. -/
theorem length_trace_le (comments : Comments) (scanner : Scanner) :
    (scanner.trace comments).length ≤ scanner.rest.length + 1 := by
  by_cases heof : (scanner.next comments).1.token = .eof
  · rw [trace_of_eof heof]
    exact Nat.le_add_left _ _
  · have hless := rest_length_lt comments scanner heof
    have hlater := length_trace_le comments (scanner.next comments).2
    rw [trace_of_ne_eof heof, List.length_cons]
    omega
termination_by scanner.rest.length
decreasing_by exact rest_length_lt comments scanner heof

/-- Where nothing is left, there are no blanks to pass. -/
theorem skipBlanks_of_nil (h : scanner.rest = []) : scanner.skipBlanks = scanner := by
  rw [skipBlanks, advance, h]
  cases scanner
  cases h
  rfl

/-- After the end of the text, the next call meets it again, reports nothing and changes nothing. -/
theorem next_of_next_eof (h : (scanner.next comments).1.token = .eof) :
    (scanner.next comments).2.next comments =
      ({ (scanner.next comments).1 with diagnostics := [] }, (scanner.next comments).2) := by
  fun_induction next comments scanner with
  | case1 scanner empty =>
      have hskip : Scanner.skipBlanks { scanner.skipBlanks with previous := .eof } =
          { scanner.skipBlanks with previous := .eof } := skipBlanks_of_nil empty
      rw [next_of_nil (by rw [hskip]; exact empty), hskip]
  | case2 scanner first rest nonempty found skipped following ih => exact ih h
  | case3 scanner first rest nonempty found kept =>
      exact absurd h (Lexeme.read_spelled _ _ _).token_ne_eof

/-- Nor do any further calls. -/
theorem calls_of_next_eof (h : (scanner.next comments).1.token = .eof) (count : Nat) :
    (scanner.next comments).2.calls comments count =
      (List.replicate count
          ({ (scanner.next comments).1 with diagnostics := [] }, (scanner.next comments).2),
        (scanner.next comments).2) := by
  induction count with
  | zero => rfl
  | succ count ih => rw [calls, next_of_next_eof h, ih, List.replicate_succ]

end Scanner

/-- A scan moves on with every token until it is at the end for good, with comments or without them.
Each token ends behind the end of the one before it, and the first one behind the beginning, so
there are no more tokens than bytes before the end of the source is met. That is at the last
offset and has no literal. However many calls follow, each hands out the same end of the source,
reports nothing, and leaves the scanner as it is: its file with the lines found, and its count of
faults. -/
theorem scan_ends_for_good (name : String) (base : Nat) (source : Bytes) (comments : Comments) :
    ∃ scanner calls last,
      Scanner.start (.fresh name base source.length) source = .ok scanner ∧
      scanner.trace comments = calls ++ [last] ∧
      (∀ call ∈ calls, call.1.token ≠ .eof ∧ call.2.offset = call.1.stop) ∧
      (scanner.offset :: calls.map (·.1.stop)).Pairwise (· < ·) ∧
      calls.length ≤ source.length ∧
      last.1.token = .eof ∧ last.1.offset = source.length ∧ last.1.literal = [] ∧
      ∀ count, last.2.calls comments count =
        (List.replicate count ({ last.1 with diagnostics := [] }, last.2), last.2) := by
  have hsize : (SourceFile.fresh name base source.length).size = source.length := rfl
  obtain ⟨scanner, hstart, hstands, -⟩ := Scanner.start_stands hsize
  have hfollows : scanner.Follows source (some scanner.previous) := ⟨hstands, rfl⟩
  obtain ⟨calls, last, htrace, hlast, hoffset, hcalls⟩ := hfollows.trace comments
  have hcall : ∀ call ∈ calls, call.1.token ≠ .eof ∧ call.2.offset = call.1.stop := by
    intro call hmem
    obtain ⟨heof, hstop, -⟩ := hcalls.of_mem hmem
    exact ⟨heof, hstop⟩
  have hends := Scanner.pairwise_ends htrace fun call hmem => (hcall call hmem).1
  rw [List.map_congr_left fun call hmem => (hcall call hmem).2] at hends
  have hlength := Scanner.length_trace_le comments scanner
  rw [htrace, List.length_append, hstands.rest_eq, List.length_drop] at hlength
  have hmem : last ∈ scanner.trace comments := by simp [htrace]
  have hliteral : ∀ call ∈ scanner.trace comments, call.1.token = .eof → call.1.literal = [] :=
    Scanner.forall_mem_trace (fun _ => Scanner.literal_of_eof) scanner
  have hfinal : ∀ call ∈ scanner.trace comments, call.1.token = .eof → ∀ count,
      call.2.calls comments count =
        (List.replicate count ({ call.1 with diagnostics := [] }, call.2), call.2) :=
    Scanner.forall_mem_trace (fun _ => Scanner.calls_of_next_eof) scanner
  exact ⟨scanner, calls, last, hstart, htrace, hcall, hends,
    Nat.le_trans (Nat.le_of_succ_le_succ hlength) (Nat.sub_le _ _), hlast, hoffset,
    hliteral last hmem hlast, hfinal last hmem hlast⟩

end PascalUnits
