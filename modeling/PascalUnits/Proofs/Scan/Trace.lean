import PascalUnits.Proofs.Scan.Run
import PascalUnits.Scan.Tokenize

/-!
# What a scanner hands out and what it leaves behind

`Scanner.trace` lists the calls up to the first end of the text, each with the scanner that it
leaves, so that it says more than a run (`map_fst_trace`). `placedTokens` and `faults` read off what
a user of the scanner sees: the tokens in the places that they have when they are handed out, and
the faults in order. `atEnd` is the scanner that is left when the text is at its end.
-/

namespace PascalUnits

namespace Scanner

/-- The calls from here on, up to the one that meets the first end of the text: what each of them
hands out, and the scanner after it. -/
def trace (comments : Comments) (scanner : Scanner) : List (Scanned × Scanner) :=
  let found := scanner.next comments
  if _ : found.1.token = .eof then [found] else found :: trace comments found.2
termination_by scanner.rest.length
decreasing_by exact rest_length_lt comments scanner ‹_›

/-- What the calls hand out: the offsets of the tokens, and the tokens in the places that they have
right after each call. -/
def placedTokens (calls : List (Scanned × Scanner)) : List (Nat × PlacedToken) :=
  calls.map fun call => (call.1.offset, call.2.placed call.1)

/-- The faults that the calls report, in order. -/
def faults (calls : List (Scanned × Scanner)) : List Diagnostic :=
  calls.flatMap (·.1.diagnostics)

variable {scanner : Scanner} {comments : Comments}

/-- The call that meets the end of the text is the last one. -/
theorem trace_of_eof (h : (scanner.next comments).1.token = .eof) :
    scanner.trace comments = [scanner.next comments] := by
  rw [trace]
  exact dif_pos h

/-- A call that hands out another token is followed by the calls of the scanner after it. -/
theorem trace_of_ne_eof (h : (scanner.next comments).1.token ≠ .eof) :
    scanner.trace comments =
      scanner.next comments :: (scanner.next comments).2.trace comments := by
  rw [trace]
  exact dif_neg h

/-- A trace says what is handed out, and more. -/
theorem map_fst_trace (comments : Comments) (scanner : Scanner) :
    (scanner.trace comments).map (·.1) = scanner.run comments := by
  fun_induction trace comments scanner with
  | case1 scanner found heof =>
      have heof' : (scanner.next comments).1.token = .eof := heof
      rw [run, dif_pos heof']
      rfl
  | case2 scanner found hne ih =>
      have hne' : (scanner.next comments).1.token ≠ .eof := hne
      rw [run, dif_neg hne', List.map_cons, ih]

theorem trace_ne_nil (comments : Comments) (scanner : Scanner) : scanner.trace comments ≠ [] := by
  by_cases h : (scanner.next comments).1.token = .eof
  · simp [trace_of_eof h]
  · simp [trace_of_ne_eof h]

/-- The scanner after the call that meets the first end of the text. -/
def atEnd (comments : Comments) (scanner : Scanner) : Scanner :=
  ((scanner.trace comments).getLast (trace_ne_nil comments scanner)).2

theorem atEnd_of_eof (h : (scanner.next comments).1.token = .eof) :
    scanner.atEnd comments = (scanner.next comments).2 := by
  simp [atEnd, trace_of_eof h]

theorem atEnd_of_ne_eof (h : (scanner.next comments).1.token ≠ .eof) :
    scanner.atEnd comments = (scanner.next comments).2.atEnd comments := by
  simp [atEnd, trace_of_ne_eof h, List.getLast_cons (trace_ne_nil comments _)]

/-- What holds of every call holds of the calls of a trace. -/
theorem forall_mem_trace {holds : Scanned × Scanner → Prop}
    (hnext : ∀ scanner : Scanner, holds (scanner.next comments)) (scanner : Scanner) :
    ∀ call ∈ scanner.trace comments, holds call := by
  fun_induction trace comments scanner with
  | case1 scanner found => simpa using hnext scanner
  | case2 scanner found _ ih => exact List.forall_mem_cons.2 ⟨hnext scanner, ih⟩

/-- The end of the text has no literal. -/
theorem literal_of_eof (h : (scanner.next comments).1.token = .eof) :
    (scanner.next comments).1.literal = [] := by
  fun_induction next comments scanner with
  | case1 scanner empty => rfl
  | case2 scanner first rest nonempty found skipped following ih => exact ih h
  | case3 scanner first rest nonempty found kept =>
      exact absurd h (Lexeme.read_spelled _ _ _).token_ne_eof

/-- A call takes no fault back. -/
theorem errorCount_next_le (comments : Comments) (scanner : Scanner) :
    scanner.errorCount ≤ (scanner.next comments).2.errorCount := by
  fun_induction next comments scanner with
  | case1 scanner empty => exact Nat.le_refl _
  | case2 scanner first rest nonempty found skipped following ih =>
      exact Nat.le_trans (Nat.le_add_right _ _) ih
  | case3 scanner first rest nonempty found kept => exact Nat.le_add_right _ _

/-- Nor do the calls up to the end of the text. -/
theorem errorCount_le_atEnd (comments : Comments) (scanner : Scanner) :
    scanner.errorCount ≤ (scanner.atEnd comments).errorCount := by
  have hnext := errorCount_next_le comments scanner
  by_cases heof : (scanner.next comments).1.token = .eof
  · rw [atEnd_of_eof heof]
    exact hnext
  · rw [atEnd_of_ne_eof heof]
    exact Nat.le_trans hnext (errorCount_le_atEnd comments _)
termination_by scanner.rest.length
decreasing_by exact rest_length_lt comments scanner heof

/-- The faults up to a call are among those up to the end of the text. -/
theorem errorCount_le_of_mem {scanner : Scanner} {call : Scanned × Scanner}
    (h : call ∈ scanner.trace comments) :
    call.2.errorCount ≤ (scanner.atEnd comments).errorCount := by
  by_cases heof : (scanner.next comments).1.token = .eof
  · rw [trace_of_eof heof, List.mem_singleton] at h
    exact Nat.le_of_eq (by rw [atEnd_of_eof heof, h])
  · rw [trace_of_ne_eof heof, List.mem_cons] at h
    rw [atEnd_of_ne_eof heof]
    rcases h with rfl | hrest
    · exact errorCount_le_atEnd comments _
    · exact errorCount_le_of_mem hrest
termination_by scanner.rest.length
decreasing_by exact rest_length_lt comments scanner heof

/-- Scanners that only differ in the blanks before the next token do the same. -/
theorem next_congr {other : Scanner} (h : other.skipBlanks = scanner.skipBlanks) :
    other.next comments = scanner.next comments := by
  rw [next, h, ← next]

theorem trace_congr {other : Scanner} (h : other.skipBlanks = scanner.skipBlanks) :
    other.trace comments = scanner.trace comments := by
  rw [trace, next_congr h, ← trace]

end Scanner

end PascalUnits
