import PascalUnits.Proofs.Scan.Malformed

/-!
# A scan delivers the beginning of a trace

`Scanner.drive` hands out the calls of a trace one by one, and the consumer answers each of them.
Read `Goes` and `Ends` first: all calls but the last one are answered with going on, and none of
them has to end the scan; the last one ends it, for the first of three reasons that applies. One
call does either (`Scanner.ends_or_goes`), and `Scanner.drive_delivers` puts the calls together. No
call counts two faults, so a scan that fails has met one fault too many and no more. The main
statement is `scan_delivers_prefix`.
-/

namespace PascalUnits

section Consumer

variable {σ : Type} (onError : Diagnostic → σ → σ) (onToken : Token → Bytes → σ → ForInStep σ)

/-- What a consumer answers to a call: it is handed the faults and then the token. -/
def answer (call : Scanned × Scanner) (state : σ) : ForInStep σ :=
  onToken call.1.token call.1.literal
    (call.1.diagnostics.foldl (fun state diagnostic => onError diagnostic state) state)

/-- The consumer goes on after each of the calls, none of which ends the scan by itself, and comes
from one state to another. -/
inductive Goes : List (Scanned × Scanner) → σ → σ → Prop
  | nil (state : σ) : Goes [] state state
  | cons {call : Scanned × Scanner} {calls : List (Scanned × Scanner)} {state between after : σ}
      (hanswer : answer onError onToken call state = .yield between)
      (hfew : call.2.errorCount ≤ maxErrors) (htoken : call.1.token ≠ .eof)
      (hcalls : Goes calls between after) : Goes (call :: calls) state after

/-- Why a scan ends with a call, and what comes of it. What the consumer says counts before the
number of faults, and that before the end of the text. -/
inductive Ends (call : Scanned × Scanner) (state after : σ) : Except Error Unit → Prop
  | broken (hanswer : answer onError onToken call state = .done after) :
      Ends call state after (.ok ())
  | tooMany (hanswer : answer onError onToken call state = .yield after)
      (hmany : call.2.errorCount = maxErrors + 1) :
      Ends call state after (.error (.tooManyErrors (maxErrors + 1)))
  | eof (hanswer : answer onError onToken call state = .yield after)
      (hfew : call.2.errorCount ≤ maxErrors) (htoken : call.1.token = .eof) :
      Ends call state after (.ok ())

end Consumer

namespace Scanner

variable {σ : Type} {comments : Comments}

section Step

variable {scanner : Scanner} {onError : Diagnostic → σ → σ}
  {onToken : Token → Bytes → σ → ForInStep σ} {state between after : σ}

/-- Handing out one call is asking for the answer to it. -/
theorem drive_eq_answer (comments : Comments) (onError : Diagnostic → σ → σ)
    (onToken : Token → Bytes → σ → ForInStep σ) (scanner : Scanner) (state : σ) :
    scanner.drive comments onError onToken state =
      match answer onError onToken (scanner.next comments) state with
      | .done state => (state, .ok ())
      | .yield state =>
        if maxErrors < (scanner.next comments).2.errorCount then
          (state, .error (.tooManyErrors (scanner.next comments).2.errorCount))
        else if (scanner.next comments).1.token = .eof then (state, .ok ())
        else (scanner.next comments).2.drive comments onError onToken state := by
  rw [drive]
  rfl

/-- A call that ends the scan is the last one. -/
theorem drive_of_ends {result : Except Error Unit}
    (h : Ends onError onToken (scanner.next comments) state after result) :
    scanner.drive comments onError onToken state = (after, result) := by
  rw [drive_eq_answer]
  cases h with
  | broken hanswer => rw [hanswer]
  | tooMany hanswer hmany =>
      rw [hanswer, hmany]
      exact if_pos (Nat.lt_succ_self maxErrors)
  | eof hanswer hfew htoken =>
      rw [hanswer]
      exact (if_neg hfew.not_gt).trans (if_pos htoken)

/-- After another call the scan goes on. -/
theorem drive_of_goes
    (hanswer : answer onError onToken (scanner.next comments) state = .yield between)
    (hfew : (scanner.next comments).2.errorCount ≤ maxErrors)
    (htoken : (scanner.next comments).1.token ≠ .eof) :
    scanner.drive comments onError onToken state =
      (scanner.next comments).2.drive comments onError onToken between := by
  rw [drive_eq_answer, hanswer]
  exact (if_neg hfew.not_gt).trans (if_neg htoken)

/-- A call after few faults leaves one too many at most. -/
theorem errorCount_next_le_succ (comments : Comments) (h : scanner.errorCount ≤ maxErrors) :
    (scanner.next comments).2.errorCount ≤ maxErrors + 1 := by
  rw [errorCount_next]
  exact Nat.add_le_add h (length_diagnostics_le comments scanner)

/-- Such a call ends the scan, or it is answered with going on and is not the last one. -/
theorem ends_or_goes (comments : Comments) (onError : Diagnostic → σ → σ)
    (onToken : Token → Bytes → σ → ForInStep σ) (state : σ) (h : scanner.errorCount ≤ maxErrors) :
    (∃ after result, Ends onError onToken (scanner.next comments) state after result) ∨
      ∃ between, answer onError onToken (scanner.next comments) state = .yield between ∧
        (scanner.next comments).2.errorCount ≤ maxErrors ∧
        (scanner.next comments).1.token ≠ .eof := by
  have hnext := errorCount_next_le_succ comments h
  cases hanswer : answer onError onToken (scanner.next comments) state with
  | done after => exact .inl ⟨after, _, .broken hanswer⟩
  | yield after =>
      by_cases hmany : (scanner.next comments).2.errorCount = maxErrors + 1
      · exact .inl ⟨after, _, .tooMany hanswer hmany⟩
      · have hfew : (scanner.next comments).2.errorCount ≤ maxErrors :=
          Nat.le_of_lt_succ (Nat.lt_of_le_of_ne hnext hmany)
        by_cases htoken : (scanner.next comments).1.token = .eof
        · exact .inl ⟨after, _, .eof hanswer hfew htoken⟩
        · exact .inr ⟨after, rfl, hfew, htoken⟩

end Step

/-- A trace begins with the next call. -/
theorem exists_trace_eq_cons (comments : Comments) (scanner : Scanner) :
    ∃ later, scanner.trace comments = scanner.next comments :: later := by
  by_cases heof : (scanner.next comments).1.token = .eof
  · exact ⟨[], trace_of_eof heof⟩
  · exact ⟨_, trace_of_ne_eof heof⟩

/-- A scanner that has met few faults delivers the calls of its trace up to the one that ends the
scan. Induction goes by the text that is left. -/
theorem drive_delivers (onError : Diagnostic → σ → σ)
    (onToken : Token → Bytes → σ → ForInStep σ) (scanner : Scanner)
    (h : scanner.errorCount ≤ maxErrors) (state : σ) :
    ∃ earlier last later between after result,
      scanner.trace comments = earlier ++ last :: later ∧
      Goes onError onToken earlier state between ∧
      Ends onError onToken last between after result ∧
      scanner.drive comments onError onToken state = (after, result) ∧
      last.2.errorCount = scanner.errorCount + (faults (earlier ++ [last])).length ∧
      last.2.errorCount ≤ maxErrors + 1 := by
  have hcount := errorCount_next comments scanner
  rcases ends_or_goes comments onError onToken state h with
    ⟨after, result, hends⟩ | ⟨between, hanswer, hfew, htoken⟩
  · obtain ⟨later, htrace⟩ := exists_trace_eq_cons comments scanner
    refine ⟨[], _, later, state, after, result, htrace, .nil state, hends, drive_of_ends hends,
      by simp [hcount, faults], errorCount_next_le_succ comments h⟩
  · obtain ⟨earlier, last, later, before, after, result, htrace, hgoes, hends, hdrive, hsum, hle⟩ :=
      drive_delivers onError onToken (scanner.next comments).2 hfew between
    refine ⟨_ :: earlier, last, later, before, after, result, ?_,
      .cons hanswer hfew htoken hgoes, hends, ?_, ?_, hle⟩
    · rw [trace_of_ne_eof htoken, htrace, List.cons_append]
    · rw [drive_of_goes hanswer hfew htoken, hdrive]
    · rw [hsum, hcount, List.cons_append, faults_cons, List.length_append, Nat.add_assoc]
termination_by scanner.rest.length
decreasing_by exact rest_length_lt comments scanner htoken

end Scanner

/-- A scan delivers a beginning of the trace of its source to the consumer, and no more. All calls
up to the last one delivered are answered with going on; the last one ends the scan, because the
consumer says so, or else because there is one fault too many after it, or else because it meets the
end of the text. The scan fails in the second case only, always with the same number. That many
faults are handed out at most: as many as there are in the calls that are delivered. -/
theorem scan_delivers_prefix {σ : Type} (source : Bytes) (comments : Comments)
    (onError : Diagnostic → σ → σ) (onToken : Token → Bytes → σ → ForInStep σ) (state : σ) :
    ∃ scanner earlier last later between after result,
      Scanner.start (.fresh "" FileSet.empty.base source.length) source = .ok scanner ∧
      scanner.trace comments = earlier ++ last :: later ∧
      Goes onError onToken earlier state between ∧
      Ends onError onToken last between after result ∧
      scan source comments onError onToken state = (after, result) ∧
      last.2.errorCount = (Scanner.faults (earlier ++ [last])).length ∧
      last.2.errorCount ≤ maxErrors + 1 := by
  obtain ⟨scanner, hstart, herrors⟩ : ∃ scanner,
      Scanner.start (.fresh "" FileSet.empty.base source.length) source = .ok scanner ∧
      scanner.errorCount = 0 :=
    ⟨_, Scanner.start_eq_ok rfl, rfl⟩
  obtain ⟨earlier, last, later, between, after, result, htrace, hgoes, hends, hdrive, hsum, hle⟩ :=
    scanner.drive_delivers onError onToken (herrors ▸ Nat.zero_le maxErrors) state
  refine ⟨scanner, earlier, last, later, between, after, result, hstart, htrace, hgoes, hends, ?_,
    ?_, hle⟩
  · rw [scan, hstart]
    exact hdrive
  · rw [hsum, herrors, Nat.zero_add]

end PascalUnits
