import PascalUnits.Proofs.Index.Expansion
import PascalUnits.Proofs.Scan.Unnamed

/-!
# Two ways to drain a scanner

`scan` hands tokens and faults to a consumer, `tokenize` makes a list of them. Both make the
tolerated calls and no others, so a consumer that never ends the scan is handed what is on the list
(`Scanner.drive_yield`, `Scanner.collect_eq`). Names of files show in places only
(`Scanner.withoutName_lawful`). The main statement, `tokenize_matches_scan`, says also where the two
part: both stop for too many faults, but `tokenize` does not look for them when it meets the end of
the text.
-/

namespace PascalUnits

/-- What a consumer of a scan is handed: a fault, or a token with its literal. -/
inductive Handed where
  | fault (diagnostic : Diagnostic)
  | token (token : Token) (literal : Bytes)

namespace Handed

variable {σ : Type}

/-- The state of a consumer that has been handed one thing more. -/
def apply (onError : Diagnostic → σ → σ) (onToken : Token → Bytes → σ → σ) (state : σ) :
    Handed → σ
  | .fault diagnostic => onError diagnostic state
  | .token kind literal => onToken kind literal state

/-- The fault, if it is one. -/
def fault? : Handed → Option Diagnostic
  | .fault diagnostic => some diagnostic
  | .token _ _ => none

/-- The token with its literal, if it is one. -/
def token? : Handed → Option (Token × Bytes)
  | .fault _ => none
  | .token kind literal => some (kind, literal)

/-- What a call hands out: its faults before its token. -/
def ofCall (call : Scanned × Scanner) : List Handed :=
  call.1.diagnostics.map .fault ++ [.token call.1.token call.1.literal]

theorem foldl_ofCall (onError : Diagnostic → σ → σ) (onToken : Token → Bytes → σ → σ)
    (call : Scanned × Scanner) (state : σ) :
    (ofCall call).foldl (apply onError onToken) state =
      onToken call.1.token call.1.literal
        (call.1.diagnostics.foldl (fun state diagnostic => onError diagnostic state) state) := by
  rw [ofCall, List.foldl_append, List.foldl_map]
  rfl

theorem filterMap_fault? (calls : List (Scanned × Scanner)) :
    (calls.flatMap ofCall).filterMap fault? = Scanner.faults calls := by
  rw [List.filterMap_flatMap]
  refine List.flatMap_congr fun call _ => ?_
  simp [ofCall, fault?, Function.comp_def]

theorem filterMap_token? (calls : List (Scanned × Scanner)) :
    (calls.flatMap ofCall).filterMap token? =
      calls.map fun call => (call.1.token, call.1.literal) := by
  rw [List.filterMap_flatMap, List.map_eq_flatMap]
  refine List.flatMap_congr fun call _ => ?_
  simp [ofCall, token?, Function.comp_def]

end Handed

/-- How a scan ends that has met `count` faults. -/
def verdict (count : Nat) : Except Error Unit :=
  if maxErrors < count then .error (.tooManyErrors count) else .ok ()

namespace Scanner

variable {σ : Type} {comments : Comments}

theorem faults_cons (call : Scanned × Scanner) (calls : List (Scanned × Scanner)) :
    faults (call :: calls) = call.1.diagnostics ++ faults calls :=
  List.flatMap_cons

/-- A call counts the faults that it reports. -/
theorem errorCount_next (comments : Comments) (scanner : Scanner) :
    (scanner.next comments).2.errorCount =
      scanner.errorCount + (scanner.next comments).1.diagnostics.length := by
  fun_induction next comments scanner with
  | case1 scanner empty => rfl
  | case2 scanner first rest nonempty found skipped following ih =>
      rw [ih, List.length_append, ← Nat.add_assoc]
      rfl
  | case3 scanner first rest nonempty found kept => rfl

/-- The calls that are tolerated end with the first one that meets the end of the text or has too
many faults. Induction goes by the calls before it. -/
theorem tolerated_induction (comments : Comments) {motive : Scanner → Prop}
    (last : ∀ scanner : Scanner,
      (scanner.next comments).1.token = .eof ∨ maxErrors < (scanner.next comments).2.errorCount →
      tolerated (scanner.trace comments) = [scanner.next comments] → motive scanner)
    (more : ∀ scanner : Scanner, (scanner.next comments).1.token ≠ .eof →
      ¬ maxErrors < (scanner.next comments).2.errorCount →
      tolerated (scanner.trace comments) =
        scanner.next comments :: tolerated ((scanner.next comments).2.trace comments) →
      motive (scanner.next comments).2 → motive scanner)
    (scanner : Scanner) : motive scanner := by
  by_cases heof : (scanner.next comments).1.token = .eof
  · refine last scanner (.inl heof) ?_
    rw [trace_of_eof heof, tolerated_cons]
    exact ite_self _
  · have htrace := trace_of_ne_eof heof
    by_cases hmany : maxErrors < (scanner.next comments).2.errorCount
    · exact last scanner (.inr hmany) (by rw [htrace, tolerated_cons, if_pos hmany])
    · exact more scanner heof hmany (by rw [htrace, tolerated_cons, if_neg hmany])
        (tolerated_induction comments last more _)
termination_by scanner.rest.length
decreasing_by exact rest_length_lt comments scanner heof

/-- Each of the calls but the last one meets neither the end nor too many faults. -/
theorem exists_tolerated (comments : Comments) (scanner : Scanner) :
    ∃ calls last, tolerated (scanner.trace comments) = calls ++ [last] ∧
      (∀ call ∈ calls, call.1.token ≠ .eof) ∧
      (last.1.token = .eof ∨ maxErrors < last.2.errorCount) ∧
      last.2.errorCount = scanner.errorCount + (faults (calls ++ [last])).length := by
  induction scanner using tolerated_induction comments with
  | last scanner hlast hcalls =>
      refine ⟨[], _, hcalls, List.forall_mem_nil _, hlast, ?_⟩
      rw [errorCount_next]
      simp [faults]
  | more scanner heof hfew hcalls ih =>
      obtain ⟨calls, last, htail, hne, hlast, hcount⟩ := ih
      refine ⟨_ :: calls, last, by rw [hcalls, htail]; rfl, List.forall_mem_cons.2 ⟨heof, hne⟩,
        hlast, ?_⟩
      rw [hcount, errorCount_next, List.cons_append, faults_cons, List.length_append,
        Nat.add_assoc]

/-- A consumer that never ends the scan is handed what the tolerated calls hand out. -/
theorem drive_yield (onError : Diagnostic → σ → σ) (onToken : Token → Bytes → σ → σ)
    (scanner : Scanner) (state : σ) :
    scanner.drive comments onError (fun token literal state => .yield (onToken token literal state))
        state =
      (((tolerated (scanner.trace comments)).flatMap Handed.ofCall).foldl
          (Handed.apply onError onToken) state,
        verdict (scanner.errorCount + (faults (tolerated (scanner.trace comments))).length)) := by
  induction scanner using tolerated_induction comments generalizing state with
  | last scanner hlast hcalls =>
      have hcount := errorCount_next comments scanner
      rw [drive, hcalls, faults_cons, List.flatMap_cons, List.foldl_append, Handed.foldl_ofCall]
      simp only [faults, List.flatMap_nil, List.append_nil, List.foldl_nil, ← hcount, verdict]
      split
      · rfl
      · rename_i hfew
        exact dif_pos (hlast.resolve_right hfew)
  | more scanner heof hfew hcalls ih =>
      have hcount := errorCount_next comments scanner
      rw [drive, hcalls, faults_cons, List.flatMap_cons, List.foldl_append, Handed.foldl_ofCall,
        List.length_append, ← Nat.add_assoc, ← hcount, ← ih]
      simp only [if_neg hfew, dif_neg heof]

/-- The list of tokens is that of the tolerated calls, without the end of the text. -/
theorem collect_eq (path : String) (comments : Comments) (scanner : Scanner) :
    scanner.collect path comments =
      { path
        tokens := ((tolerated (scanner.trace comments)).filter (·.1.token ≠ .eof)).map
          fun call => call.2.placed call.1
        diagnostics := faults (tolerated (scanner.trace comments))
        truncated := (tolerated (scanner.trace comments)).all (·.1.token ≠ .eof) } := by
  induction scanner using tolerated_induction comments with
  | last scanner hlast hcalls =>
      rw [collect, hcalls]
      by_cases heof : (scanner.next comments).1.token = .eof
      · simp [heof, faults]
      · simp [heof, hlast.resolve_left heof, faults]
  | more scanner heof hfew hcalls ih =>
      rw [collect, hcalls, faults_cons]
      simp only [dif_neg heof, if_neg hfew, ih]
      simp [heof]

/-- What is dropped from the list is the end of the text, where the calls come to it. -/
theorem tokens_collect (path : String) (comments : Comments) (scanner : Scanner) :
    (tolerated (scanner.trace comments)).map (fun call => (call.1.token, call.1.literal)) =
      (scanner.collect path comments).tokens.map (fun placed => (placed.token, placed.literal)) ++
        if (scanner.collect path comments).truncated then [] else [(.eof, [])] := by
  induction scanner using tolerated_induction comments with
  | last scanner hlast hcalls =>
      rw [collect_eq, hcalls]
      by_cases heof : (scanner.next comments).1.token = .eof
      · simp [heof, literal_of_eof heof]
      · simp [heof, placed]
  | more scanner heof hfew hcalls ih =>
      rw [collect_eq] at ih ⊢
      rw [hcalls, List.map_cons, ih, List.filter_cons_of_pos (by simpa using heof), List.all_cons,
        decide_eq_true heof, Bool.true_and]
      rfl

/-- The list is truncated if there are too many faults before the end of the text is met. -/
theorem truncated_collect (path : String) (comments : Comments) {scanner : Scanner}
    (herrors : scanner.errorCount = 0) :
    (scanner.collect path comments).truncated ↔
      maxErrors < (scanner.collect path comments).diagnostics.length ∧
        .eof ∉ (tolerated (scanner.trace comments)).map (·.1.token) := by
  obtain ⟨calls, last, hcalls, hne, hlast, hcount⟩ := scanner.exists_tolerated comments
  rw [herrors, Nat.zero_add] at hcount
  rw [collect_eq, hcalls]
  simp only [← hcount, List.mem_map, List.all_eq_true, decide_eq_true_eq, not_exists, not_and]
  refine ⟨fun hall => ⟨?_, hall⟩, fun h => h.2⟩
  exact hlast.resolve_left (hall last (by simp))

/-- A scanner that keeps comments reports nothing with the end of the text, so there are not too
many faults when it gets there. -/
theorem errorCount_le_of_eof {scanner : Scanner} (h : scanner.errorCount ≤ maxErrors) :
    ∀ call ∈ tolerated (scanner.trace .kept), call.1.token = .eof →
      call.2.errorCount ≤ maxErrors := by
  have hend : ∀ {scanner : Scanner}, scanner.errorCount ≤ maxErrors →
      (scanner.next .kept).1.token = .eof → (scanner.next .kept).2.errorCount ≤ maxErrors := by
    intro scanner h heof
    cases hrest : scanner.skipBlanks.rest with
    | nil => rwa [next_of_nil hrest]
    | cons first rest => exact absurd heof (token_next_kept_ne_eof hrest)
  induction scanner using tolerated_induction .kept with
  | last scanner hlast hcalls =>
      rw [hcalls]
      exact List.forall_mem_singleton.2 (hend h)
  | more scanner heof hfew hcalls ih =>
      rw [hcalls]
      exact List.forall_mem_cons.2 ⟨hend h, ih (Nat.le_of_not_lt hfew)⟩

/-- So the list is truncated if there are too many faults at all. -/
theorem truncated_collect_kept (path : String) {scanner : Scanner}
    (herrors : scanner.errorCount = 0) :
    (scanner.collect path .kept).truncated ↔
      maxErrors < (scanner.collect path .kept).diagnostics.length := by
  rw [truncated_collect path .kept herrors, and_iff_left_iff_imp]
  intro hmany hmem
  obtain ⟨call, hcall, heof⟩ := List.mem_map.1 hmem
  obtain ⟨calls, last, hcalls, hne, -, hcount⟩ := scanner.exists_tolerated .kept
  have hfew := errorCount_le_of_eof (herrors ▸ Nat.zero_le maxErrors) call hcall heof
  -- only the last of the calls meets the end
  rw [collect_eq, hcalls] at hmany
  rw [hcalls, List.mem_append, List.mem_singleton] at hcall
  obtain rfl := hcall.resolve_left fun hmem => hne call hmem heof
  rw [herrors, Nat.zero_add] at hcount
  exact absurd hmany (Nat.not_lt.2 (hcount ▸ hfew))

end Scanner

/-- The two ways to drain a scanner hand out the same. For every name, source and mode, a consumer
that never ends the scan is handed the tokens of the list, and behind them the end of the text if
the list is not truncated, and the faults of the list, though in a file without a name. The scan
fails if there are more than `maxErrors` of them. The list is truncated if moreover the scan does
not hand out the end of the text, which it never does with too many faults where comments are
kept. -/
theorem tokenize_matches_scan (name : String) (source : Bytes) (comments : Comments) :
    ∃ (found : FileTokens) (handed : List Handed),
      tokenize name source comments = .ok found ∧
      (∀ {σ : Type} (onError : Diagnostic → σ → σ) (onToken : Token → Bytes → σ → σ) (state : σ),
        scan source comments onError
            (fun token literal state => .yield (onToken token literal state)) state =
          (handed.foldl (Handed.apply onError onToken) state,
            verdict found.diagnostics.length)) ∧
      handed.filterMap Handed.fault? = found.diagnostics.map Diagnostic.unnamed ∧
      handed.filterMap Handed.token? =
        found.tokens.map (fun placed => (placed.token, placed.literal)) ++
          (if found.truncated then [] else [(.eof, [])]) ∧
      (found.truncated ↔ maxErrors < found.diagnostics.length ∧
        .eof ∉ (handed.filterMap Handed.token?).map (·.1)) ∧
      (comments = .kept → (found.truncated ↔ maxErrors < found.diagnostics.length)) := by
  obtain ⟨scanner, hstart, hunnamed, herrors⟩ : ∃ scanner : Scanner,
      Scanner.start (.fresh name FileSet.empty.base source.length) source = .ok scanner ∧
      Scanner.start (.fresh "" FileSet.empty.base source.length) source = .ok scanner.unnamed ∧
      scanner.errorCount = 0 :=
    ⟨_, Scanner.start_eq_ok rfl, Scanner.start_eq_ok rfl, rfl⟩
  have hcalls : tolerated (scanner.unnamed.trace comments) =
      (tolerated (scanner.trace comments)).map Scanner.withoutName.call :=
    Scanner.withoutName_lawful.tolerated comments scanner
  have htokens : (((tolerated (scanner.unnamed.trace comments)).flatMap
      Handed.ofCall).filterMap Handed.token?) =
      (tolerated (scanner.trace comments)).map fun call => (call.1.token, call.1.literal) := by
    rw [Handed.filterMap_token?, hcalls, List.map_map]
    rfl
  have hfaults : Scanner.faults (tolerated (scanner.unnamed.trace comments)) =
      (scanner.collect name comments).diagnostics.map Diagnostic.unnamed := by
    rw [hcalls, Scanner.collect_eq, Scanner.faults, Scanner.faults,
      List.flatMap_map, List.map_flatMap]
    rfl
  refine ⟨scanner.collect name comments,
    (tolerated (scanner.unnamed.trace comments)).flatMap Handed.ofCall, ?_, ?_, ?_, ?_, ?_, ?_⟩
  · rw [tokenize, hstart]
    rfl
  · intro σ onError onToken state
    have hcount : scanner.unnamed.errorCount = 0 := herrors
    rw [scan, hunnamed]
    simp only [Scanner.drive_yield, hcount, hfaults, List.length_map, Nat.zero_add]
  · rw [Handed.filterMap_fault?, hfaults]
  · rw [htokens, Scanner.tokens_collect name]
  · rw [htokens, List.map_map]
    exact Scanner.truncated_collect name comments herrors
  · rintro rfl
    exact Scanner.truncated_collect_kept name herrors

/-- Where comments are passed over, one that is not closed may be the fault too many, met with the
end of the text. The scan fails then, and the list is not truncated. -/
theorem tokenize_misses_last_fault :
    let source := Bytes.ofText "!!!!!!!!!!\x7b"
    ∃ found, tokenize "t.pas" source .skipped = .ok found ∧
      maxErrors < found.diagnostics.length ∧ found.truncated = false ∧
      (scan source .skipped (fun _ count => count) (fun _ _ count => .yield count) 0).2 =
        .error (.tooManyErrors found.diagnostics.length) := by
  intro source
  have htokenize : (tokenize "t.pas" source .skipped).toOption.map
      (fun found => (found.diagnostics.length, found.truncated)) = some (11, false) := by
    decide +kernel
  have hscan : (scan source .skipped (fun _ count => count) (fun _ _ count => .yield count) 0).2 =
      .error (.tooManyErrors 11) := by
    decide +kernel
  obtain ⟨found, hfound, heq⟩ := Option.map_eq_some_iff.1 htokenize
  obtain ⟨hlength, htruncated⟩ := Prod.mk.inj heq
  cases hresult : tokenize "t.pas" source .skipped with
  | error error =>
      rw [hresult] at hfound
      cases hfound
  | ok other =>
      rw [hresult] at hfound
      obtain rfl := Option.some.inj hfound
      exact ⟨other, rfl, by rw [hlength]; decide, htruncated, by rw [hlength, hscan]⟩

end PascalUnits
