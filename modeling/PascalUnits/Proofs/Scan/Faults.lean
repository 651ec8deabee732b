import PascalUnits.Proofs.Scan.Call
import PascalUnits.Proofs.Scan.LexemeFault
import PascalUnits.Proofs.Source.LineTable

/-!
# Where faults are reported

`Scanned.Reports` says what a scanner that keeps comments reports with a token: faults at the place
where the token begins, of a comment only that it is not closed, and nothing with the end of the
text. `reports_of_mem_run` says that of a whole run.
-/

namespace PascalUnits

namespace Scanned

/-- What a scanner that keeps comments reports with a token. -/
structure Reports (found : Scanned) : Prop where
  offset_eq : ∀ diagnostic ∈ found.diagnostics, diagnostic.position.offset = found.offset
  openComment : found.token = .comment →
    ∀ diagnostic ∈ found.diagnostics, diagnostic.fault = .openComment
  eof : found.token = .eof → found.diagnostics = []

end Scanned

namespace Scanner

variable {scanner : Scanner} {source : Bytes} {first : UInt8} {rest : Bytes}

theorem zero_mem_next_kept (hstarts : 0 ∈ scanner.file.starts)
    (hrest : scanner.skipBlanks.rest = first :: rest) :
    0 ∈ (scanner.next .kept).2.file.starts := by
  rw [file_next_kept hrest]
  exact SourceFile.zero_mem_addLines hstarts _ _

/-- One call reports faults where its token begins. -/
theorem reports_next_kept (hstarts : 0 ∈ scanner.file.starts) :
    (scanner.next .kept).1.Reports := by
  cases hrest : scanner.skipBlanks.rest with
  | nil =>
      rw [next_of_nil hrest]
      exact ⟨nofun, nofun, fun _ => rfl⟩
  | cons first rest =>
      have hlines := zero_mem_next_kept hstarts hrest
      rw [next_kept_of_cons hrest] at hlines ⊢
      refine ⟨?_, ?_, ?_⟩
      · intro diagnostic hdiagnostic
        obtain ⟨fault, -, rfl⟩ := List.mem_map.1 hdiagnostic
        exact SourceFile.offset_locate hlines _
      · intro hcomment diagnostic hdiagnostic
        obtain ⟨fault, hfault, rfl⟩ := List.mem_map.1 hdiagnostic
        exact Lexeme.fault_of_comment hcomment fault (Option.mem_toList.1 hfault)
      · intro heof
        exact absurd heof (Lexeme.read_spelled _ _ _).token_ne_eof

/-- So does every call of a run. -/
theorem reports_of_mem_run {scanner : Scanner} (hstarts : 0 ∈ scanner.file.starts) :
    ∀ found ∈ scanner.run .kept, found.Reports := by
  cases hrest : scanner.skipBlanks.rest with
  | nil =>
      have heof : (scanner.next .kept).1.token = .eof := by rw [next_of_nil hrest]
      rw [← map_fst_trace, trace_of_eof heof]
      exact List.forall_mem_singleton.2 (reports_next_kept hstarts)
  | cons first rest =>
      have hshorter := rest_length_lt .kept scanner (token_next_kept_ne_eof hrest)
      rw [run_kept_of_cons hrest]
      exact List.forall_mem_cons.2
        ⟨reports_next_kept hstarts, reports_of_mem_run (zero_mem_next_kept hstarts hrest)⟩
termination_by scanner.rest.length

end Scanner

end PascalUnits
