import PascalUnits.Proofs.Index.Expansion
import PascalUnits.Proofs.Scan.Comments

/-!
# Scanners that are seen another way

A `Scanner.View` says how scanners are seen, and with them the text of tokens and the faults. If a
scanner that keeps comments makes the calls as they are seen (`View.Lawful`), so does one that
passes over them (`Lawful.next`), and all calls up to the end of the text or to too many faults are
those of the scanner, as they are seen (`Lawful.trace`, `Lawful.tolerated`).
-/

namespace PascalUnits.Scanner

/-- A way to see scanners, and with them the text of tokens and the faults. -/
structure View where
  scanner : Scanner → Scanner
  literal : Bytes → Bytes := id
  diagnostic : Diagnostic → Diagnostic := id

namespace View

/-- A call as it is seen. -/
def call (view : View) (call : Scanned × Scanner) : Scanned × Scanner :=
  ({ call.1 with
     literal := view.literal call.1.literal
     diagnostics := call.1.diagnostics.map view.diagnostic },
   view.scanner call.2)

/-- Scanners that keep comments make their calls as these are seen, and count faults alike. -/
structure Lawful (view : View) : Prop where
  next_kept : ∀ scanner, (view.scanner scanner).next .kept = view.call (scanner.next .kept)
  errorCount_eq : ∀ scanner, (view.scanner scanner).errorCount = scanner.errorCount

variable {view : View}

/-- Faults that are reported before others are seen before them. -/
theorem call_reporting (view : View) (before : List Diagnostic) (call : Scanned × Scanner) :
    view.call (reporting before call) =
      reporting (before.map view.diagnostic) (view.call call) := by
  rw [View.call, reporting, reporting, View.call, List.map_append]

namespace Lawful

variable (h : view.Lawful)

include h

/-- So do scanners that pass over comments. -/
theorem next_skipped (scanner : Scanner) :
    (view.scanner scanner).next .skipped = view.call (scanner.next .skipped) := by
  have hseen : ∀ scanner, (scanner.next .kept).1.token ≠ .comment →
      (view.scanner scanner).next .skipped = (view.scanner scanner).next .kept := by
    intro scanner hcomment
    refine next_skipped_of_ne_comment ?_
    rwa [h.next_kept]
  induction scanner using kept_induction with
  | eof scanner heof hnext =>
      rw [hseen scanner (by simp [heof]), h.next_kept, hnext]
  | comment scanner hcomment ih =>
      have hkept := h.next_kept scanner
      have hview : ((view.scanner scanner).next .kept).1.token = .comment := by rwa [hkept]
      rw [next_skipped_of_comment hcomment, next_skipped_of_comment hview, call_reporting, ← ih,
        hkept]
      rfl
  | other scanner _ hcomment hnext _ =>
      rw [hseen scanner hcomment, h.next_kept, hnext]

theorem next (comments : Comments) (scanner : Scanner) :
    (view.scanner scanner).next comments = view.call (scanner.next comments) := by
  cases comments with
  | kept => exact h.next_kept scanner
  | skipped => exact h.next_skipped scanner

/-- The calls up to the end of the text are made as they are seen. -/
theorem trace (comments : Comments) (scanner : Scanner) :
    (view.scanner scanner).trace comments = (scanner.trace comments).map view.call := by
  have hnext := h.next comments scanner
  by_cases heof : (scanner.next comments).1.token = .eof
  · have hview : ((view.scanner scanner).next comments).1.token = .eof := by rwa [hnext]
    rw [trace_of_eof heof, trace_of_eof hview, hnext]
    rfl
  · have hview : ((view.scanner scanner).next comments).1.token ≠ .eof := by rwa [hnext]
    rw [trace_of_ne_eof heof, trace_of_ne_eof hview, hnext, List.map_cons, ← trace]
    rfl
termination_by scanner.rest.length
decreasing_by exact rest_length_lt comments scanner heof

/-- So the scanner at the end of the text is seen there. -/
theorem atEnd (comments : Comments) (scanner : Scanner) :
    (view.scanner scanner).atEnd comments = view.scanner (scanner.atEnd comments) := by
  simp only [Scanner.atEnd, h.trace, List.getLast_map, call]

/-- So are those up to too many faults. -/
theorem tolerated (comments : Comments) (scanner : Scanner) :
    PascalUnits.tolerated ((view.scanner scanner).trace comments) =
      (PascalUnits.tolerated (scanner.trace comments)).map view.call := by
  have hmany : (fun call : Scanned × Scanner => decide (maxErrors < call.2.errorCount)) ∘
      view.call = fun call => decide (maxErrors < call.2.errorCount) := by
    funext call
    simp only [Function.comp_apply, View.call, h.errorCount_eq]
  rw [h.trace, PascalUnits.tolerated, PascalUnits.tolerated, List.findIdx_map, hmany, List.map_take]

end Lawful

end View

end PascalUnits.Scanner
