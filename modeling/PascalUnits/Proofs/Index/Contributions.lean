import PascalUnits.Index.Load
import PascalUnits.Proofs.Scan.Drain

/-!
# What each call of a scan contributes to the findings of a file

Reading a file makes the calls of a scan without comments, up to the end of the text or to too many
faults (`Source.calls`). Each contributes an event for each of its faults, and then what its token
is to an index. The findings of a file are these contributions in the order of the calls, with an
event behind them if the scan fails (`Source.fileFindings_eq`).
-/

namespace PascalUnits.Source

/-- The calls that are made of a source when it is read. -/
def calls (source : Bytes) : List (Scanned × Scanner) :=
  match Scanner.start (.fresh "" FileSet.empty.base source.length) source with
  | .error _ => []
  | .ok scanner => tolerated (scanner.trace .skipped)

/-- The event of a malformed token. -/
def faultFinding (path : String) (diagnostic : Diagnostic) : Finding :=
  .event (.malformedToken path diagnostic.position.display diagnostic.fault.message)

/-- What a token contributes in the given part of a unit. -/
def tokenFindings (follow : UnitPart → String → List Finding) (part : UnitPart) (token : Token)
    (literal : Bytes) : List Finding :=
  if token = .directive ∧ isInclude (Bytes.latin literal) then follow part (Bytes.latin literal)
  else if token = .identifier then [.mention part (Bytes.latin literal)]
  else []

/-- The part behind a token. -/
def partBehind (part : UnitPart) (token : Token) : UnitPart :=
  if token = .word .implementation then .implementation else part

/-- The part behind some calls. -/
def partBehindCalls (part : UnitPart) (calls : List (Scanned × Scanner)) : UnitPart :=
  calls.foldl (fun part call => partBehind part call.1.token) part

/-- What some calls contribute to the findings of the file at `path`. -/
def callFindings (follow : UnitPart → String → List Finding) (path : String) :
    UnitPart → List (Scanned × Scanner) → List Finding
  | _, [] => []
  | part, call :: calls =>
    call.1.diagnostics.map (faultFinding path) ++
      (tokenFindings follow part call.1.token call.1.literal ++
        callFindings follow path (partBehind part call.1.token) calls)

variable {follow : UnitPart → String → List Finding} {path : String} {part : UnitPart}

theorem callFindings_append (follow : UnitPart → String → List Finding) (path : String)
    (part : UnitPart) (calls others : List (Scanned × Scanner)) :
    callFindings follow path part (calls ++ others) =
      callFindings follow path part calls ++
        callFindings follow path (partBehindCalls part calls) others := by
  induction calls generalizing part with
  | nil => rfl
  | cons call calls ih =>
      simp only [List.cons_append, callFindings, ih, List.append_assoc]
      rfl

/-- Adding the events of faults one after the other adds them in their order. -/
theorem foldl_noteFault (path : String) (diagnostics : List Diagnostic) (progress : Progress) :
    diagnostics.foldl (fun progress diagnostic => noteFault path diagnostic progress) progress =
      progress.add (diagnostics.map (faultFinding path)) := by
  induction diagnostics generalizing progress with
  | nil => rfl
  | cons diagnostic diagnostics ih =>
      rw [List.foldl_cons, ih]
      simp [noteFault, Progress.add, faultFinding]

/-- A token adds what it contributes, and leads to the part behind it. -/
theorem noteToken_eq (follow : UnitPart → String → List Finding) (token : Token) (literal : Bytes)
    (progress : Progress) :
    noteToken follow token literal progress = .yield
      { part := partBehind progress.part token
        latestFirst :=
          (tokenFindings follow progress.part token literal).reverse ++ progress.latestFirst } := by
  rw [noteToken, partBehind, tokenFindings]
  split
  · rename_i hinclude
    simp [hinclude.1, Progress.add]
  · split
    · rename_i hword
      simp [hword]
    · split <;> simp [Progress.add]

/-- What has been found when the calls have been made. -/
theorem foldl_handed {follow : UnitPart → String → List Finding}
    {noted : Token → Bytes → Progress → Progress}
    (hnoted : ∀ token literal progress,
      noteToken follow token literal progress = .yield (noted token literal progress))
    (path : String) (calls : List (Scanned × Scanner)) (progress : Progress) :
    (calls.flatMap Handed.ofCall).foldl (Handed.apply (noteFault path) noted) progress =
      { part := partBehindCalls progress.part calls
        latestFirst :=
          (callFindings follow path progress.part calls).reverse ++ progress.latestFirst } := by
  induction calls generalizing progress with
  | nil => rfl
  | cons call calls ih =>
      have hcall := hnoted call.1.token call.1.literal
        (progress.add (call.1.diagnostics.map (faultFinding path)))
      rw [noteToken_eq] at hcall
      rw [List.flatMap_cons, List.foldl_append, Handed.foldl_ofCall, foldl_noteFault,
        ← ForInStep.yield.inj hcall, ih]
      simp [callFindings, partBehindCalls, Progress.add]

/-- What is found when the calls have been made: an event if there are too many faults. -/
def endFindings (path : String) (source : Bytes) : List Finding :=
  match verdict (Scanner.faults (calls source)).length with
  | .ok () => []
  | .error error => [.event (.scanAborted path error)]

/-- A scan ends with what its calls contribute, latest first, and fails if they find too many
faults. -/
theorem scan_findings (source : Bytes) (follow : UnitPart → String → List Finding)
    (path : String) (part : UnitPart) :
    scan source .skipped (noteFault path) (noteToken follow) { part } =
      ({ part := partBehindCalls part (calls source)
         latestFirst := (callFindings follow path part (calls source)).reverse },
        verdict (Scanner.faults (calls source)).length) := by
  obtain ⟨scanner, hstart, herrors⟩ : ∃ scanner : Scanner,
      Scanner.start (.fresh "" FileSet.empty.base source.length) source = .ok scanner ∧
      scanner.errorCount = 0 :=
    ⟨_, Scanner.start_eq_ok rfl, rfl⟩
  have hcalls : calls source = tolerated (scanner.trace .skipped) := by rw [calls, hstart]
  obtain ⟨noted, hnoted⟩ : ∃ noted : Token → Bytes → Progress → Progress,
      ∀ token literal progress,
        noteToken follow token literal progress = .yield (noted token literal progress) :=
    ⟨_, noteToken_eq follow⟩
  have hfun : noteToken follow = fun token literal progress =>
      .yield (noted token literal progress) :=
    funext fun _ => funext fun _ => funext fun _ => hnoted _ _ _
  rw [hcalls, scan, hstart, hfun]
  simp only [Scanner.drive_yield, foldl_handed hnoted, herrors, Nat.zero_add, List.append_nil]

/-- The findings of a file are what the calls contribute, and what is found at their end. -/
theorem fileFindings_eq {workspace : Workspace} {source : Bytes}
    (hread : workspace.read path = .ok source) (follow : UnitPart → String → List Finding)
    (part : UnitPart) :
    fileFindings workspace follow part path =
      callFindings follow path part (calls source) ++ endFindings path source := by
  cases hverdict : verdict (Scanner.faults (calls source)).length <;>
    simp [fileFindings, hread, scan_findings, endFindings, hverdict]

end PascalUnits.Source
