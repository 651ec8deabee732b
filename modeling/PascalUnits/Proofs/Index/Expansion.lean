import PascalUnits.Proofs.Index.Load
import PascalUnits.Proofs.Scan.Trace

/-!
# Include files in the place of directives

`Expands` says which identifiers, each with the part of the unit it stands in, are met in the tokens
of a file when every include directive that is followed has the tokens of its file in its place.
`expands_iff` says that the identifiers found in a source are these and no others. The main
statement, `load_records_expansion`, says what loading a unit records of them. The tokens of a file
are those that a scan hands out before it has met too many faults (`delivered_eq`).
-/

namespace PascalUnits

/-- The calls up to the first one after which there are more faults than a scan puts up with. -/
def tolerated (calls : List (Scanned × Scanner)) : List (Scanned × Scanner) :=
  calls.take (calls.findIdx (fun call => maxErrors < call.2.errorCount) + 1)

theorem tolerated_cons (call : Scanned × Scanner) (calls : List (Scanned × Scanner)) :
    tolerated (call :: calls) =
      if maxErrors < call.2.errorCount then [call] else call :: tolerated calls := by
  rw [tolerated, List.findIdx_cons]
  by_cases hmany : maxErrors < call.2.errorCount
  · simp [hmany]
  · simp [hmany, tolerated]

/-- What is recorded of a drive are the tokens of the calls up to too many faults. -/
theorem drive_record_eq (comments : Comments) (scanner : Scanner) :
    (scanner.drive comments (fun _ tokens => tokens) record []).1 =
      (tolerated (scanner.trace comments)).map fun call => (call.1.token, call.1.literal) := by
  rw [Scanner.drive]
  simp only [record_errors, record, List.nil_append]
  by_cases heof : (scanner.next comments).1.token = .eof
  · rw [Scanner.trace_of_eof heof, tolerated_cons]
    by_cases hmany : maxErrors < (scanner.next comments).2.errorCount
    · simp only [if_pos hmany, List.map_singleton]
    · simp only [if_neg hmany, dif_pos heof]
      rfl
  · rw [Scanner.trace_of_ne_eof heof, tolerated_cons]
    by_cases hmany : maxErrors < (scanner.next comments).2.errorCount
    · simp only [if_pos hmany, List.map_singleton]
    · simp only [if_neg hmany, dif_neg heof]
      rw [← List.append_nil [(_, _)], drive_record, drive_record_eq]
      rfl
termination_by scanner.rest.length
decreasing_by exact Scanner.rest_length_lt comments scanner heof

/-- A scan delivers the tokens up to the end of the text or to too many faults. -/
theorem delivered_eq (source : Bytes) :
    ∃ scanner : Scanner,
      Scanner.start (.fresh "" FileSet.empty.base source.length) source = .ok scanner ∧
      delivered source =
        (tolerated (scanner.trace .skipped)).map fun call => (call.1.token, call.1.literal) := by
  obtain ⟨scanner, hstart⟩ : ∃ scanner,
      Scanner.start (.fresh "" FileSet.empty.base source.length) source = .ok scanner :=
    ⟨_, if_pos rfl⟩
  refine ⟨scanner, hstart, ?_⟩
  rw [← drive_record_eq, delivered, scan, hstart]

namespace Source

/-- The tokens of the file at `path`, with their literals. There are none if it cannot be read. -/
def tokens (workspace : Workspace) (path : String) : List (Token × Bytes) :=
  match workspace.read path with
  | .error _ => []
  | .ok source => delivered source

/-- A directive at the given depth has the text of `file` in its place. -/
structure Includes (includes : NameTable String) (limit depth : Nat) (directive file : String) :
    Prop where
  isInclude : isInclude directive
  depth_lt : depth < limit
  registered : includes.find? (UnitName.ofPath (includeName directive)) = some file

/-- The identifiers that are met from a place on in a file, which is in the given part of the unit
and as deep in include files as `depth` says. An include file begins in the part in which its
directive stands, and the file with the directive goes on in that part. -/
inductive Expands (workspace : Workspace) (includes : NameTable String) (limit : Nat) :
    Nat → UnitPart → List (Token × Bytes) → List (UnitPart × String) → Prop where
  | done {depth : Nat} {part : UnitPart} : Expands workspace includes limit depth part [] []
  | implementation {depth : Nat} {part : UnitPart} {literal : Bytes}
      {rest : List (Token × Bytes)} {met : List (UnitPart × String)} :
      Expands workspace includes limit depth .implementation rest met →
      Expands workspace includes limit depth part ((.word .implementation, literal) :: rest) met
  | identifier {depth : Nat} {part : UnitPart} {literal : Bytes}
      {rest : List (Token × Bytes)} {met : List (UnitPart × String)} :
      Expands workspace includes limit depth part rest met →
      Expands workspace includes limit depth part ((.identifier, literal) :: rest)
        ((part, Bytes.latin literal) :: met)
  | included {depth : Nat} {part : UnitPart} {literal : Bytes} {file : String}
      {rest : List (Token × Bytes)} {inside met : List (UnitPart × String)} :
      Includes includes limit depth (Bytes.latin literal) file →
      Expands workspace includes limit (depth + 1) part (tokens workspace file) inside →
      Expands workspace includes limit depth part rest met →
      Expands workspace includes limit depth part ((.directive, literal) :: rest) (inside ++ met)
  | ignored {depth : Nat} {part : UnitPart} {literal : Bytes}
      {rest : List (Token × Bytes)} {met : List (UnitPart × String)} :
      (∀ file, ¬Includes includes limit depth (Bytes.latin literal) file) →
      Expands workspace includes limit depth part rest met →
      Expands workspace includes limit depth part ((.directive, literal) :: rest) met
  | other {depth : Nat} {part : UnitPart} {token : Token} {literal : Bytes}
      {rest : List (Token × Bytes)} {met : List (UnitPart × String)} :
      token ≠ .word .implementation → token ≠ .identifier → token ≠ .directive →
      Expands workspace includes limit depth part rest met →
      Expands workspace includes limit depth part ((token, literal) :: rest) met

/-- What an include directive brings when `more` levels of include files are still followed. -/
def brought (workspace : Workspace) (includes : NameTable String) (unit : String) :
    Nat → UnitPart → String → List (UnitPart × String)
  | 0, _, _ => []
  | more + 1, part, directive =>
    match includes.find? (UnitName.ofPath (includeName directive)) with
    | some file => mentions (findings workspace includes unit more part file)
    | none => []

variable {workspace : Workspace} {includes : NameTable String} {unit : String}
  {limit depth more : Nat} {part : UnitPart}

/-- The identifiers found in a file are those among its tokens and those that directives bring. -/
theorem mentions_findings (more : Nat) (part : UnitPart) (path : String) :
    mentions (findings workspace includes unit more part path) =
      mentionsOf (brought workspace includes unit more) part (tokens workspace path) := by
  unfold tokens
  cases more with
  | zero =>
      rw [findings, mentions_fileFindings]
      cases workspace.read path <;> rfl
  | succ more =>
      rw [findings, mentions_fileFindings]
      cases workspace.read path with
      | error fault => rfl
      | ok source =>
          refine congrArg (fun follow => mentionsOf follow part (delivered source)) ?_
          funext part directive
          rw [brought]
          cases includes.find? (UnitName.ofPath (includeName directive)) <;> rfl

/-- A directive that is followed brings what its file expands to. -/
theorem Includes.brought_eq {directive file : String}
    (h : Includes includes limit depth directive file) :
    brought workspace includes unit (more + 1) part directive =
      mentionsOf (brought workspace includes unit more) part (tokens workspace file) := by
  rw [brought, h.registered]
  exact mentions_findings more part file

/-- An include directive that is not followed brings nothing. -/
theorem brought_eq_nil {directive : String}
    (h : ∀ file, ¬Includes includes limit depth directive file) (hinclude : isInclude directive)
    (hmore : depth + more = limit) :
    brought workspace includes unit more part directive = [] := by
  cases more with
  | zero => rfl
  | succ more =>
      rw [brought]
      split
      · rename_i file hfile
        exact absurd ⟨hinclude, by omega, hfile⟩ (h file)
      · rfl

/-- What tokens expand to is found among them. -/
theorem Expands.eq_mentionsOf {tokens : List (Token × Bytes)} {met : List (UnitPart × String)}
    (h : Expands workspace includes limit depth part tokens met) (hmore : depth + more = limit) :
    met = mentionsOf (brought workspace includes unit more) part tokens := by
  induction h generalizing more with
  | done => rfl
  | implementation _ ih =>
      rw [mentionsOf, if_neg (by simp), if_pos rfl]
      exact ih hmore
  | identifier _ ih =>
      rw [mentionsOf, if_neg (by simp), if_neg (by simp), if_pos rfl, ← ih hmore]
  | included hincludes _ _ ihinside ih =>
      obtain ⟨less, rfl⟩ : ∃ less, more = less + 1 :=
        Nat.exists_eq_add_one.2 (by have := hincludes.depth_lt; omega)
      rw [mentionsOf, if_pos ⟨rfl, hincludes.isInclude⟩, hincludes.brought_eq,
        ← ihinside (by omega), ← ih hmore]
  | @ignored depth part literal rest met hnone _ ih =>
      rw [mentionsOf]
      by_cases hinclude : isInclude (Bytes.latin literal)
      · rw [if_pos ⟨rfl, hinclude⟩, brought_eq_nil hnone hinclude hmore, List.nil_append]
        exact ih hmore
      · rw [if_neg fun hfollowed => hinclude hfollowed.2, if_neg (by simp), if_neg (by simp)]
        exact ih hmore
  | other himplementation hidentifier hdirective _ ih =>
      rw [mentionsOf, if_neg fun hfollowed => hdirective hfollowed.1, if_neg himplementation,
        if_neg hidentifier]
      exact ih hmore

/-- What is found among tokens is what they expand to, if what directives bring is what their files
expand to. -/
theorem expands_of_brought (hmore : depth + more = limit)
    (hbrought : ∀ part directive file, Includes includes limit depth directive file →
      Expands workspace includes limit (depth + 1) part (tokens workspace file)
        (brought workspace includes unit more part directive))
    (tokens : List (Token × Bytes)) :
    Expands workspace includes limit depth part tokens
      (mentionsOf (brought workspace includes unit more) part tokens) := by
  induction tokens generalizing part with
  | nil => exact .done
  | cons found rest ih =>
      obtain ⟨token, literal⟩ := found
      rw [mentionsOf]
      split
      · rename_i hdirective
        obtain ⟨rfl, hinclude⟩ := hdirective
        by_cases hfollowed : ∃ file, Includes includes limit depth (Bytes.latin literal) file
        · obtain ⟨file, hfile⟩ := hfollowed
          exact .included hfile (hbrought _ _ _ hfile) ih
        · rw [brought_eq_nil (not_exists.1 hfollowed) hinclude hmore, List.nil_append]
          exact .ignored (not_exists.1 hfollowed) ih
      · rename_i hdirective
        split
        · rename_i himplementation
          obtain rfl := himplementation
          exact .implementation ih
        · rename_i himplementation
          split
          · rename_i hidentifier
            obtain rfl := hidentifier
            exact .identifier ih
          · rename_i hidentifier
            by_cases htoken : token = .directive
            · obtain rfl := htoken
              exact .ignored (fun _ hfile => hdirective ⟨rfl, hfile.isInclude⟩) ih
            · exact .other himplementation hidentifier htoken ih

/-- What is found among tokens is what they expand to. Include files use up the depth that is
left. -/
theorem expands_mentionsOf (hmore : depth + more = limit) (tokens : List (Token × Bytes)) :
    Expands workspace includes limit depth part tokens
      (mentionsOf (brought workspace includes unit more) part tokens) := by
  induction more generalizing depth part tokens with
  | zero =>
      refine expands_of_brought hmore (fun _ _ _ hincludes => ?_) tokens
      have := hincludes.depth_lt
      omega
  | succ more ih =>
      refine expands_of_brought hmore (fun part directive file hincludes => ?_) tokens
      rw [hincludes.brought_eq]
      exact ih (by omega) _

/-- Tokens expand to the identifiers that are found among them, and to nothing else. -/
theorem expands_iff (hmore : depth + more = limit) {tokens : List (Token × Bytes)}
    {met : List (UnitPart × String)} :
    Expands workspace includes limit depth part tokens met ↔
      met = mentionsOf (brought workspace includes unit more) part tokens := by
  constructor
  · exact fun h => h.eq_mentionsOf hmore
  · rintro rfl
    exact expands_mentionsOf hmore tokens

end Source

namespace Index

/-- Loading a registered unit that is not loaded reads its source. -/
theorem load_eq_reading (workspace : Workspace) {index : Index} {unit path : String}
    (hpath : index.unitPaths.find? unit = some path) (hunloaded : index.isLoaded unit = false) :
    (index.load workspace unit).value =
      let reading := index.reading unit (index.sourceFindings workspace unit path)
      ({ index with uses := index.uses.insert unit reading.uses }, some reading) := by
  unfold load
  rw [hunloaded, hpath]
  rfl

end Index

open Source in
/-- What loading a unit records, whatever was done with the index before. A scan of a file delivers
the tokens up to the one with which there are too many faults. Expanded from the beginning of its
interface part on, the source of a registered unit that is not loaded gives identifiers in one way
only. Of those that name a registered unit other than the unit itself, the ones in the interface
part are listed. The ones in the implementation part are listed too, unless only interface parts
count: then nothing is listed, and they are handed out as they were met. -/
theorem load_records_expansion (workspace : Workspace) {index : Index} {unit path : String}
    (hpath : index.unitPaths.find? unit = some path) (hunloaded : index.isLoaded unit = false) :
    (∀ source, ∃ scanner : Scanner,
      Scanner.start (.fresh "" FileSet.empty.base source.length) source = .ok scanner ∧
      delivered source =
        (tolerated (scanner.trace .skipped)).map fun call => (call.1.token, call.1.literal)) ∧
    ∃ met reading,
      (∀ other, Expands workspace index.includePaths index.settings.maxIncludeDepth 0 .interface
        (tokens workspace path) other ↔ other = met) ∧
      (index.load workspace unit).value =
        ({ index with uses := index.uses.insert unit reading.uses }, some reading) ∧
      (index.load workspace unit).value.1.get? unit = some reading.uses ∧
      reading.uses.unit = unit ∧
      let names := fun part =>
        Reading.namesIn part (met.filter fun mention => index.counts unit mention.2)
      UnitName.Lists reading.uses.interface (names .interface) ∧
      (index.interfaceOnly = false →
        UnitName.Lists reading.uses.implementation (names .implementation) ∧
          reading.unrecorded = []) ∧
      (index.interfaceOnly = true →
        reading.uses.implementation = [] ∧ reading.unrecorded = names .implementation) := by
  have hload := Index.load_eq_reading workspace hpath hunloaded
  refine ⟨delivered_eq, mentions (index.sourceFindings workspace unit path), _, ?_, hload, ?_,
    Index.unit_reading _, index.lists_counted unit _⟩
  · intro other
    rw [Index.sourceFindings, mentions_findings]
    exact expands_iff (Nat.zero_add _)
  · rw [hload, Index.get?, NameTable.find?_insert, if_pos rfl]

open Source in
/-- An include file that two parts of a unit include, for instance. It also names that unit. -/
theorem load_records_included :
    let directive : Bytes := [123, 36, 73, 32, 120, 125]
    let implementation : Bytes :=
      [105, 109, 112, 108, 101, 109, 101, 110, 116, 97, 116, 105, 111, 110]
    let source : Bytes := [65] ++ directive ++ implementation ++ directive
    let workspace : Workspace :=
      { tree := (FileTree.empty.write ["m.pas"] source).write ["x.inc"] [66, 32, 77]
        here := [], systemScratch := "/tmp", run := "1" }
    let index : Index :=
      { unitPaths := ((NameTable.empty.insert "m" "m.pas").insert "a" "a.pas").insert "b" "b.pas"
        includePaths := NameTable.empty.insert "x" "x.inc" }
    index.unitPaths.find? "m" = some "m.pas" ∧ index.isLoaded "m" = false ∧
    ∃ uses, (index.load workspace "m").value.1.get? "m" = some uses ∧
      UnitName.Lists uses.interface ["A", "B"] ∧ UnitName.Lists uses.implementation ["B"] := by
  intro directive implementation source workspace index
  have hpath : index.unitPaths.find? "m" = some "m.pas" := by decide +kernel
  have hunloaded : index.isLoaded "m" = false := by decide +kernel
  have hmain : tokens workspace "m.pas" =
      [(.identifier, [65]), (.directive, directive), (.word .implementation, implementation),
        (.directive, directive), (.eof, [])] := by
    decide +kernel
  have hfile : tokens workspace "x.inc" =
      [(.identifier, [66]), (.identifier, [77]), (.eof, [])] := by
    decide +kernel
  have hincludes : Includes index.includePaths index.settings.maxIncludeDepth 0
      (Bytes.latin directive) "x.inc" := by
    refine ⟨?_, ?_, ?_⟩ <;> decide +kernel
  have hend : ∀ depth part, Expands workspace index.includePaths index.settings.maxIncludeDepth
      depth part [(.eof, [])] [] :=
    fun _ _ => .other (by decide) (by decide) (by decide) .done
  have hinside : ∀ part, Expands workspace index.includePaths index.settings.maxIncludeDepth
      1 part (tokens workspace "x.inc") [(part, "B"), (part, "M")] := by
    intro part
    rw [hfile]
    exact .identifier (.identifier (hend 1 part))
  -- the file is included in one part and then in the other
  have hexpands : Expands workspace index.includePaths index.settings.maxIncludeDepth
      0 .interface (tokens workspace "m.pas") [(.interface, "A"), (.interface, "B"),
        (.interface, "M"), (.implementation, "B"), (.implementation, "M")] := by
    rw [hmain]
    exact .identifier (.included hincludes (hinside _)
      (.implementation (.included hincludes (hinside _) (hend _ _))))
  obtain ⟨-, met, reading, hmet, -, hget, -, hinterface, hboth, -⟩ :=
    load_records_expansion workspace hpath hunloaded
  have hnames : ∀ part, Reading.namesIn part
      (met.filter fun mention => index.counts "m" mention.2) =
        if part = .interface then ["A", "B"] else ["B"] := by
    intro part
    rw [← (hmet _).1 hexpands]
    cases part <;> decide +kernel
  simp only [hnames] at hinterface hboth
  exact ⟨hpath, hunloaded, reading.uses, hget, hinterface, (hboth rfl).1⟩

end PascalUnits
