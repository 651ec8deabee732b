import PascalUnits.Index.Load

/-!
# Which units a source mentions

`Occurs` says that a name stands as an identifier in a file or in an include file that is followed
from it; `Mentions` says that for the source of a registered unit and the key of another registered
one. Both speak of the tokens that a scan delivers. `mentions_fileFindings` says what reading a file
gives in terms of these tokens, in order and with parts, and `mem_findings_iff_occurs` forgets order
and parts.
-/

namespace PascalUnits

/-- A consumer that keeps every token with its literal and never ends the scan. -/
def record (token : Token) (literal : Bytes) (tokens : List (Token × Bytes)) :
    ForInStep (List (Token × Bytes)) :=
  .yield (tokens ++ [(token, literal)])

/-- The tokens that a scan without comments hands to its consumer, with their literals. -/
def delivered (source : Bytes) : List (Token × Bytes) :=
  (scan source .skipped (fun _ tokens => tokens) record []).1

/-- `name` is an identifier in the file at `path`, or in an include file that is followed from it,
with include directives followed `depth` deep. -/
inductive Occurs (workspace : Workspace) (includes : NameTable String) :
    Nat → String → String → Prop where
  | here {depth : Nat} {path : String} {source literal : Bytes} :
      workspace.read path = .ok source → (.identifier, literal) ∈ delivered source →
      Occurs workspace includes depth path (Bytes.latin literal)
  | followed {depth : Nat} {path file name : String} {source literal : Bytes} :
      workspace.read path = .ok source → (.directive, literal) ∈ delivered source →
      Source.isInclude (Bytes.latin literal) →
      includes.find? (UnitName.ofPath (Source.includeName (Bytes.latin literal))) = some file →
      Occurs workspace includes depth file name →
      Occurs workspace includes (depth + 1) path name

/-- The source of the registered unit with the key `key` mentions the registered unit with the key
`other`, which is not the same. -/
def Mentions (workspace : Workspace) (index : Index) (key other : String) : Prop :=
  ∃ path name, index.unitPaths.find? key = some path ∧
    Occurs workspace index.includePaths index.settings.maxIncludeDepth path name ∧
    index.unitPaths.contains name ∧ UnitName.key name = other ∧ other ≠ key

section Delivery

variable {σ τ : Type} {comments : Comments}

/-- Errors do not show in a view that none of them shows in. -/
theorem view_errors (view : σ → τ) {onError : Diagnostic → σ → σ}
    (herror : ∀ diagnostic state, view (onError diagnostic state) = view state)
    (found : List Diagnostic) (state : σ) :
    view (found.foldl (fun state diagnostic => onError diagnostic state) state) = view state := by
  induction found generalizing state with
  | nil => rfl
  | cons diagnostic rest ih => exact (ih _).trans (herror diagnostic state)

/-- Errors do not change recorded tokens. -/
theorem record_errors (found : List Diagnostic) (tokens : List (Token × Bytes)) :
    found.foldl (fun tokens _ => tokens) tokens = tokens :=
  view_errors id (fun _ _ => rfl) found tokens

/-- What is recorded of a drive comes after what was recorded before. -/
theorem drive_record (scanner : Scanner) (before after : List (Token × Bytes)) :
    (scanner.drive comments (fun _ tokens => tokens) record (before ++ after)).1 =
      before ++ (scanner.drive comments (fun _ tokens => tokens) record after).1 := by
  rw [Scanner.drive, Scanner.drive]
  simp only [record_errors, record, List.append_assoc]
  split
  · rfl
  · split
    · rfl
    · exact drive_record _ before _
termination_by scanner.rest.length
decreasing_by exact Scanner.rest_length_lt comments scanner ‹_›

/-- A drive whose consumer never ends it works through the recorded tokens one after the other,
as far as a `view` of its state goes in which no error shows. -/
theorem drive_view {view : σ → τ} {onError : Diagnostic → σ → σ}
    {onToken : Token → Bytes → σ → ForInStep σ} {next : τ → Token × Bytes → τ}
    (herror : ∀ diagnostic state, view (onError diagnostic state) = view state)
    (htoken : ∀ token literal state, ∃ after, onToken token literal state = .yield after ∧
      view after = next (view state) (token, literal))
    (scanner : Scanner) (state : σ) :
    view (scanner.drive comments onError onToken state).1 =
      (scanner.drive comments (fun _ tokens => tokens) record []).1.foldl next (view state) := by
  rw [Scanner.drive, Scanner.drive]
  simp only [record_errors, record, List.nil_append]
  obtain ⟨after, hafter, hview⟩ := htoken (scanner.next comments).1.token
    (scanner.next comments).1.literal ((scanner.next comments).1.diagnostics.foldl
      (fun state diagnostic => onError diagnostic state) state)
  rw [view_errors view herror] at hview
  simp only [hafter]
  split
  · exact hview
  · split
    · exact hview
    · rw [drive_view herror htoken, hview, ← List.append_nil [(_, _)], drive_record,
        List.foldl_append]
      rfl
termination_by scanner.rest.length
decreasing_by exact Scanner.rest_length_lt comments scanner ‹_›

/-- A scan of a whole text starts without fail. -/
theorem scan_eq_drive (comments : Comments) (source : Bytes) : ∃ scanner : Scanner, ∀ {σ : Type}
    (onError : Diagnostic → σ → σ) (onToken : Token → Bytes → σ → ForInStep σ) (state : σ),
    scan source comments onError onToken state =
      scanner.drive comments onError onToken state := by
  obtain ⟨scanner, hstart⟩ : ∃ scanner,
      Scanner.start (.fresh "" FileSet.empty.base source.length) source = .ok scanner :=
    ⟨_, if_pos rfl⟩
  refine ⟨scanner, fun onError onToken state => ?_⟩
  rw [scan, hstart]

/-- A scan whose consumer never ends it works through the delivered tokens. -/
theorem scan_view {view : σ → τ} {onError : Diagnostic → σ → σ}
    {onToken : Token → Bytes → σ → ForInStep σ} {next : τ → Token × Bytes → τ}
    (herror : ∀ diagnostic state, view (onError diagnostic state) = view state)
    (htoken : ∀ token literal state, ∃ after, onToken token literal state = .yield after ∧
      view after = next (view state) (token, literal))
    (source : Bytes) (state : σ) :
    view (scan source .skipped onError onToken state).1 =
      (delivered source).foldl next (view state) := by
  obtain ⟨scanner, hscan⟩ := scan_eq_drive .skipped source
  rw [delivered, hscan, hscan]
  exact drive_view herror htoken scanner state

end Delivery

namespace Source

/-- The identifiers among the tokens of a file from a place on that is in `part`, with their parts.
`follow` says which ones an include directive puts in its place. -/
def mentionsOf (follow : UnitPart → String → List (UnitPart × String)) :
    UnitPart → List (Token × Bytes) → List (UnitPart × String)
  | _, [] => []
  | part, (token, literal) :: rest =>
    if token = .directive ∧ isInclude (Bytes.latin literal) then
      follow part (Bytes.latin literal) ++ mentionsOf follow part rest
    else if token = .word .implementation then mentionsOf follow .implementation rest
    else if token = .identifier then (part, Bytes.latin literal) :: mentionsOf follow part rest
    else mentionsOf follow part rest

@[simp] theorem mentions_append (first second : List Finding) :
    mentions (first ++ second) = mentions first ++ mentions second :=
  List.filterMap_append

@[simp] theorem mentions_event (event : Event) : mentions [.event event] = [] := rfl

@[simp] theorem mentions_mention (part : UnitPart) (name : String) :
    mentions [.mention part name] = [(part, name)] := rfl

/-- What a token adds to the part of the unit and the identifiers found so far. -/
def passToken (follow : UnitPart → String → List (UnitPart × String))
    (state : UnitPart × List (UnitPart × String)) (found : Token × Bytes) :
    UnitPart × List (UnitPart × String) :=
  let name := Bytes.latin found.2
  if found.1 = .directive ∧ isInclude name then (state.1, state.2 ++ follow state.1 name)
  else if found.1 = .word .implementation then (.implementation, state.2)
  else if found.1 = .identifier then (state.1, state.2 ++ [(state.1, name)])
  else state

/-- Passing the tokens one by one finds the identifiers among them. -/
theorem foldl_passToken (follow : UnitPart → String → List (UnitPart × String))
    (tokens : List (Token × Bytes)) (part : UnitPart) (before : List (UnitPart × String)) :
    (tokens.foldl (passToken follow) (part, before)).2 =
      before ++ mentionsOf follow part tokens := by
  induction tokens generalizing part before with
  | nil => exact (List.append_nil before).symm
  | cons found rest ih =>
      obtain ⟨token, literal⟩ := found
      rw [List.foldl_cons, mentionsOf, passToken]
      dsimp only
      split
      · rw [ih, List.append_assoc]
      · split
        · rw [ih]
        · split
          · rw [ih, List.append_assoc]
            rfl
          · rw [ih]

/-- The part of the unit and the identifiers found so far. -/
def Progress.view (progress : Progress) : UnitPart × List (UnitPart × String) :=
  (progress.part, mentions progress.latestFirst.reverse)

/-- Added findings come last. -/
theorem Progress.view_add (progress : Progress) (findings : List Finding) :
    (progress.add findings).view = (progress.part, progress.view.2 ++ mentions findings) := by
  simp [view, add]

/-- Noting a token is passing it, as far as parts and identifiers go. -/
theorem noteToken_view (follow : UnitPart → String → List Finding) (token : Token)
    (literal : Bytes) (progress : Progress) :
    ∃ after, noteToken follow token literal progress = .yield after ∧
      after.view = passToken (fun part directive => mentions (follow part directive))
        progress.view (token, literal) := by
  refine ⟨_, rfl, ?_⟩
  unfold passToken
  dsimp only
  split
  · exact progress.view_add _
  · split
    · rfl
    · split
      · exact progress.view_add _
      · rfl

/-- Noting an error adds no identifier. -/
theorem noteFault_view (path : String) (diagnostic : Diagnostic) (progress : Progress) :
    (noteFault path diagnostic progress).view = progress.view := by
  rw [noteFault, progress.view_add, mentions_event, List.append_nil]
  rfl

/-- Reading a file finds the identifiers among the tokens that a scan delivers. -/
theorem mentions_fileFindings (workspace : Workspace)
    (follow : UnitPart → String → List Finding) (part : UnitPart) (path : String) :
    mentions (fileFindings workspace follow part path) =
      match workspace.read path with
      | .error _ => []
      | .ok source =>
        mentionsOf (fun part directive => mentions (follow part directive)) part
          (delivered source) := by
  unfold fileFindings
  cases workspace.read path with
  | error fault => rfl
  | ok source =>
      have hpass := congrArg Prod.snd
        (scan_view (noteFault_view path) (noteToken_view follow) source { part })
      rw [show ({ part } : Progress).view = (part, []) from rfl, foldl_passToken,
        List.nil_append] at hpass
      show mentions (_ ++ _) = _
      rw [mentions_append]
      split
      · exact (List.append_nil _).trans hpass
      · exact (List.append_nil _).trans hpass

/-- A name is among the identifiers of a file if it stands there as one, or if an include directive
puts it there. -/
theorem mem_mentionsOf {follow : UnitPart → String → List (UnitPart × String)}
    {brings : String → Prop} {name : String}
    (hfollow : ∀ part directive, name ∈ (follow part directive).map (·.2) ↔ brings directive)
    (part : UnitPart) (tokens : List (Token × Bytes)) :
    name ∈ (mentionsOf follow part tokens).map (·.2) ↔
      (∃ literal, (.identifier, literal) ∈ tokens ∧ Bytes.latin literal = name) ∨
      ∃ literal, (.directive, literal) ∈ tokens ∧ isInclude (Bytes.latin literal) ∧
        brings (Bytes.latin literal) := by
  induction tokens generalizing part with
  | nil => simp [mentionsOf]
  | cons found rest ih =>
      obtain ⟨token, literal⟩ := found
      rw [mentionsOf]
      split
      · rename_i hinclude
        rw [List.map_append, List.mem_append, ih, hfollow]
        grind
      · split
        · rw [ih]
          grind
        · split
          · rw [List.map_cons, List.mem_cons, ih]
            grind
          · rw [ih]
            grind

/-- A file that can be read gives a name if the name stands there or a directive brings it. -/
theorem mem_fileFindings {workspace : Workspace} {follow : UnitPart → String → List Finding}
    (brings : String → Prop) {name : String}
    (hfollow : ∀ part directive,
      name ∈ (mentions (follow part directive)).map (·.2) ↔ brings directive)
    (part : UnitPart) (path : String) :
    name ∈ (mentions (fileFindings workspace follow part path)).map (·.2) ↔
      ∃ source, workspace.read path = .ok source ∧
        ((∃ literal, (.identifier, literal) ∈ delivered source ∧ Bytes.latin literal = name) ∨
          ∃ literal, (.directive, literal) ∈ delivered source ∧
            isInclude (Bytes.latin literal) ∧ brings (Bytes.latin literal)) := by
  rw [mentions_fileFindings]
  cases workspace.read path with
  | error fault => simp
  | ok source => simp only [mem_mentionsOf hfollow, Except.ok.injEq, exists_eq_left']

/-- The names that are found in a file, with include directives followed, are those that occur
there. -/
theorem mem_findings_iff_occurs (workspace : Workspace) (includes : NameTable String)
    (unit name : String) (depth : Nat) (part : UnitPart) (path : String) :
    name ∈ (mentions (findings workspace includes unit depth part path)).map (·.2) ↔
      Occurs workspace includes depth path name := by
  induction depth generalizing part path with
  | zero =>
      rw [findings, mem_fileFindings (fun _ => False) (by simp)]
      constructor
      · rintro ⟨source, hread, ⟨literal, hliteral, rfl⟩ | ⟨_, _, _, hfalse⟩⟩
        · exact .here hread hliteral
        · exact hfalse.elim
      · rintro (⟨hread, hliteral⟩ | _)
        exact ⟨_, hread, .inl ⟨_, hliteral, rfl⟩⟩
  | succ depth ih =>
      rw [findings, mem_fileFindings (fun directive => ∃ file,
        includes.find? (UnitName.ofPath (includeName directive)) = some file ∧
          Occurs workspace includes depth file name) ?_]
      · constructor
        · rintro ⟨source, hread, ⟨literal, hliteral, rfl⟩ |
            ⟨literal, hliteral, hinclude, file, hfile, hoccurs⟩⟩
          · exact .here hread hliteral
          · exact .followed hread hliteral hinclude hfile hoccurs
        · rintro (⟨hread, hliteral⟩ | ⟨hread, hliteral, hinclude, hfile, hoccurs⟩)
          · exact ⟨_, hread, .inl ⟨_, hliteral, rfl⟩⟩
          · exact ⟨_, hread, .inr ⟨_, hliteral, hinclude, _, hfile, hoccurs⟩⟩
      · intro part directive
        split
        · rename_i file hfile
          simp [ih, hfile]
        · rename_i hnone
          simp [hnone]

/-- What a file gives depends on what its include directives give. -/
theorem mentions_fileFindings_congr {workspace : Workspace}
    {follow other : UnitPart → String → List Finding}
    (h : ∀ part directive, mentions (follow part directive) = mentions (other part directive))
    (part : UnitPart) (path : String) :
    mentions (fileFindings workspace follow part path) =
      mentions (fileFindings workspace other part path) := by
  have hfollow : (fun part directive => mentions (follow part directive)) =
      fun part directive => mentions (other part directive) :=
    funext fun part => funext (h part)
  rw [mentions_fileFindings, mentions_fileFindings, hfollow]

/-- The unit for which a file is read only shows in the events. -/
theorem mentions_findings_unit (workspace : Workspace) (includes : NameTable String)
    (unit other : String) (depth : Nat) (part : UnitPart) (path : String) :
    mentions (findings workspace includes unit depth part path) =
      mentions (findings workspace includes other depth part path) := by
  induction depth generalizing part path with
  | zero =>
      rw [findings, findings]
      refine mentions_fileFindings_congr (fun _ _ => ?_) part path
      rfl
  | succ depth ih =>
      rw [findings, findings]
      refine mentions_fileFindings_congr (fun part directive => ?_) part path
      cases includes.find? (UnitName.ofPath (includeName directive)) with
      | none => rfl
      | some file => exact ih part file

end Source

end PascalUnits
