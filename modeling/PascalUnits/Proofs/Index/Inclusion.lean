import PascalUnits.Proofs.Index.Contributions
import PascalUnits.Proofs.Index.IncludeName
import PascalUnits.Proofs.Index.Persistence
import PascalUnits.Proofs.Scan.Directive

/-!
# Including a file by its name

`Source.Reads` says which files are read while a unit is loaded, and `Reads.findings` that what is
found in each of them is part of what is found in the unit. Include files stand under the stems of
their names, whatever is done with an index (`Index.Reached.filedByStem`). A directive that names
one is met where it stands outside strings and comments. It leads to the file if and only if the
stem of the file's name is in ASCII, as a scan shows other characters byte by byte. The main
statement is `load_follows_directive`.
-/

namespace PascalUnits

namespace Source

/-- The files that are read while the unit is loaded whose source is at `path`. Each is read in a
part of the unit, and so and so deep in include files. -/
inductive Reads (workspace : Workspace) (includes : NameTable String) (limit : Nat)
    (path : String) : Nat → UnitPart → String → Prop where
  | unit : Reads workspace includes limit path 0 .interface path
  | included {depth : Nat} {part : UnitPart} {here file : String} {source : Bytes}
      {before later : List (Scanned × Scanner)} {call : Scanned × Scanner} :
      Reads workspace includes limit path depth part here → workspace.read here = .ok source →
      calls source = before ++ call :: later → call.1.token = .directive →
      Includes includes limit depth (Bytes.latin call.1.literal) file →
      Reads workspace includes limit path (depth + 1) (partBehindCalls part before) file

/-- What a directive brings when `more` levels of include files are still followed. -/
def follow (workspace : Workspace) (includes : NameTable String) (unit : String) :
    Nat → UnitPart → String → List Finding
  | 0, _, directive => [.event (.includeTooDeep (includeName directive) unit)]
  | more + 1, part, directive =>
    match includes.find? (UnitName.ofPath (includeName directive)) with
    | some file => findings workspace includes unit more part file
    | none => [.event (.includeUnknown (includeName directive) directive)]

variable {workspace : Workspace} {includes : NameTable String} {unit path here file : String}
  {limit depth more : Nat} {part : UnitPart} {source : Bytes}

theorem findings_eq (workspace : Workspace) (includes : NameTable String) (unit : String)
    (more : Nat) (part : UnitPart) (path : String) :
    findings workspace includes unit more part path =
      fileFindings workspace (follow workspace includes unit more) part path := by
  cases more <;> rw [findings] <;> rfl

/-- A directive that is followed brings the findings of its file. -/
theorem Includes.follow_eq {directive : String} (h : Includes includes limit depth directive file)
    (workspace : Workspace) (unit : String) (part : UnitPart) :
    follow workspace includes unit (limit - depth) part directive =
      findings workspace includes unit (limit - (depth + 1)) part file := by
  obtain ⟨more, hmore⟩ : ∃ more, limit - depth = more + 1 :=
    Nat.exists_eq_add_one.2 (Nat.sub_pos_of_lt h.depth_lt)
  have hless : limit - (depth + 1) = more := by omega
  rw [hmore, hless, follow, h.registered]

/-- What is found in a file with a directive that is followed has the findings of its file in the
place of the directive. -/
theorem Includes.findings_eq {before later : List (Scanned × Scanner)} {call : Scanned × Scanner}
    (h : Includes includes limit depth (Bytes.latin call.1.literal) file)
    (hread : workspace.read here = .ok source) (hcalls : calls source = before ++ call :: later)
    (htoken : call.1.token = .directive) (unit : String) (part : UnitPart) :
    ∃ behind, findings workspace includes unit (limit - depth) part here =
      callFindings (follow workspace includes unit (limit - depth)) here part before ++
        call.1.diagnostics.map (faultFinding here) ++
        findings workspace includes unit (limit - (depth + 1)) (partBehindCalls part before) file ++
        behind := by
  rw [Source.findings_eq, fileFindings_eq hread, hcalls, callFindings_append, callFindings,
    tokenFindings, if_pos ⟨htoken, h.isInclude⟩, h.follow_eq]
  simp only [List.append_assoc]
  exact ⟨_, rfl⟩

/-- What is found in a file that is read is part of what is found in the unit. -/
theorem Reads.findings (h : Reads workspace includes limit path depth part here) (unit : String) :
    Source.findings workspace includes unit (limit - depth) part here <:+:
      Source.findings workspace includes unit limit .interface path := by
  induction h with
  | unit => exact List.infix_rfl
  | included _ hread hcalls htoken hincludes ih =>
      obtain ⟨behind, hfindings⟩ := hincludes.findings_eq hread hcalls htoken unit _
      rw [hfindings] at ih
      exact (List.infix_append _ _ _).trans ih

/-- An event of some calls is one of a fault, or a directive brings it. -/
theorem event_mem_callFindings {follow : UnitPart → String → List Finding} {event : Event}
    {made : List (Scanned × Scanner)} (h : .event event ∈ callFindings follow path part made) :
    (∃ position message, event = .malformedToken path position message) ∨
      ∃ part directive, .event event ∈ follow part directive := by
  induction made generalizing part with
  | nil => cases h
  | cons call made ih =>
      rw [callFindings, List.mem_append, List.mem_append, List.mem_map] at h
      rcases h with ⟨diagnostic, -, hfault⟩ | htoken | hlater
      · exact .inl ⟨_, _, (Finding.event.inj hfault).symm⟩
      · rw [tokenFindings] at htoken
        split at htoken
        · exact .inr ⟨_, _, htoken⟩
        · split at htoken <;> simp at htoken
      · exact ih hlater

/-- An event of a file tells of trouble with that file, or a directive brings it. -/
theorem event_mem_fileFindings {follow : UnitPart → String → List Finding} {event : Event}
    (h : .event event ∈ fileFindings workspace follow part path) :
    (∃ fault, event = .sourceUnreadable path fault) ∨
      (∃ position message, event = .malformedToken path position message) ∨
      (∃ error, event = .scanAborted path error) ∨
      ∃ part directive, .event event ∈ follow part directive := by
  cases hread : workspace.read path with
  | error fault =>
      rw [fileFindings, hread, List.mem_singleton] at h
      exact .inl ⟨fault, Finding.event.inj h⟩
  | ok source =>
      rw [fileFindings_eq hread, List.mem_append] at h
      rcases h with hcalls | hend
      · rcases event_mem_callFindings hcalls with hfault | hbrought
        · exact .inr (.inl hfault)
        · exact .inr (.inr (.inr hbrought))
      · rw [endFindings] at hend
        split at hend
        · cases hend
        · exact .inr (.inr (.inl ⟨_, Finding.event.inj (List.mem_singleton.1 hend)⟩))

/-- A directive is reported as unknown only where a directive is followed. -/
theorem mem_follow_of_includeUnknown_mem {name directive : String}
    (h : .event (.includeUnknown name directive) ∈
      findings workspace includes unit more part path) :
    ∃ part other, .event (.includeUnknown name directive) ∈
      follow workspace includes unit more part other := by
  rw [Source.findings_eq] at h
  rcases event_mem_fileFindings h with ⟨_, hevent⟩ | ⟨_, _, hevent⟩ | ⟨_, hevent⟩ | hbrought
  · cases hevent
  · cases hevent
  · cases hevent
  · exact hbrought

/-- No directive is reported as unknown that names a registered file. -/
theorem includeUnknown_not_mem {name directive : String}
    (h : includes.find? (UnitName.ofPath (includeName directive)) = some file) :
    Finding.event (.includeUnknown name directive) ∉
      findings workspace includes unit more part path := by
  induction more generalizing part path with
  | zero =>
      intro hmem
      obtain ⟨_, other, hother⟩ := mem_follow_of_includeUnknown_mem hmem
      simp [follow] at hother
  | succ more ih =>
      intro hmem
      obtain ⟨_, other, hother⟩ := mem_follow_of_includeUnknown_mem hmem
      rw [follow] at hother
      split at hother
      · exact ih hother
      · rename_i hnone
        simp only [List.mem_singleton, Finding.event.injEq, Event.includeUnknown.injEq] at hother
        rw [← hother.2, h] at hnone
        cases hnone

end Source

namespace Index

/-- Every file stands under the stem of its name. -/
def FiledByStem (table : NameTable String) : Prop :=
  ∀ key file, (key, file) ∈ table.toList →
    key = UnitName.key (UnitName.ofPath ((Path.fileName? file).getD ""))

variable {index : Index} {table : NameTable String} {file name : String}

/-- Registering a file puts it under the stem of its name. -/
theorem FiledByStem.register (h : FiledByStem table) (path : String) :
    FiledByStem (register table path).value := by
  unfold Index.register
  dsimp only
  split
  · exact h
  · intro key file hmem
    rcases NameTable.mem_toList_insert.1 hmem with ⟨rfl, rfl⟩ | ⟨-, hold⟩
    · rfl
    · exact h key file hold

/-- So does registering many. -/
theorem filedByStem_foldlM_addSourceFile (files : List String)
    (h : FiledByStem index.includePaths) :
    FiledByStem (files.foldlM addSourceFile index).value.includePaths := by
  induction files generalizing index with
  | nil => exact h
  | cons path rest ih =>
      rw [List.foldlM_cons, Traced.value_bind]
      refine ih ?_
      unfold addSourceFile
      split
      · exact h.register path
      · exact h

/-- Loading a unit leaves the registered files alone. -/
theorem includePaths_load (workspace : Workspace) (index : Index) (unit : String) :
    (index.load workspace unit).value.1.includePaths = index.includePaths := by
  rw [load_index]
  split <;> rfl

/-- Include files stand under the stems of their names, whatever is done with an index. -/
theorem Reached.filedByStem (h : index.Reached) : FiledByStem index.includePaths := by
  induction h with
  | fresh settings =>
      intro key file hmem
      simp [NameTable.toList, NameTable.empty] at hmem
  | @after index workspace action _ ih =>
      cases action with
      | addUnitPath path => exact ih
      | addIncludePath path => exact ih.register path
      | addDirectory path =>
          simp only [Index.after, addDirectory]
          cases workspace.directory? path with
          | none => exact ih
          | some directory => exact filedByStem_foldlM_addSourceFile _ ih
      | setInterfaceOnly interfaceOnly => exact ih
      | load unit =>
          rw [Index.after, includePaths_load]
          exact ih
      | build roots =>
          rw [Index.after, build_index]
          refine loadAll_rule (fun index _ => FiledByStem index.includePaths) ?_ ih
          intro index unit _ hfiled
          rwa [includePaths_load]

/-- A registered file is found under the key of its stem and under no other. -/
theorem FiledByStem.find?_eq_iff (h : FiledByStem table) (hfile : file ∈ table.values)
    (hname : Path.fileName? file = some name) (other : String) :
    table.find? other = some file ↔
      UnitName.key other = UnitName.key (UnitName.ofPath name) := by
  have hfiled : ∀ key, (key, file) ∈ table.toList → key = UnitName.key (UnitName.ofPath name) := by
    intro key hmem
    rw [h key file hmem, hname, Option.getD_some]
  constructor
  · intro hfound
    refine hfiled _ ((NameTable.mem_toList_iff_find? (UnitName.key_key other)).2 ?_)
    rwa [NameTable.find?_key]
  · intro hkey
    rw [NameTable.values_eq_map_toList, List.mem_map] at hfile
    obtain ⟨⟨key, _⟩, hmem, rfl⟩ := hfile
    obtain rfl := hfiled key hmem
    rw [table.find?_congr hkey, ← NameTable.find?_key]
    exact (NameTable.mem_toList_iff_find? (UnitName.key_key _)).1 hmem

end Index

open Source in
/-- Let the name of a registered include file be fit for a directive, and let a file that is read
when a unit is loaded have a directive with that name outside strings and comments, less deep in
include files than is allowed and with no more faults before it than a scan puts up with. The load
meets the directive. It leads to the file if and only if the stem of the name is in ASCII. Then the
file is read in the part of the unit in which the directive stands, what is found in it has its
place among the findings there, and the directive is not reported as unknown. -/
theorem load_follows_directive {workspace : Workspace} {index : Index}
    {unit path file name text here : String} {depth offset : Nat} {part : UnitPart} {source : Bytes}
    (hreached : index.Reached) (hunloaded : index.isLoaded unit = false)
    (hpath : index.unitPaths.find? unit = some path) (hfile : file ∈ index.includePaths.values)
    (hname : Path.fileName? file = some name) (hwritable : Writable name)
    (hhere : Reads workspace index.includePaths index.settings.maxIncludeDepth path depth part here)
    (hdepth : depth < index.settings.maxIncludeDepth) (hread : workspace.read here = .ok source)
    (htext : text ∈ directives name) (hat : Bytes.ofText text <+: source.drop offset)
    (houtside : Scanner.Outside source offset)
    (hfew : Scanner.faultsBefore source offset ≤ maxErrors) :
    let limit := index.settings.maxIncludeDepth
    let found := findings workspace index.includePaths unit
    let directive := Text.shown text
    ∃ before call later, calls source = before ++ call :: later ∧
      call.1.offset = offset ∧ call.1.token = .directive ∧ Bytes.latin call.1.literal = directive ∧
      (Includes index.includePaths limit depth directive file ↔
        Text.isAscii (UnitName.ofPath name)) ∧
      (Text.isAscii (UnitName.ofPath name) →
        Reads workspace index.includePaths limit path (depth + 1) (partBehindCalls part before)
          file ∧
        (∃ behind, found (limit - depth) part here =
          callFindings (follow workspace index.includePaths unit (limit - depth)) here part
              before ++
            call.1.diagnostics.map (faultFinding here) ++
            found (limit - (depth + 1)) (partBehindCalls part before) file ++ behind) ∧
        found (limit - depth) part here <:+: index.sourceFindings workspace unit path ∧
        Event.includeUnknown (includeName directive) directive ∉
          (index.load workspace unit).events) := by
  intro limit found directive
  obtain ⟨inside, hbytes, hinside⟩ := ofText_directive hwritable.no_brace htext
  obtain ⟨scanner, hstart⟩ : ∃ scanner,
      Scanner.start (.fresh "" FileSet.empty.base source.length) source = .ok scanner :=
    ⟨_, Scanner.start_eq_ok rfl⟩
  obtain ⟨before, call, later, htolerated, hoffset, htoken, hliteral⟩ :=
    Scanner.exists_directive_tolerated hstart hinside (hbytes ▸ hat) houtside hfew
  have hcalls : calls source = before ++ call :: later := by
    rw [calls, hstart]
    exact htolerated
  have hdirective : Bytes.latin call.1.literal = directive := by
    rw [hliteral, ← hbytes]
    rfl
  -- the stem is looked up as it is shown
  have hfind : index.includePaths.find? (UnitName.ofPath (includeName directive)) = some file ↔
      Text.isAscii (UnitName.ofPath name) := by
    rw [includeName_shown hwritable htext, Text.ofPath_shown,
      hreached.filedByStem.find?_eq_iff hfile hname, key_shown_eq_iff]
  have hincludes : Includes index.includePaths limit depth directive file ↔
      Text.isAscii (UnitName.ofPath name) :=
    ⟨fun h => hfind.1 h.registered, fun h => ⟨isInclude_shown htext, hdepth, hfind.2 h⟩⟩
  refine ⟨before, call, later, hcalls, hoffset, htoken, hdirective, hincludes, fun hascii => ?_⟩
  have hfollowed : Includes index.includePaths limit depth (Bytes.latin call.1.literal) file :=
    hdirective ▸ hincludes.2 hascii
  refine ⟨.included hhere hread hcalls htoken hfollowed,
    hfollowed.findings_eq hread hcalls htoken unit part, hhere.findings unit, ?_⟩
  rw [Index.load, hunloaded, if_neg Bool.false_ne_true, hpath]
  intro hevent
  obtain ⟨finding, hfinding, hsome⟩ := List.mem_filterMap.1 hevent
  cases finding with
  | mention part name => cases hsome
  | event event =>
      obtain rfl := Option.some.inj hsome
      exact includeUnknown_not_mem (hfind.2 hascii) hfinding

open Source in
/-- A directive in the implementation part, for instance. -/
theorem load_follows_name :
    let source := Bytes.ofText "IMPLEMENTATION\x7b$I A.inc\x7d"
    let workspace : Workspace :=
      { tree := (FileTree.empty.write ["M.pas"] source).write ["A.inc"] (Bytes.ofText "B")
        here := [], systemScratch := "/tmp", run := "1" }
    let index : Index :=
      { unitPaths := NameTable.empty.insert "M" "M.pas"
        includePaths := NameTable.empty.insert "A" "A.inc" }
    let directive := "\x7b$I A.inc\x7d"
    index.Reached ∧ index.isLoaded "M" = false ∧ index.unitPaths.find? "M" = some "M.pas" ∧
      "A.inc" ∈ index.includePaths.values ∧ Writable "A.inc" ∧ directive ∈ directives "A.inc" ∧
      Bytes.ofText directive <+: source.drop 14 ∧ Scanner.Outside source 14 ∧
      Scanner.faultsBefore source 14 = 0 ∧ Text.isAscii (UnitName.ofPath "A.inc") ∧
      Includes index.includePaths index.settings.maxIncludeDepth 0 directive "A.inc" ∧
      (∃ part, Reads workspace index.includePaths index.settings.maxIncludeDepth "M.pas" 1 part
        "A.inc") ∧
      Event.includeUnknown "A.inc" directive ∉ (index.load workspace "M").events := by
  intro source workspace index directive
  have hreached : index.Reached := by
    have hunit : UnitName.ofPath "M.pas" = "M" := by decide +kernel
    have hunitFile : Path.fileName? "M.pas" = some "M.pas" := by decide +kernel
    have hinclude : UnitName.ofPath "A.inc" = "A" := by decide +kernel
    have hincludeFile : Path.fileName? "A.inc" = some "A.inc" := by decide +kernel
    simpa [Index.after, Index.addUnitPath, Index.addIncludePath, Index.register, hunit, hunitFile,
      hinclude, hincludeFile] using
      ((Index.Reached.fresh {}).after workspace (.addUnitPath "M.pas")).after workspace
        (.addIncludePath "A.inc")
  have hunloaded : index.isLoaded "M" = false := by decide +kernel
  have hpath : index.unitPaths.find? "M" = some "M.pas" := by decide +kernel
  have hfile : "A.inc" ∈ index.includePaths.values := by decide +kernel
  have hname : Path.fileName? "A.inc" = some "A.inc" := by decide +kernel
  have hwritable : Writable "A.inc" :=
    ⟨by decide, by decide, by rintro _ ⟨⟩; decide, by rintro _ ⟨⟩; decide⟩
  have hread : workspace.read "M.pas" = .ok source := by decide +kernel
  have htext : directive ∈ directives "A.inc" := by decide +kernel
  have hat : Bytes.ofText directive <+: source.drop 14 := by decide +kernel
  have houtside : Scanner.Outside source 14 := by decide +kernel
  have hfaults : Scanner.faultsBefore source 14 = 0 := by decide +kernel
  have hascii : Text.isAscii (UnitName.ofPath "A.inc") := by decide +kernel
  have hshown : Text.shown directive = directive := Text.shown_of_isAscii (by decide +kernel)
  have hinclude : includeName directive = "A.inc" := by decide +kernel
  obtain ⟨_, _, _, -, -, -, -, hincludes, hfollowed⟩ :=
    load_follows_directive hreached hunloaded hpath hfile hname hwritable .unit (by decide) hread
      htext hat houtside (by omega)
  obtain ⟨hreads, -, -, hknown⟩ := hfollowed hascii
  rw [hshown] at hincludes
  rw [hshown, hinclude] at hknown
  exact ⟨hreached, hunloaded, hpath, hfile, hwritable, htext, hat, houtside, hfaults, hascii,
    hincludes.2 hascii, ⟨_, hreads⟩, hknown⟩

open Source in
/-- A name outside ASCII is taken for another one. -/
theorem load_misses_accented_name :
    let source := Bytes.ofText "unit Main;\ninterface\n\x7b$I é.inc\x7d\nimplementation\nend."
    let workspace : Workspace :=
      { tree := ((FileTree.empty.write ["Main.pas"] source).write ["é.inc"]
            (Bytes.ofText "uses B;")).write ["B.pas"] (Bytes.ofText "unit B; end.")
        here := [], systemScratch := "/tmp", run := "1" }
    let index := Index.afterAll {} [(workspace, .addUnitPath "B.pas"),
      (workspace, .addUnitPath "Main.pas"), (workspace, .addIncludePath "é.inc")]
    let directive := "\x7b$I é.inc\x7d"
    "é.inc" ∈ index.includePaths.values ∧ Path.fileName? "é.inc" = some "é.inc" ∧
      Writable "é.inc" ∧ directive ∈ directives "é.inc" ∧
      Bytes.ofText directive <+: source.drop 21 ∧ Scanner.Outside source 21 ∧
      Scanner.faultsBefore source 21 = 0 ∧ 0 < index.settings.maxIncludeDepth ∧
      (index.load workspace "Main").events = [.includeUnknown "Ã©.inc" "\x7b$I Ã©.inc\x7d"] ∧
      (index.load workspace "Main").value.1.get? "Main" = some { unit := "Main" } := by
  intro source workspace index directive
  have hwritable : Writable "é.inc" :=
    ⟨by decide, by decide, by rintro _ ⟨⟩; decide, by rintro _ ⟨⟩; decide⟩
  refine ⟨?_, ?_, hwritable, ?_, ?_, ?_, ?_, ?_, ?_, ?_⟩ <;> decide +kernel

end PascalUnits
