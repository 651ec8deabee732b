import PascalUnits.Proofs.Index.Persistence
import PascalUnits.Proofs.Scan.LetterCase
import PascalUnits.Proofs.Workspace

/-!
# Letter case in an index

Nothing that an index knows depends on the letter case of sources, but for the spelling of names.
`Source.mentions_findings_alike` says so of what is mentioned in a source. `Index.Alike` relates
indexes that know the same, but for the spelling. Loading a unit leaves such indexes alike
(`Alike.load`), and so does every action (`Alike.after`), in workspaces that are alike.
-/

namespace PascalUnits

namespace UnitName

/-- Names are put in the same places by their keys. -/
theorem map_key_insert (name : String) (list : List String) :
    (insert name list).map key = insert (key name) (list.map key) := by
  induction list with
  | nil => rfl
  | cons head tail ih =>
      rw [List.map_cons, insert, insert, key_key, key_key]
      split <;> simp [ih]

end UnitName

/-- The uses of a unit, with names by their keys. -/
def UnitUses.inKeys (uses : UnitUses) : UnitUses :=
  { unit := UnitName.key uses.unit
    interface := uses.interface.map UnitName.key
    implementation := uses.implementation.map UnitName.key }

/-- A reading, with names by their keys. -/
def Reading.inKeys (reading : Reading) : Reading :=
  { uses := reading.uses.inKeys, unrecorded := reading.unrecorded.map UnitName.key }

/-- A mention, with the name by its key. -/
def Source.mentionInKeys (mention : UnitPart × String) : UnitPart × String :=
  (mention.1, UnitName.key mention.2)

namespace Reading

/-- A mention is noted by its key. -/
theorem inKeys_note (interfaceOnly : Bool) (reading : Reading) (mention : UnitPart × String) :
    (reading.note interfaceOnly mention).inKeys =
      reading.inKeys.note interfaceOnly (Source.mentionInKeys mention) := by
  obtain ⟨part, name⟩ := mention
  cases part <;> cases interfaceOnly <;>
    simp [note, inKeys, UnitUses.inKeys, UnitUses.add, UnitName.map_key_insert,
      Source.mentionInKeys]

theorem inKeys_foldl_note (interfaceOnly : Bool) (mentions : List (UnitPart × String))
    (reading : Reading) :
    (mentions.foldl (note interfaceOnly) reading).inKeys =
      (mentions.map Source.mentionInKeys).foldl (note interfaceOnly) reading.inKeys := by
  induction mentions generalizing reading with
  | nil => rfl
  | cons mention rest ih => rw [List.foldl_cons, ih, inKeys_note, List.map_cons, List.foldl_cons]

/-- What a reading leads to, by keys. -/
theorem map_key_following (reading : Reading) :
    reading.following.map UnitName.key = reading.inKeys.following := by
  simp [following, inKeys, UnitUses.inKeys, UnitUses.edges, Function.comp_def]

end Reading

namespace Source

theorem surroundsName_toLower (char : Char) : surroundsName char.toLower = surroundsName char := by
  have hmark : ∀ mark : Char, mark.val < 'A'.val ∨ 'z'.val < mark.val →
      (char.toLower == mark) = (char == mark) := by
    intro mark hmark
    rw [Bool.beq_eq_decide_eq, Bool.beq_eq_decide_eq]
    simp only [Text.toLower_eq_iff hmark]
  rw [surroundsName, surroundsName, hmark _ (by decide), hmark _ (by decide), hmark _ (by decide),
    hmark _ (by decide), hmark _ (by decide)]

theorem isInclude_lower (directive : String) :
    isInclude (Text.lower directive) = isInclude directive := by
  rw [isInclude, isInclude, Text.lower_lower]

/-- The name in a directive in lower case. -/
theorem includeName_lower (directive : String) :
    includeName (Text.lower directive) = Text.lower (includeName directive) := by
  have hspace : ∀ char : Char, (char.toLower != ' ') = (char != ' ') := by
    intro char
    rw [bne, bne, Bool.beq_eq_decide_eq, Bool.beq_eq_decide_eq]
    simp only [Text.toLower_eq_iff (show ' '.val < 'A'.val ∨ 'z'.val < ' '.val by decide)]
  rw [includeName, includeName, ← Text.trim_lower surroundsName_toLower, Text.lower, Text.lower,
    String.toList_ofList, String.toList_ofList, Text.dropWhile_map_toLower hspace]

/-- Directives that are the same in lower case name files with the same key. -/
theorem key_ofPath_includeName {directive other : String}
    (h : Text.lower other = Text.lower directive) :
    UnitName.key (UnitName.ofPath (includeName other)) =
      UnitName.key (UnitName.ofPath (includeName directive)) := by
  have hkey : ∀ directive, UnitName.key (UnitName.ofPath (includeName directive)) =
      UnitName.ofPath (includeName (Text.lower directive)) := by
    intro directive
    rw [includeName_lower, Text.ofPath_lower]
    rfl
  rw [hkey, hkey, h]

variable {workspace other : Workspace} {includes : NameTable String} {unit second : String}

/-- A token, with its text in lower case. -/
def tokenInLowerCase (found : Token × Bytes) : Token × Bytes :=
  (found.1, Bytes.lower found.2)

/-- Files that have the same contents in lower case have the same tokens in lower case. -/
theorem tokens_alike (h : workspace.Alike other) (path : String) :
    (tokens other path).map tokenInLowerCase = (tokens workspace path).map tokenInLowerCase := by
  have htokens : ∀ workspace : Workspace, (tokens workspace path).map tokenInLowerCase =
      ((workspace.read path).map Bytes.lower).toOption.elim [] delivered := by
    intro workspace
    rw [tokens]
    cases workspace.read path with
    | error fault => rfl
    | ok source => exact (delivered_lower source).symm
  rw [htokens, htokens, h.read]

/-- Tokens that are the same in lower case mention the same units, if directives that are the same
in lower case bring mentions of the same units. -/
theorem mentionsOf_alike {follow followOther : UnitPart → String → List (UnitPart × String)}
    (hfollow : ∀ part directive otherDirective,
      Text.lower otherDirective = Text.lower directive →
      (followOther part otherDirective).map mentionInKeys =
        (follow part directive).map mentionInKeys)
    {found others : List (Token × Bytes)}
    (h : others.map tokenInLowerCase = found.map tokenInLowerCase) (part : UnitPart) :
    (mentionsOf followOther part others).map mentionInKeys =
      (mentionsOf follow part found).map mentionInKeys := by
  induction found generalizing others part with
  | nil =>
      rw [List.map_nil, List.map_eq_nil_iff] at h
      rw [h]
      rfl
  | cons first rest ih =>
      rw [List.map_cons, List.map_eq_cons_iff] at h
      obtain ⟨otherFirst, otherRest, rfl, hfirst, hrest⟩ := h
      obtain ⟨token, literal⟩ := first
      obtain ⟨otherToken, otherLiteral⟩ := otherFirst
      obtain ⟨rfl, hliteral⟩ := Prod.mk.inj hfirst
      have hlatin : Text.lower (Bytes.latin otherLiteral) = Text.lower (Bytes.latin literal) := by
        rw [← Bytes.latin_lower, ← Bytes.latin_lower]
        exact congrArg Bytes.latin hliteral
      have hinclude : isInclude (Bytes.latin otherLiteral) = isInclude (Bytes.latin literal) := by
        rw [← isInclude_lower, hlatin, isInclude_lower]
      simp only [mentionsOf, hinclude]
      split
      · rw [List.map_append, List.map_append, hfollow _ _ _ hlatin, ih hrest]
      · split
        · exact ih hrest _
        · split
          · rw [List.map_cons, List.map_cons, ih hrest, mentionInKeys, mentionInKeys,
              UnitName.key, UnitName.key, hlatin]
          · exact ih hrest _

/-- The same units are mentioned in a file and in those that are included. -/
theorem mentions_findings_alike (h : workspace.Alike other) (more : Nat) (part : UnitPart)
    (path : String) :
    (mentions (findings other includes second more part path)).map mentionInKeys =
      (mentions (findings workspace includes unit more part path)).map mentionInKeys := by
  induction more generalizing part path with
  | zero =>
      rw [mentions_findings, mentions_findings]
      exact mentionsOf_alike (fun _ _ _ _ => rfl) (tokens_alike h path) part
  | succ more ih =>
      rw [mentions_findings, mentions_findings]
      refine mentionsOf_alike (fun part directive otherDirective hdirective => ?_)
        (tokens_alike h path) part
      rw [brought, brought, includes.find?_congr (key_ofPath_includeName hdirective)]
      split
      · exact ih part _
      · rfl

end Source

/-- Actions that differ in the letter case of the names of units at most. -/
inductive Action.Alike : Action → Action → Prop where
  | addUnitPath (path : String) : Alike (.addUnitPath path) (.addUnitPath path)
  | addIncludePath (path : String) : Alike (.addIncludePath path) (.addIncludePath path)
  | addDirectory (path : String) : Alike (.addDirectory path) (.addDirectory path)
  | setInterfaceOnly (interfaceOnly : Bool) :
      Alike (.setInterfaceOnly interfaceOnly) (.setInterfaceOnly interfaceOnly)
  | load {unit other : String} :
      Text.lower other = Text.lower unit → Alike (.load unit) (.load other)
  | build {roots others : List String} :
      others.map Text.lower = roots.map Text.lower → Alike (.build roots) (.build others)

namespace Index

/-- Two indexes know the same files and the same of units, but for the spelling of names. -/
structure Alike (index other : Index) : Prop where
  settings_eq : other.settings = index.settings
  interfaceOnly_eq : other.interfaceOnly = index.interfaceOnly
  roots_eq : other.roots.map UnitName.key = index.roots.map UnitName.key
  unitPaths_eq : other.unitPaths = index.unitPaths
  includePaths_eq : other.includePaths = index.includePaths
  uses_eq : ∀ key : String, other.uses.entries[key]?.map UnitUses.inKeys =
    index.uses.entries[key]?.map UnitUses.inKeys

variable {workspace second : Workspace} {index other : Index} {unit otherUnit name : String}

theorem Alike.refl (index : Index) : index.Alike index :=
  ⟨rfl, rfl, rfl, rfl, rfl, fun _ => rfl⟩

/-- What counts does not depend on the spelling. -/
theorem counts_key (index : Index) (unit name : String) :
    index.counts unit (UnitName.key name) = index.counts unit name := by
  rw [counts, counts, UnitName.key_key, NameTable.contains_key]

/-- A reading by keys depends on what is mentioned by keys. -/
theorem inKeys_reading (index : Index) (unit : String) (findings : List Finding) :
    (index.reading unit findings).inKeys =
      (((Source.mentions findings).map Source.mentionInKeys).filter fun mention =>
        index.counts unit mention.2).foldl (Reading.note index.interfaceOnly)
          { uses := { unit := UnitName.key unit } } := by
  rw [reading, Reading.inKeys_foldl_note, List.filter_map]
  simp only [Function.comp_def, Source.mentionInKeys, counts_key]
  rfl

/-- What a visit leads to, by keys. -/
theorem map_key_visit (workspace : Workspace) (index : Index) (unit : String) :
    (index.visit workspace unit).value.2.map UnitName.key =
      (((index.load workspace unit).value.2.map Reading.inKeys).elim [] Reading.following).filter
        fun key => !(index.load workspace unit).value.1.isLoaded key := by
  have hfollowing : ∀ reading : Option Reading,
      (reading.elim [] Reading.following).map UnitName.key =
        (reading.map Reading.inKeys).elim [] Reading.following := by
    intro reading
    cases reading with
    | none => rfl
    | some reading => exact reading.map_key_following
  rw [← hfollowing, List.filter_map]
  simp only [visit, Traced.value_bind, Traced.value_pure, Function.comp_def, Index.isLoaded,
    NameTable.contains_key]

namespace Alike

variable (hspace : workspace.Alike second) (h : index.Alike other)
  (hunit : UnitName.key otherUnit = UnitName.key unit)

include h

/-- The same units are loaded. -/
theorem isLoaded (hname : UnitName.key otherUnit = UnitName.key unit) :
    other.isLoaded otherUnit = index.isLoaded unit := by
  have hisSome := congrArg Option.isSome (h.uses_eq (UnitName.key unit))
  rw [Option.isSome_map, Option.isSome_map] at hisSome
  rw [Index.isLoaded, Index.isLoaded, NameTable.contains_congr _ hname,
    NameTable.contains_eq_isSome_find?, NameTable.contains_eq_isSome_find?]
  exact hisSome

/-- They stay alike when the same is recorded for a unit. -/
theorem insert (hunit : UnitName.key otherUnit = UnitName.key unit) {uses otherUses : UnitUses}
    (huses : otherUses.inKeys = uses.inKeys) :
    Alike { index with uses := index.uses.insert unit uses }
      { other with uses := other.uses.insert otherUnit otherUses } where
  settings_eq := h.settings_eq
  interfaceOnly_eq := h.interfaceOnly_eq
  roots_eq := h.roots_eq
  unitPaths_eq := h.unitPaths_eq
  includePaths_eq := h.includePaths_eq
  uses_eq key := by
    simp only [NameTable.insert, Std.TreeMap.getElem?_insert, hunit]
    split
    · rw [Option.map_some, Option.map_some, huses]
    · exact h.uses_eq key

include hspace hunit

/-- What is read in the source of a unit is the same by keys. -/
theorem reading (path : String) :
    (other.reading otherUnit (other.sourceFindings second otherUnit path)).inKeys =
      (index.reading unit (index.sourceFindings workspace unit path)).inKeys := by
  have hcounts : other.counts otherUnit = index.counts unit := by
    funext name
    rw [Index.counts, Index.counts, h.unitPaths_eq, hunit]
  rw [inKeys_reading, inKeys_reading, hcounts, hunit, h.interfaceOnly_eq, sourceFindings,
    sourceFindings, h.includePaths_eq, h.settings_eq,
    Source.mentions_findings_alike hspace]

/-- Loading a unit leaves them alike, and what is read is the same by keys. -/
theorem load :
    (index.load workspace unit).value.1.Alike (other.load second otherUnit).value.1 ∧
      (other.load second otherUnit).value.2.map Reading.inKeys =
        (index.load workspace unit).value.2.map Reading.inKeys := by
  have hpath : other.unitPaths.find? otherUnit = index.unitPaths.find? unit := by
    rw [h.unitPaths_eq, NameTable.find?_congr _ hunit]
  rw [Index.load, Index.load, h.isLoaded hunit, hpath]
  cases index.isLoaded unit with
  | true => exact ⟨h, rfl⟩
  | false =>
      cases index.unitPaths.find? unit with
      | none => exact ⟨h.insert hunit (by rw [UnitUses.inKeys, UnitUses.inKeys, hunit]), rfl⟩
      | some path =>
          have hreading := h.reading hspace hunit path
          exact ⟨h.insert hunit (congrArg Reading.uses hreading), congrArg some hreading⟩

/-- A visit leads to the same units. -/
theorem visit :
    (index.visit workspace unit).value.1.Alike (other.visit second otherUnit).value.1 ∧
      (other.visit second otherUnit).value.2.map UnitName.key =
        (index.visit workspace unit).value.2.map UnitName.key := by
  obtain ⟨hload, hreading⟩ := h.load hspace hunit
  refine ⟨hload, ?_⟩
  rw [map_key_visit, map_key_visit, hreading]
  exact List.filter_congr fun key _ => by rw [hload.isLoaded rfl]

end Alike

/-- Loading all units of stacks that are the same by keys leaves indexes alike. -/
theorem Alike.loadAll (hspace : workspace.Alike second) {stack others : List String}
    (h : index.Alike other) (hstack : others.map UnitName.key = stack.map UnitName.key) :
    (loadAll workspace index stack).value.Alike (loadAll second other others).value := by
  fun_induction Index.loadAll workspace index stack generalizing other others with
  | case1 index =>
      rw [List.map_nil, List.map_eq_nil_iff] at hstack
      rw [hstack, Index.loadAll]
      exact h
  | case2 index unit rest visited =>
      rename_i ih
      rw [List.map_cons, List.map_eq_cons_iff] at hstack
      obtain ⟨otherUnit, otherRest, rfl, hunit, hrest⟩ := hstack
      obtain ⟨hvisit, hfollowing⟩ := h.visit hspace hunit
      rw [Index.loadAll]
      refine ih hvisit ?_
      rw [List.map_append, List.map_append, List.map_reverse, List.map_reverse, hfollowing, hrest]

/-- A build from roots that are the same in lower case leaves indexes alike. -/
theorem Alike.build (hspace : workspace.Alike second) (h : index.Alike other)
    {roots others : List String} (hroots : others.map Text.lower = roots.map Text.lower) :
    (index.build workspace roots).value.Alike (other.build second others).value := by
  have hkeys : ∀ roots : List String, (roots.map UnitName.ofPath).map UnitName.key =
      (roots.map Text.lower).map UnitName.ofPath := by
    intro roots
    rw [List.map_map, List.map_map]
    refine List.map_congr_left fun root _ => ?_
    rw [Function.comp_apply, Function.comp_apply, Text.ofPath_lower]
    rfl
  have hnames : (others.map UnitName.ofPath).map UnitName.key =
      (roots.map UnitName.ofPath).map UnitName.key := by
    rw [hkeys, hkeys, hroots]
  have hnoted : Alike { index with roots := index.roots ++ roots.map UnitName.ofPath }
      { other with roots := other.roots ++ others.map UnitName.ofPath } := by
    refine ⟨h.settings_eq, h.interfaceOnly_eq, ?_, h.unitPaths_eq, h.includePaths_eq, h.uses_eq⟩
    rw [List.map_append, List.map_append, h.roots_eq, hnames]
  rw [build_index, build_index]
  refine hnoted.loadAll hspace ?_
  rw [List.map_reverse, List.map_reverse, hnames]

/-- Registering a unit leaves indexes alike. -/
theorem Alike.addUnitPath (h : index.Alike other) (path : String) :
    (index.addUnitPath path).value.Alike (other.addUnitPath path).value :=
  ⟨h.settings_eq, h.interfaceOnly_eq, h.roots_eq,
    congrArg (fun table => (register table path).value) h.unitPaths_eq, h.includePaths_eq,
    h.uses_eq⟩

/-- So does registering an include file. -/
theorem Alike.addIncludePath (h : index.Alike other) (path : String) :
    (index.addIncludePath path).value.Alike (other.addIncludePath path).value :=
  ⟨h.settings_eq, h.interfaceOnly_eq, h.roots_eq, h.unitPaths_eq,
    congrArg (fun table => (register table path).value) h.includePaths_eq, h.uses_eq⟩

/-- So does registering many source files. -/
theorem Alike.foldlM_addSourceFile (h : index.Alike other) (files : List String) :
    (files.foldlM addSourceFile index).value.Alike (files.foldlM addSourceFile other).value := by
  induction files generalizing index other with
  | nil => exact h
  | cons path rest ih =>
      rw [List.foldlM_cons, List.foldlM_cons, Traced.value_bind, Traced.value_bind]
      refine ih ?_
      rw [addSourceFile, addSourceFile, h.settings_eq]
      split
      · exact h.addIncludePath path
      · exact h.addUnitPath path

/-- So does registering a directory, in workspaces that are alike. -/
theorem Alike.addDirectory (hspace : workspace.Alike second) (h : index.Alike other)
    (path : String) :
    (index.after workspace (.addDirectory path)).Alike
      (other.after second (.addDirectory path)) := by
  simp only [after, Index.addDirectory, hspace.directory?, hspace.sourceFiles, h.settings_eq]
  cases workspace.directory? path with
  | none => exact h
  | some directory => exact h.foldlM_addSourceFile _

/-- Every action leaves indexes alike. -/
theorem Alike.after (hspace : workspace.Alike second) (h : index.Alike other)
    {action otherAction : Action} (haction : action.Alike otherAction) :
    (index.after workspace action).Alike (other.after second otherAction) := by
  cases haction with
  | addUnitPath path => exact h.addUnitPath path
  | addIncludePath path => exact h.addIncludePath path
  | addDirectory path => exact h.addDirectory hspace path
  | setInterfaceOnly interfaceOnly =>
      exact ⟨h.settings_eq, rfl, h.roots_eq, h.unitPaths_eq, h.includePaths_eq, h.uses_eq⟩
  | load hunit => exact (h.load hspace hunit).1
  | build hroots => exact h.build hspace hroots

/-- So do any number of actions. -/
theorem Alike.afterAll (h : index.Alike other) {actions others : List (Workspace × Action)}
    (hactions : List.Forall₂
      (fun action other => action.1.Alike other.1 ∧ action.2.Alike other.2) actions others) :
    (index.afterAll actions).Alike (other.afterAll others) := by
  induction hactions generalizing index other with
  | nil => exact h
  | cons haction _ ih => exact ih (h.after haction.1 haction.2)

end Index

end PascalUnits
