import Mathlib.Data.List.Infix
import PascalUnits.Proofs.Index.Expansion

/-!
# The part that a name stands in

Reading a unit is a walk over its file and over the include files that are followed from it, each
one where its directive stands. A name is taken to stand in the implementation part if the keyword
was met before it in the same file, or in a file that was being read when that file was included
(`Begun`). What an include file begins ends with it. The main statement,
`load_parts_of_names`, says so of a load, and when this is the same as one part for the whole unit.
-/

namespace PascalUnits

namespace Source

/-- What reading a unit meets: the keyword that begins the implementation part, a name, and the
beginning and the end of an include file. -/
inductive Step where
  | implementation
  | identifier (name : String)
  | enter
  | leave
  deriving DecidableEq, Repr

/-- What one token is to a walk. `follow` gives the steps of an include directive. -/
def stepsOf (follow : String → List Step) (found : Token × Bytes) : List Step :=
  if found.1 = .directive ∧ isInclude (Bytes.latin found.2) then follow (Bytes.latin found.2)
  else if found.1 = .word .implementation then [.implementation]
  else if found.1 = .identifier then [.identifier (Bytes.latin found.2)]
  else []

/-- The steps over the file at `path`, with include directives followed `depth` deep. -/
def walk (workspace : Workspace) (includes : NameTable String) : Nat → String → List Step
  | 0, path => (tokens workspace path).flatMap (stepsOf fun _ => [])
  | depth + 1, path => (tokens workspace path).flatMap (stepsOf fun directive =>
    match includes.find? (UnitName.ofPath (includeName directive)) with
    | some file => Step.enter :: walk workspace includes depth file ++ [.leave]
    | none => [])

/-- The name that is met in one step, with the steps before it. -/
def Step.met (before : List Step) : Step → List (List Step × String)
  | .identifier name => [(before, name)]
  | _ => []

/-- The names among steps that are made after the steps `before`. -/
def occurrencesAfter (before : List Step) : List Step → List (List Step × String)
  | [] => []
  | step :: rest => step.met before ++ occurrencesAfter (before ++ [step]) rest

/-- The names that a walk meets, each with the steps before it. -/
def occurrences (steps : List Step) : List (List Step × String) :=
  occurrencesAfter [] steps

/-- No file is left that was not entered on the way. -/
def Inside (steps : List Step) : Prop :=
  ∀ part ∈ steps.inits, part.count .leave ≤ part.count .enter

instance (steps : List Step) : Decidable (Inside steps) :=
  inferInstanceAs (Decidable (∀ part ∈ steps.inits, _))

/-- The implementation part has begun in a file that is still being read. -/
def Begun (before : List Step) : Prop :=
  ∃ later ∈ before.tails, later.head? = some .implementation ∧ Inside later

instance (before : List Step) : Decidable (Begun before) :=
  inferInstanceAs (Decidable (∃ later ∈ before.tails, _))

/-- The part in which a name stands after the steps `before`. -/
def partAfter (before : List Step) : UnitPart :=
  if Begun before then .implementation else .interface

/-- The part of the whole unit after the steps `before`: there is one for all its files. -/
def unitPartAfter (before : List Step) : UnitPart :=
  if .implementation ∈ before then .implementation else .interface

theorem mem_occurrencesAfter {made before steps : List Step} {name : String} :
    (before, name) ∈ occurrencesAfter made steps ↔
      ∃ earlier later, steps = earlier ++ Step.identifier name :: later ∧
        before = made ++ earlier := by
  induction steps generalizing made with
  | nil => simp [occurrencesAfter]
  | cons step rest ih =>
      have hmet : (before, name) ∈ step.met made ↔ step = .identifier name ∧ before = made := by
        cases step <;> simp [Step.met, eq_comm, and_comm]
      rw [occurrencesAfter, List.mem_append, hmet, ih]
      constructor
      · rintro (⟨rfl, rfl⟩ | ⟨earlier, later, rfl, rfl⟩)
        · exact ⟨[], rest, rfl, (List.append_nil _).symm⟩
        · exact ⟨step :: earlier, later, rfl, by simp⟩
      · rintro ⟨earlier, later, hsteps, rfl⟩
        cases earlier with
        | nil => exact .inl ⟨(List.cons.inj hsteps).1, List.append_nil _⟩
        | cons first earlier =>
            obtain ⟨rfl, rfl⟩ := List.cons.inj hsteps
            exact .inr ⟨earlier, later, rfl, by simp⟩

/-- A name is met after the steps that stand before it. -/
theorem mem_occurrences {steps before : List Step} {name : String} :
    (before, name) ∈ occurrences steps ↔
      ∃ later, steps = before ++ Step.identifier name :: later := by
  rw [occurrences, mem_occurrencesAfter]
  simp

theorem occurrencesAfter_append (before first second : List Step) :
    occurrencesAfter before (first ++ second) =
      occurrencesAfter before first ++ occurrencesAfter (before ++ first) second := by
  induction first generalizing before with
  | nil => simp [occurrencesAfter]
  | cons step rest ih => simp [occurrencesAfter, ih]

/-- Entering a file meets no name. -/
theorem occurrencesAfter_enter (before steps : List Step) :
    occurrencesAfter before (.enter :: steps) = occurrencesAfter (before ++ [Step.enter]) steps :=
  rfl

variable {before steps more : List Step}

theorem inside_iff : Inside steps ↔
    ∀ part, part <+: steps → part.count .leave ≤ part.count .enter := by
  simp only [Inside, List.mem_inits]

theorem Inside.count_le (h : Inside steps) : steps.count .leave ≤ steps.count .enter :=
  inside_iff.1 h steps List.prefix_rfl

theorem Inside.of_append (h : Inside (steps ++ more)) : Inside steps :=
  inside_iff.2 fun part hpart => inside_iff.1 h part (hpart.trans (List.prefix_append _ _))

theorem Inside.append (h : Inside steps) (hmore : Inside more) : Inside (steps ++ more) := by
  rw [inside_iff] at hmore ⊢
  intro part hpart
  rcases List.prefix_or_prefix_of_prefix hpart (List.prefix_append steps more) with hfirst | hsteps
  · exact inside_iff.1 h part hfirst
  · obtain ⟨rest, rfl⟩ := hsteps
    have hrest := hmore rest ((List.prefix_append_right_inj steps).1 hpart)
    have hcount := h.count_le
    simp only [List.count_append]
    omega

theorem inside_implementation_cons : Inside (.implementation :: steps) ↔ Inside steps := by
  constructor
  · intro h
    refine inside_iff.2 fun part hpart => ?_
    have hcount := inside_iff.1 h (.implementation :: part) (List.cons_prefix_cons.2 ⟨rfl, hpart⟩)
    simpa using hcount
  · exact fun h => Inside.append (by decide : Inside [.implementation]) h

theorem begun_iff : Begun before ↔
    ∃ earlier later, before = earlier ++ Step.implementation :: later ∧ Inside later := by
  constructor
  · intro hbegun
    obtain ⟨later, hlater, hhead, hinside⟩ := hbegun
    obtain ⟨rest, rfl⟩ := List.head?_eq_some_iff.1 hhead
    obtain ⟨earlier, rfl⟩ := (List.mem_tails _ _).1 hlater
    exact ⟨earlier, rest, rfl, inside_implementation_cons.1 hinside⟩
  · intro hbegun
    obtain ⟨earlier, later, rfl, hinside⟩ := hbegun
    exact ⟨_, (List.mem_tails _ _).2 (List.suffix_append _ _), rfl,
      inside_implementation_cons.2 hinside⟩

/-- A part does not begin without the keyword. -/
theorem Begun.implementation_mem (h : Begun before) : .implementation ∈ before := by
  obtain ⟨earlier, later, rfl, -⟩ := begun_iff.1 h
  simp

/-- A part that has begun goes on through steps inside its file. -/
theorem begun_append (h : Inside more) : Begun (before ++ more) ↔ Begun before ∨ Begun more := by
  simp only [begun_iff]
  constructor
  · intro hbegun
    obtain ⟨earlier, later, hsteps, hinside⟩ := hbegun
    rcases List.append_eq_append_iff.1 hsteps with ⟨between, -, hmore⟩ | ⟨between, hbefore, hmore⟩
    · exact .inr ⟨between, later, hmore, hinside⟩
    · cases between with
      | nil => exact .inr ⟨[], later, hmore.symm, hinside⟩
      | cons step between =>
          obtain ⟨rfl, rfl⟩ := List.cons.inj hmore
          exact .inl ⟨earlier, between, hbefore, hinside.of_append⟩
  · rintro (⟨earlier, later, rfl, hinside⟩ | ⟨earlier, later, rfl, hinside⟩)
    · exact ⟨earlier, later ++ more, by simp, hinside.append h⟩
    · exact ⟨before ++ earlier, later, by simp, hinside⟩

/-- Steps that leave the files that they enter, and no others. -/
structure Balanced (steps : List Step) : Prop where
  inside : Inside steps
  count_eq : steps.count .leave = steps.count .enter

theorem Balanced.nil : Balanced [] :=
  ⟨by decide, rfl⟩

theorem Balanced.implementation : Balanced [.implementation] :=
  ⟨by decide, rfl⟩

theorem Balanced.identifier (name : String) : Balanced [.identifier name] :=
  ⟨by simp [Inside], rfl⟩

theorem Balanced.append (h : Balanced steps) (hmore : Balanced more) :
    Balanced (steps ++ more) := by
  refine ⟨h.inside.append hmore.inside, ?_⟩
  rw [List.count_append, List.count_append, h.count_eq, hmore.count_eq]

/-- An include file is entered and left. -/
theorem Balanced.included (h : Balanced steps) : Balanced (Step.enter :: steps ++ [.leave]) := by
  have hcount := h.count_eq
  refine ⟨inside_iff.2 fun part hpart => ?_, by simp; omega⟩
  rcases List.prefix_concat_iff.1 hpart with rfl | hpart
  · simp
    omega
  · have hinside : Inside (.enter :: steps) := .append (by decide : Inside [.enter]) h.inside
    exact inside_iff.1 hinside part hpart

/-- A part that begins in an include file ends with it. -/
theorem Balanced.not_begun (h : Balanced steps) : ¬ Begun (Step.enter :: steps ++ [.leave]) := by
  rw [begun_iff]
  rintro ⟨earlier, later, hsteps, hinside⟩
  rcases List.eq_nil_or_concat later with rfl | ⟨later, step, rfl⟩
  · obtain ⟨-, hstep⟩ := List.append_inj' hsteps rfl
    cases hstep
  · have hcut : Step.enter :: steps ++ [.leave] =
        (earlier ++ Step.implementation :: later) ++ [step] := by simpa using hsteps
    obtain ⟨hfile, hstep⟩ := List.append_inj' hcut rfl
    obtain rfl := List.singleton_inj.1 hstep
    cases earlier with
    | nil => cases hfile
    | cons first earlier =>
        obtain ⟨-, rfl⟩ := List.cons.inj hfile
        -- from the keyword on, one more file is left than is entered
        have hbefore := inside_iff.1 h.inside earlier (List.prefix_append _ _)
        have hafter := hinside.count_le
        have hcount := h.count_eq
        simp [List.count_append] at hafter hcount
        omega

/-- Steps stay balanced if those of every directive are. -/
theorem balanced_flatMap {follow : String → List Step}
    (h : ∀ directive, Balanced (follow directive)) (tokens : List (Token × Bytes)) :
    Balanced (tokens.flatMap (stepsOf follow)) := by
  induction tokens with
  | nil => exact .nil
  | cons found rest ih =>
      refine .append ?_ ih
      unfold stepsOf
      split
      · exact h _
      · split
        · exact .implementation
        · split
          · exact .identifier _
          · exact .nil

/-- What an include directive is to a walk when `more` levels of include files are still
followed. -/
def followed (workspace : Workspace) (includes : NameTable String) : Nat → String → List Step
  | 0, _ => []
  | more + 1, directive =>
    match includes.find? (UnitName.ofPath (includeName directive)) with
    | some file => Step.enter :: walk workspace includes more file ++ [.leave]
    | none => []

variable {workspace : Workspace} {includes : NameTable String} {unit : String} {more : Nat}

theorem walk_eq (more : Nat) (path : String) :
    walk workspace includes more path =
      (tokens workspace path).flatMap (stepsOf (followed workspace includes more)) := by
  cases more <;> rfl

/-- A walk leaves the include files that it enters. -/
theorem balanced_followed (more : Nat) (directive : String) :
    Balanced (followed workspace includes more directive) := by
  induction more generalizing directive with
  | zero => exact .nil
  | succ more ih =>
      rw [followed]
      split
      · rw [walk_eq]
        exact (balanced_flatMap ih _).included
      · exact .nil

/-- Steps inside a file leave the part as it is, unless they end in the implementation part. -/
theorem partAfter_append (h : Inside steps) (hnot : ¬ Begun steps) :
    partAfter (before ++ steps) = partAfter before := by
  simp only [partAfter, begun_append h, or_iff_left hnot]

@[simp] theorem partAfter_implementation :
    partAfter (before ++ [Step.implementation]) = .implementation :=
  if_pos ((begun_append (by decide)).2 (.inr (by decide)))

@[simp] theorem partAfter_identifier (name : String) :
    partAfter (before ++ [Step.identifier name]) = partAfter before :=
  partAfter_append (Balanced.identifier name).inside fun h => by simpa using h.implementation_mem

@[simp] theorem partAfter_enter : partAfter (before ++ [Step.enter]) = partAfter before :=
  partAfter_append (by decide) (by decide)

/-- A directive leaves the part as it is. -/
@[simp] theorem partAfter_followed (before : List Step) (directive : String) :
    partAfter (before ++ followed workspace includes more directive) = partAfter before := by
  refine partAfter_append (balanced_followed more directive).inside ?_
  cases more with
  | zero => exact (by decide : ¬ Begun [])
  | succ more =>
      rw [followed]
      split
      · rw [walk_eq]
        exact (balanced_flatMap (balanced_followed more) _).not_begun
      · decide

/-- A name that a walk meets, with the part that it stands in. -/
def place (occurrence : List Step × String) : UnitPart × String :=
  (partAfter occurrence.1, occurrence.2)

/-- What is found among tokens are the names that a walk meets, in the parts that they stand in, if
this is so of what directives bring. -/
theorem mentionsOf_eq_occurrences
    (hbrought : ∀ before directive,
      brought workspace includes unit more (partAfter before) directive =
        (occurrencesAfter before (followed workspace includes more directive)).map place)
    (before : List Step) (tokens : List (Token × Bytes)) :
    mentionsOf (brought workspace includes unit more) (partAfter before) tokens =
      (occurrencesAfter before
        (tokens.flatMap (stepsOf (followed workspace includes more)))).map place := by
  induction tokens generalizing before with
  | nil => rfl
  | cons found rest ih =>
      obtain ⟨token, literal⟩ := found
      rw [mentionsOf, List.flatMap_cons, occurrencesAfter_append, List.map_append, ← ih, stepsOf]
      split
      · rw [hbrought, partAfter_followed]
      · split
        · rw [partAfter_implementation]
          rfl
        · split
          · rw [partAfter_identifier]
            rfl
          · rw [List.append_nil]
            rfl

/-- The names that directives bring are those that a walk over their files meets. -/
theorem brought_eq_occurrences (more : Nat) (before : List Step) (directive : String) :
    brought workspace includes unit more (partAfter before) directive =
      (occurrencesAfter before (followed workspace includes more directive)).map place := by
  induction more generalizing before directive with
  | zero => rfl
  | succ more ih =>
      rw [brought, followed]
      cases includes.find? (UnitName.ofPath (includeName directive)) with
      | none => rfl
      | some file =>
          show mentions (findings workspace includes unit more (partAfter before) file) =
            (occurrencesAfter before
              (Step.enter :: (walk workspace includes more file ++ [.leave]))).map place
          rw [← partAfter_enter, mentions_findings, mentionsOf_eq_occurrences ih, ← walk_eq,
            occurrencesAfter_enter, occurrencesAfter_append, List.map_append]
          exact (List.append_nil _).symm

/-- The names that are found in the file at `path` are those that a walk over it meets. -/
theorem mentions_eq_occurrences (depth : Nat) (path : String) :
    mentions (findings workspace includes unit depth .interface path) =
      (occurrences (walk workspace includes depth path)).map place := by
  rw [mentions_findings, walk_eq]
  exact mentionsOf_eq_occurrences (brought_eq_occurrences depth) [] _

end Source

open Source in
/-- The parts that a load puts names in. A unit's source is read in one walk, which meets its names
in order. What is recorded of those that count is as their parts say, where a name stands in the
implementation part if that part has begun in its own file, or in a file that is being read. There
being one part for all files of the unit comes to the same exactly when no name that counts is met
after the implementation part has ended with an include file. -/
theorem load_parts_of_names (workspace : Workspace) {index : Index} {unit path : String}
    (hpath : index.unitPaths.find? unit = some path) (hunloaded : index.isLoaded unit = false) :
    let steps := walk workspace index.includePaths index.settings.maxIncludeDepth path
    let counted := (occurrences steps).filter fun occurrence => index.counts unit occurrence.2
    let names := fun part => Reading.namesIn part (counted.map place)
    (∃ reading,
      (index.load workspace unit).value =
        ({ index with uses := index.uses.insert unit reading.uses }, some reading) ∧
      UnitName.Lists reading.uses.interface (names .interface) ∧
      (index.interfaceOnly = false →
        UnitName.Lists reading.uses.implementation (names .implementation) ∧
          reading.unrecorded = []) ∧
      (index.interfaceOnly = true →
        reading.uses.implementation = [] ∧ reading.unrecorded = names .implementation)) ∧
    (counted.map place = counted.map (fun occurrence =>
        (unitPartAfter occurrence.1, occurrence.2)) ↔
      ∀ before name later, steps = before ++ Step.identifier name :: later →
        index.counts unit name → .implementation ∈ before → Begun before) := by
  intro steps counted names
  have hcounted : index.counted unit (index.sourceFindings workspace unit path) =
      counted.map place := by
    rw [Index.counted, Index.sourceFindings, mentions_eq_occurrences, List.filter_map]
    rfl
  refine ⟨⟨_, Index.load_eq_reading workspace hpath hunloaded, ?_⟩, ?_⟩
  · have hlists := index.lists_counted unit (index.sourceFindings workspace unit path)
    rwa [hcounted] at hlists
  · rw [List.map_inj_left]
    constructor
    · intro hsame before name later hsteps hname himplementation
      have hmem : (before, name) ∈ counted :=
        List.mem_filter.2 ⟨mem_occurrences.2 ⟨later, hsteps⟩, hname⟩
      have hpart : partAfter before = unitPartAfter before := congrArg Prod.fst (hsame _ hmem)
      rw [unitPartAfter, if_pos himplementation, partAfter] at hpart
      by_contra hbegun
      rw [if_neg hbegun] at hpart
      cases hpart
    · rintro hbegun ⟨before, name⟩ hmem
      obtain ⟨hoccurs, hname⟩ := List.mem_filter.1 hmem
      obtain ⟨later, hsteps⟩ := mem_occurrences.1 hoccurs
      have hiff : Begun before ↔ .implementation ∈ before :=
        ⟨Begun.implementation_mem, hbegun before name later hsteps hname⟩
      simp only [place, partAfter, unitPartAfter, hiff]

open Source in
/-- An include file in the implementation part, for instance. -/
theorem load_parts_of_included :
    let workspace : Workspace :=
      { tree := (FileTree.empty.write ["m.pas"]
          (Bytes.ofText "A implementation \x7b$I x\x7d")).write ["x.inc"] (Bytes.ofText "B")
        here := [], systemScratch := "/tmp", run := "1" }
    let index : Index :=
      { unitPaths := ((NameTable.empty.insert "m" "m.pas").insert "a" "a.pas").insert "b" "b.pas"
        includePaths := NameTable.empty.insert "x" "x.inc" }
    index.unitPaths.find? "m" = some "m.pas" ∧ index.isLoaded "m" = false ∧
    ∃ reading, (index.load workspace "m").value.2 = some reading ∧
      UnitName.Lists reading.uses.interface ["A"] ∧
      UnitName.Lists reading.uses.implementation ["B"] := by
  intro workspace index
  have hpath : index.unitPaths.find? "m" = some "m.pas" := by decide +kernel
  have hunloaded : index.isLoaded "m" = false := by decide +kernel
  obtain ⟨⟨reading, hload, hinterface, hboth, -⟩, -⟩ :=
    load_parts_of_names workspace hpath hunloaded
  have hsteps : walk workspace index.includePaths index.settings.maxIncludeDepth "m.pas" =
      [.identifier "A", .implementation, .enter, .identifier "B", .leave] := by decide +kernel
  rw [hsteps] at hinterface hboth
  refine ⟨hpath, hunloaded, reading, congrArg Prod.snd hload, ?_, ?_⟩
  · exact hinterface
  · exact (hboth rfl).1

open Source in
/-- When the keyword stands in an include file, on the other hand, the names behind the directive
stay in the interface part. -/
theorem load_part_ends_with_file :
    let workspace : Workspace :=
      { tree := ((FileTree.empty.write ["Main.pas"]
            (Bytes.ofText "unit Main;\ninterface\n\x7b$I a.inc\x7d\nuses B;\nend.")).write
          ["a.inc"] (Bytes.ofText "implementation\n")).write
          ["B.pas"] (Bytes.ofText "unit B; end.")
        here := [], systemScratch := "/tmp", run := "1" }
    let index : Index :=
      (Index.addIncludePath (Index.addUnitPath (Index.addUnitPath {} "Main.pas").value
        "B.pas").value "a.inc").value
    index.unitPaths.find? "Main" = some "Main.pas" ∧
    walk workspace index.includePaths index.settings.maxIncludeDepth "Main.pas" =
      [.identifier "Main", .enter, .implementation, .leave, .identifier "B"] ∧
    (index.load workspace "Main").value.1.get? "Main" =
      some { unit := "Main", interface := ["B"] } := by
  decide +kernel

end PascalUnits
