import PascalUnits.Proofs.Index.Mentions
import PascalUnits.Proofs.UnitName

/-!
# What reading a unit gives

Mentions are recorded part by part (`lists_foldl_note_eq`). The units that a reading leads to are
those that the source mentions, whether or not uses in implementation parts are recorded
(`mem_keys_reading`). What is recorded depends on the unit by its key only (`lists_reading_congr`).
-/

namespace PascalUnits

namespace Reading

/-- The keys of the units that a reading leads to. -/
def keys (reading : Reading) : List String :=
  reading.following.map UnitName.key

/-- They are those of both lists and of what is not recorded. -/
theorem mem_keys {reading : Reading} {key : String} :
    key ∈ reading.keys ↔ key ∈ reading.uses.interface.map UnitName.key ∨
      key ∈ reading.uses.implementation.map UnitName.key ∨
      key ∈ reading.unrecorded.map UnitName.key := by
  simp [keys, following, UnitUses.edges]

/-- A noted mention is followed in some spelling, whether or not it is recorded. -/
theorem mem_keys_note {interfaceOnly : Bool} {reading : Reading} {mention : UnitPart × String}
    {key : String} :
    key ∈ (reading.note interfaceOnly mention).keys ↔
      key = UnitName.key mention.2 ∨ key ∈ reading.keys := by
  obtain ⟨part, name⟩ := mention
  rw [mem_keys, mem_keys, note]
  split
  · cases part with
    | interface => simp only [UnitUses.add, UnitName.mem_map_key_insert, or_assoc]
    | implementation =>
        simp only [UnitUses.add, UnitName.mem_map_key_insert]
        grind
  · simp only [List.map_append, List.mem_append, List.map_cons, List.map_nil, List.mem_singleton]
    grind

/-- Noting mentions leads to each of them. -/
theorem mem_keys_foldl_note {interfaceOnly : Bool} {reading : Reading}
    {mentions : List (UnitPart × String)} {key : String} :
    key ∈ (mentions.foldl (note interfaceOnly) reading).keys ↔
      key ∈ reading.keys ∨ ∃ mention ∈ mentions, UnitName.key mention.2 = key := by
  induction mentions generalizing reading with
  | nil => simp
  | cons mention rest ih =>
      rw [List.foldl_cons, ih, mem_keys_note]
      simp only [List.mem_cons, exists_eq_or_imp]
      grind

/-- What is recorded, and what is not. -/
def lists (reading : Reading) : List String × List String × List String :=
  (reading.uses.interface, reading.uses.implementation, reading.unrecorded)

/-- The names that are mentioned in a part. -/
def namesIn (part : UnitPart) (mentions : List (UnitPart × String)) : List String :=
  (mentions.filter (·.1 = part)).map (·.2)

/-- Names mentioned in the interface part are inserted into its list. So are those mentioned in the
implementation part, unless only interface parts count: then they are set aside as they are. -/
theorem lists_foldl_note_eq (interfaceOnly : Bool) (mentions : List (UnitPart × String))
    (reading : Reading) :
    (mentions.foldl (note interfaceOnly) reading).lists =
      (UnitName.insertAll (namesIn .interface mentions) reading.uses.interface,
        if interfaceOnly then (reading.uses.implementation,
          reading.unrecorded ++ namesIn .implementation mentions)
        else (UnitName.insertAll (namesIn .implementation mentions) reading.uses.implementation,
          reading.unrecorded)) := by
  induction mentions generalizing reading with
  | nil => cases interfaceOnly <;> simp [lists, namesIn, UnitName.insertAll]
  | cons mention rest ih =>
      obtain ⟨part, name⟩ := mention
      rw [List.foldl_cons, ih]
      cases part with
      | interface => cases interfaceOnly <;> rfl
      | implementation =>
          cases interfaceOnly with
          | false => rfl
          | true => simp [note, namesIn]

/-- Noting mentions changes the lists alike for every unit. -/
theorem lists_foldl_note (interfaceOnly : Bool) (mentions : List (UnitPart × String))
    {reading other : Reading} (h : reading.lists = other.lists) :
    (mentions.foldl (note interfaceOnly) reading).lists =
      (mentions.foldl (note interfaceOnly) other).lists := by
  simp only [lists, Prod.mk.injEq] at h
  obtain ⟨hinterface, himplementation, hunrecorded⟩ := h
  rw [lists_foldl_note_eq, lists_foldl_note_eq, hinterface, himplementation, hunrecorded]

/-- Noting mentions does not change the unit. -/
theorem unit_foldl_note (interfaceOnly : Bool) (mentions : List (UnitPart × String))
    (reading : Reading) :
    (mentions.foldl (note interfaceOnly) reading).uses.unit = reading.uses.unit := by
  induction mentions generalizing reading with
  | nil => rfl
  | cons mention rest ih =>
      rw [List.foldl_cons, ih, note]
      split
      · cases mention.1 <;> rfl
      · rfl

end Reading

namespace Index

variable {workspace : Workspace} {index : Index} {unit other path : String}

/-- What counts for a unit depends on it by its key. -/
theorem counts_congr (h : UnitName.key unit = UnitName.key other) :
    index.counts unit = index.counts other := by
  funext name
  rw [counts, counts, h]

/-- A reading is about the unit that was read. -/
theorem unit_reading (findings : List Finding) : (index.reading unit findings).uses.unit = unit :=
  Reading.unit_foldl_note _ _ _

/-- The mentions among findings that count for a unit. -/
def counted (index : Index) (unit : String) (findings : List Finding) :
    List (UnitPart × String) :=
  (Source.mentions findings).filter fun mention => index.counts unit mention.2

/-- A reading records the mentions that count. -/
theorem lists_reading (index : Index) (unit : String) (findings : List Finding) :
    (index.reading unit findings).lists =
      (UnitName.insertAll (Reading.namesIn .interface (index.counted unit findings)) [],
        if index.interfaceOnly then
          ([], Reading.namesIn .implementation (index.counted unit findings))
        else
          (UnitName.insertAll
            (Reading.namesIn .implementation (index.counted unit findings)) [], [])) :=
  Reading.lists_foldl_note_eq _ _ _

/-- What a reading records of the mentions that count. -/
theorem lists_counted (index : Index) (unit : String) (findings : List Finding) :
    let names := fun part => Reading.namesIn part (index.counted unit findings)
    UnitName.Lists (index.reading unit findings).uses.interface (names .interface) ∧
    (index.interfaceOnly = false →
      UnitName.Lists (index.reading unit findings).uses.implementation (names .implementation) ∧
        (index.reading unit findings).unrecorded = []) ∧
    (index.interfaceOnly = true →
      (index.reading unit findings).uses.implementation = [] ∧
        (index.reading unit findings).unrecorded = names .implementation) := by
  intro names
  have hlists := index.lists_reading unit findings
  obtain ⟨hinterface, hothers⟩ := Prod.ext_iff.1 hlists
  obtain ⟨himplementation, hunrecorded⟩ := Prod.ext_iff.1 hothers
  simp only [Reading.lists] at hinterface himplementation hunrecorded
  refine ⟨?_, fun hboth => ?_, fun honly => ?_⟩
  · rw [hinterface]
    exact UnitName.lists_insertAll _
  · rw [hboth] at himplementation hunrecorded
    refine ⟨?_, hunrecorded⟩
    rw [himplementation]
    exact UnitName.lists_insertAll _
  · rw [honly] at himplementation hunrecorded
    exact ⟨himplementation, hunrecorded⟩

/-- What is recorded depends on the unit by its key. -/
theorem lists_reading_congr (h : UnitName.key unit = UnitName.key other) :
    (index.reading unit (index.sourceFindings workspace unit path)).lists =
      (index.reading other (index.sourceFindings workspace other path)).lists := by
  have hmentions : Source.mentions (index.sourceFindings workspace unit path) =
      Source.mentions (index.sourceFindings workspace other path) :=
    Source.mentions_findings_unit ..
  rw [reading, reading, hmentions, counts_congr h]
  exact Reading.lists_foldl_note _ _ rfl

/-- A reading leads to the units that the source mentions. -/
theorem mem_keys_reading (hpath : index.unitPaths.find? unit = some path) {key : String} :
    key ∈ (index.reading unit (index.sourceFindings workspace unit path)).keys ↔
      Mentions workspace index (UnitName.key unit) key := by
  have hoccurs : ∀ name, name ∈ (Source.mentions (index.sourceFindings workspace unit path)).map
      (·.2) ↔ Occurs workspace index.includePaths index.settings.maxIncludeDepth path name :=
    fun name => Source.mem_findings_iff_occurs ..
  have hempty : key ∉ ({ uses := { unit } } : Reading).keys := by
    rw [Reading.mem_keys]
    simp
  rw [reading, Reading.mem_keys_foldl_note, or_iff_right hempty]
  constructor
  · intro hfollowing
    obtain ⟨mention, hmention, rfl⟩ := hfollowing
    obtain ⟨hfound, hcounts⟩ := List.mem_filter.1 hmention
    simp only [counts, Bool.and_eq_true, bne_iff_ne] at hcounts
    refine ⟨path, mention.2, ?_, ?_, hcounts.2, rfl, hcounts.1⟩
    · rwa [NameTable.find?_key]
    · exact (hoccurs _).1 (List.mem_map_of_mem hfound)
  · intro hmentions
    obtain ⟨file, name, hfile, hname, hregistered, rfl, hother⟩ := hmentions
    rw [NameTable.find?_key, hpath] at hfile
    cases hfile
    obtain ⟨mention, hmention, rfl⟩ := List.mem_map.1 ((hoccurs name).2 hname)
    refine ⟨mention, List.mem_filter.2 ⟨hmention, ?_⟩, rfl⟩
    simp only [counts, Bool.and_eq_true, bne_iff_ne]
    exact ⟨hother, hregistered⟩

end Index

end PascalUnits
