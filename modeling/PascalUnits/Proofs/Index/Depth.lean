import Mathlib.Data.Finset.Prod
import Mathlib.Order.Monotone.Basic
import PascalUnits.Proofs.Index.Expansion

/-!
# How deep include directives are followed

What a file gives depends on what the include files bring that its directives enter, and what one of
them brings depends on the file and the part in which it is entered. So follow one mention: the
`entrances` through which it is brought determine those one level further up (`entrances_succ`).
They only become more with the depth, and there are two for each include file, so from that depth on
they stay (`entrances_eq`). The main statement is `include_depth_saturates`.
-/

namespace PascalUnits

namespace Source

/-- What an include file brings that is entered in a part, by the name that it is registered for,
when `more` levels of include files are still followed. -/
def entered (workspace : Workspace) (includes : NameTable String) (unit : String) :
    Nat → UnitPart → String → List (UnitPart × String)
  | 0, _, _ => []
  | more + 1, part, name =>
    match includes.find? name with
    | some file => mentions (findings workspace includes unit more part file)
    | none => []

/-- Where include files can be entered: in a part of the unit, by the key of the file. -/
def places (includes : NameTable String) : Finset (UnitPart × String) :=
  {.interface, .implementation} ×ˢ includes.keys.toFinset

/-- The places where an include file brings a mention, when `more` levels are still followed. -/
def entrances (workspace : Workspace) (includes : NameTable String) (unit : String)
    (mention : UnitPart × String) (more : Nat) : Finset (UnitPart × String) :=
  (places includes).filter fun place =>
    mention ∈ entered workspace includes unit more place.1 place.2

variable {workspace : Workspace} {includes : NameTable String} {unit : String}
  {mention : UnitPart × String} {more other : Nat}

/-- More is met among tokens if directives bring more. -/
theorem mem_mentionsOf_of_imp {follow more : UnitPart → String → List (UnitPart × String)}
    (hfollow : ∀ part directive, mention ∈ follow part directive → mention ∈ more part directive)
    {part : UnitPart} {tokens : List (Token × Bytes)}
    (h : mention ∈ mentionsOf follow part tokens) : mention ∈ mentionsOf more part tokens := by
  induction tokens generalizing part with
  | nil => cases h
  | cons found rest ih =>
      obtain ⟨token, literal⟩ := found
      rw [mentionsOf] at h ⊢
      split at h
      · rename_i hdirective
        rw [if_pos hdirective]
        exact List.mem_append.2 ((List.mem_append.1 h).imp (hfollow _ _) ih)
      · rename_i hdirective
        rw [if_neg hdirective]
        split at h
        · rename_i himplementation
          rw [if_pos himplementation]
          exact ih h
        · rename_i himplementation
          rw [if_neg himplementation]
          split at h
          · rename_i hidentifier
            rw [if_pos hidentifier]
            exact List.mem_cons.2 ((List.mem_cons.1 h).imp_right ih)
          · rename_i hidentifier
            rw [if_neg hidentifier]
            exact ih h

/-- A directive brings what the file brings that it names. -/
theorem brought_eq_entered (more : Nat) (part : UnitPart) (directive : String) :
    brought workspace includes unit more part directive =
      entered workspace includes unit more part (UnitName.ofPath (includeName directive)) := by
  cases more with
  | zero => rfl
  | succ more => rfl

/-- Spelling does not matter to what a file brings. -/
theorem entered_key (more : Nat) (part : UnitPart) (name : String) :
    entered workspace includes unit more part (UnitName.key name) =
      entered workspace includes unit more part name := by
  cases more with
  | zero => rfl
  | succ more => rw [entered, entered, includes.find?_key]

/-- Only registered files bring anything. -/
theorem contains_of_mem_entered {part : UnitPart} {name : String}
    (h : mention ∈ entered workspace includes unit more part name) : includes.contains name := by
  cases more with
  | zero => cases h
  | succ more =>
      rw [entered] at h
      split at h
      · rename_i file hfile
        exact NameTable.contains_of_find? hfile
      · cases h

/-- The entrances say of every file whether it brings a mention. -/
theorem entrances_subset_iff :
    entrances workspace includes unit mention more ⊆
        entrances workspace includes unit mention other ↔
      ∀ part name, mention ∈ entered workspace includes unit more part name →
        mention ∈ entered workspace includes unit other part name := by
  constructor
  · intro h part name hmention
    have hplace : (part, UnitName.key name) ∈ entrances workspace includes unit mention more := by
      have hkey := NameTable.key_mem_keys.2 (contains_of_mem_entered hmention)
      rw [entrances, Finset.mem_filter, entered_key]
      refine ⟨Finset.mem_product.2 ⟨?_, List.mem_toFinset.2 hkey⟩, hmention⟩
      cases part <;> simp
    have hbrought := (Finset.mem_filter.1 (h hplace)).2
    rwa [entered_key] at hbrought
  · intro h
    exact Finset.monotone_filter_right _ fun place _ => h place.1 place.2

/-- What the include files bring determines what a file gives. -/
theorem mem_findings_of_subset {part : UnitPart} {path : String}
    (h : entrances workspace includes unit mention more ⊆
      entrances workspace includes unit mention other)
    (hmention : mention ∈ mentions (findings workspace includes unit more part path)) :
    mention ∈ mentions (findings workspace includes unit other part path) := by
  rw [mentions_findings] at hmention ⊢
  refine mem_mentionsOf_of_imp (fun part directive => ?_) hmention
  rw [brought_eq_entered, brought_eq_entered]
  exact entrances_subset_iff.1 h part _

/-- So it determines what the include files bring at a place with one level more. -/
theorem entrances_succ
    (h : entrances workspace includes unit mention more ⊆
      entrances workspace includes unit mention other) :
    entrances workspace includes unit mention (more + 1) ⊆
      entrances workspace includes unit mention (other + 1) := by
  refine entrances_subset_iff.2 fun part name hmention => ?_
  rw [entered] at hmention ⊢
  split at hmention
  · exact mem_findings_of_subset h hmention
  · cases hmention

/-- Whatever is brought is still brought when more levels are followed. -/
theorem monotone_entrances (workspace : Workspace) (includes : NameTable String) (unit : String)
    (mention : UnitPart × String) : Monotone (entrances workspace includes unit mention) := by
  refine monotone_nat_of_le_succ fun more => ?_
  induction more with
  | zero => exact entrances_subset_iff.2 nofun
  | succ more ih => exact entrances_succ ih

/-- There are two places for each include file. -/
theorem card_entrances_le (more : Nat) :
    (entrances workspace includes unit mention more).card ≤ 2 * includes.size := by
  have hkeys : includes.keys.toFinset.card ≤ includes.size :=
    (List.toFinset_card_le _).trans (Nat.le_of_eq Std.TreeMap.length_keys)
  calc (entrances workspace includes unit mention more).card
      ≤ (places includes).card := Finset.card_filter_le _ _
    _ = 2 * includes.keys.toFinset.card := Finset.card_product _ _
    _ ≤ 2 * includes.size := Nat.mul_le_mul_left 2 hkeys

/-- So the entrances stay when that many levels are followed. -/
theorem entrances_eq (h : 2 * includes.size ≤ more) :
    entrances workspace includes unit mention more =
      entrances workspace includes unit mention (2 * includes.size) := by
  have hmono := monotone_entrances workspace includes unit mention
  have heq_of_card {less more : Nat} (hle : less ≤ more)
      (hcard : (entrances workspace includes unit mention less).card =
        (entrances workspace includes unit mention more).card) :
      entrances workspace includes unit mention less =
        entrances workspace includes unit mention more :=
    Finset.eq_of_subset_of_card_le (hmono hle) hcard.ge
  refine (heq_of_card h (Nat.stabilises_of_monotone ?_ card_entrances_le ?_ h).symm).symm
  · exact fun less more hle => Finset.card_le_card (hmono hle)
  · -- once a level brings nothing new, no further level does
    intro level hcard
    have heq := heq_of_card level.le_succ hcard
    exact congrArg Finset.card ((entrances_succ heq.le).antisymm (entrances_succ heq.ge))

/-- What a file gives is still given when more levels are followed. -/
theorem mem_findings_mono {less : Nat} (h : less ≤ more) {part : UnitPart} {path : String}
    (hmention : mention ∈ mentions (findings workspace includes unit less part path)) :
    mention ∈ mentions (findings workspace includes unit more part path) :=
  mem_findings_of_subset (monotone_entrances workspace includes unit mention h) hmention

/-- Nothing is missed when there are two levels for each include file. -/
theorem mem_findings_of_le {part : UnitPart} {path : String} (h : 2 * includes.size ≤ more)
    (hmention : mention ∈ mentions (findings workspace includes unit other part path)) :
    mention ∈ mentions (findings workspace includes unit more part path) := by
  refine mem_findings_of_subset ?_ hmention
  rw [entrances_eq h, ← entrances_eq (le_max_left (2 * includes.size) other)]
  exact monotone_entrances workspace includes unit mention (le_max_right _ _)

end Source

/-- The keys of the units that are used from a part. -/
def UnitUses.keysIn (uses : UnitUses) : UnitPart → List String
  | .interface => uses.interface.map UnitName.key
  | .implementation => uses.implementation.map UnitName.key

namespace Index

/-- The index with another limit for the nesting of include directives. -/
def limited (index : Index) (limit : Nat) : Index :=
  { index with settings := { index.settings with maxIncludeDepth := limit } }

variable {workspace : Workspace} {index : Index} {unit : String} {part : UnitPart}

/-- From each part that counts, a reading records the units that are mentioned in it. -/
theorem mem_keysIn_reading {findings : List Finding} {key : String} :
    key ∈ (index.reading unit findings).uses.keysIn part ↔
      (part = .interface ∨ index.interfaceOnly = false) ∧
        ∃ name, (part, name) ∈ index.counted unit findings ∧ UnitName.key name = key := by
  have hnames : ∀ part : UnitPart, key ∈ (Reading.namesIn part (index.counted unit findings)).map
      UnitName.key ↔
        ∃ name, (part, name) ∈ index.counted unit findings ∧ UnitName.key name = key := by
    simp [Reading.namesIn]
  obtain ⟨hinterface, hboth, honly⟩ := index.lists_counted unit findings
  cases part with
  | interface => rw [UnitUses.keysIn, hinterface.mem_keys_iff, hnames, and_iff_right (.inl rfl)]
  | implementation =>
      rw [UnitUses.keysIn]
      cases hmode : index.interfaceOnly with
      | true => simp [(honly hmode).1]
      | false => rw [(hboth hmode).1.mem_keys_iff, hnames, and_iff_right (.inr rfl)]

/-- They are recorded in the order of their keys. -/
theorem pairwise_keysIn_reading (findings : List Finding) :
    ((index.reading unit findings).uses.keysIn part).Pairwise (· < ·) := by
  obtain ⟨hinterface, hboth, honly⟩ := index.lists_counted unit findings
  cases part with
  | interface => exact List.pairwise_map.2 hinterface.ordered
  | implementation =>
      rw [UnitUses.keysIn]
      cases hmode : index.interfaceOnly with
      | true =>
          rw [(honly hmode).1]
          exact .nil
      | false => exact List.pairwise_map.2 (hboth hmode).1.ordered

/-- What is recorded of a unit with a file comes of what is found in the file. -/
theorem usesOf_limited {path : String} (hpath : index.unitPaths.find? unit = some path)
    (limit : Nat) :
    (index.limited limit).usesOf workspace unit = (index.reading unit
      (Source.findings workspace index.includePaths unit limit .interface path)).uses := by
  have hpath' : (index.limited limit).unitPaths.find? unit = some path := hpath
  rw [usesOf, hpath']
  rfl

/-- Nothing but a file depends on the limit. -/
theorem usesOf_limited_of_none (hpath : index.unitPaths.find? unit = none) (limit : Nat) :
    (index.limited limit).usesOf workspace unit = { unit } := by
  have hpath' : (index.limited limit).unitPaths.find? unit = none := hpath
  rw [usesOf, hpath']

/-- More is recorded where more is found. -/
theorem keysIn_reading_subset {findings more : List Finding}
    (h : ∀ mention ∈ Source.mentions findings, mention ∈ Source.mentions more) :
    (index.reading unit findings).uses.keysIn part ⊆
      (index.reading unit more).uses.keysIn part := by
  intro key hkey
  obtain ⟨hpart, name, hname, hkey⟩ := mem_keysIn_reading.1 hkey
  obtain ⟨hmention, hcounts⟩ := List.mem_filter.1 hname
  exact mem_keysIn_reading.2 ⟨hpart, name, List.mem_filter.2 ⟨h _ hmention, hcounts⟩, hkey⟩

/-- The keys that are recorded only become more with the limit. -/
theorem keysIn_usesOf_mono {limit more : Nat} (h : limit ≤ more) :
    ((index.limited limit).usesOf workspace unit).keysIn part ⊆
      ((index.limited more).usesOf workspace unit).keysIn part := by
  cases hpath : index.unitPaths.find? unit with
  | none =>
      rw [usesOf_limited_of_none hpath, usesOf_limited_of_none hpath]
      exact List.Subset.refl _
  | some path =>
      rw [usesOf_limited hpath, usesOf_limited hpath]
      exact keysIn_reading_subset fun _ => Source.mem_findings_mono h

/-- They are the same for all limits that allow two levels for each include file. -/
theorem keysIn_usesOf_eq {limit other : Nat} (hlimit : 2 * index.includePaths.size ≤ limit)
    (hother : 2 * index.includePaths.size ≤ other) :
    ((index.limited limit).usesOf workspace unit).keysIn part =
      ((index.limited other).usesOf workspace unit).keysIn part := by
  cases hpath : index.unitPaths.find? unit with
  | none => rw [usesOf_limited_of_none hpath, usesOf_limited_of_none hpath]
  | some path =>
      rw [usesOf_limited hpath, usesOf_limited hpath]
      refine (pairwise_keysIn_reading _).eq_of_mem_iff (pairwise_keysIn_reading _) fun key => ?_
      exact ⟨fun hkey => keysIn_reading_subset (fun _ => Source.mem_findings_of_le hother) hkey,
        fun hkey => keysIn_reading_subset (fun _ => Source.mem_findings_of_le hlimit) hkey⟩

/-- What is known of a unit that is loaded does not depend on the limit, and of another one loading
records what it uses. -/
theorem get?_load_limited (workspace : Workspace) (index : Index) (unit : String) (limit : Nat) :
    ((index.limited limit).load workspace unit).value.1.get? unit =
      if index.isLoaded unit then index.get? unit
      else some ((index.limited limit).usesOf workspace unit) := by
  have hsame : (index.limited limit).isLoaded unit = index.isLoaded unit := rfl
  rw [get?_load, hsame]
  by_cases hloaded : index.isLoaded unit
  · simp only [hloaded]
    rfl
  · simp [hloaded]

end Index

/-- The limit for the nesting of include directives cuts their recursion and loses nothing that it
need not. However the include files of a workspace include each other and themselves, and whatever
is registered: loading a unit records some uses whatever the limit is. If the limit is raised, the
keys in the list of each part only become more; and all limits of at least two for each registered
include file record the same keys. -/
theorem include_depth_saturates (workspace : Workspace) (index : Index) (unit : String) :
    ∃ uses : Nat → UnitUses,
      (∀ limit, ((index.limited limit).load workspace unit).value.1.get? unit =
        some (uses limit)) ∧
      ∀ part,
        (∀ limit more, limit ≤ more → (uses limit).keysIn part ⊆ (uses more).keysIn part) ∧
        (∀ limit other, 2 * index.includePaths.size ≤ limit →
          2 * index.includePaths.size ≤ other →
          (uses limit).keysIn part = (uses other).keysIn part) := by
  cases hloaded : index.isLoaded unit with
  | true =>
      obtain ⟨uses, huses⟩ : ∃ uses, index.get? unit = some uses := by
        rwa [Index.isLoaded, NameTable.contains_eq_isSome_find?, Option.isSome_iff_exists]
          at hloaded
      refine ⟨fun _ => uses, fun limit => ?_,
        fun part => ⟨fun _ _ _ => .refl _, fun _ _ _ _ => rfl⟩⟩
      rw [Index.get?_load_limited, if_pos hloaded, huses]
  | false =>
      refine ⟨fun limit => (index.limited limit).usesOf workspace unit, fun limit => ?_,
        fun part => ⟨fun _ _ => Index.keysIn_usesOf_mono, fun _ _ => Index.keysIn_usesOf_eq⟩⟩
      rw [Index.get?_load_limited, hloaded]
      rfl

end PascalUnits
