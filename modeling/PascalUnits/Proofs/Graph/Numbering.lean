import Mathlib.Data.List.Nodup
import PascalUnits.Proofs.Graph.Basic

/-!
# The graph of an index, node by node

`NumberedGraph.ofIndex` puts the graph of an index together one node and one edge at a time. Nodes
go by numbers: each loaded unit gets one, and then each used unit that has none when its use is met,
under whatever spelling. A table by keys tells the nodes.

Read `Shows` first: a key has a node if a unit with that key was met, and each node has one key. A
new node keeps what is shown (`Shows.addNode`), and so does each use that is added
(`Shows.addUse`), so by induction the whole assembly shows the graph of the index and never fails
for want of a node (`exists_ofIndex`). Its size is that of the graph (`size_eq`).
-/

namespace PascalUnits

namespace Text

/-- One more text is distinct unless it was there before, in whatever letter case. -/
theorem distinctFrom_concat (seen : Std.TreeSet String) (texts : List String) (text : String) :
    distinctFrom seen (texts ++ [text]) =
      if lower text ∈ seen ∨ lower text ∈ texts.map lower then distinctFrom seen texts
      else distinctFrom seen texts ++ [text] := by
  induction texts generalizing seen with
  | nil => simp [distinctFrom]
  | cons first rest ih =>
      simp only [List.cons_append, distinctFrom, List.map_cons, List.mem_cons]
      split
      · rename_i hfirst
        have hiff : (lower text ∈ seen ∨ lower text = lower first ∨ lower text ∈ rest.map lower) ↔
            lower text ∈ seen ∨ lower text ∈ rest.map lower := by
          grind
        rw [ih]
        simp only [hiff]
      · have hiff : (lower text ∈ seen ∨ lower text = lower first ∨ lower text ∈ rest.map lower) ↔
            lower text ∈ seen.insert (lower first) ∨ lower text ∈ rest.map lower := by
          rw [Std.TreeSet.mem_insert, Std.LawfulEqCmp.compare_eq_iff_eq]
          grind
        rw [ih]
        simp only [hiff]
        split <;> rfl

variable {texts : List String} {text : String}

/-- A text that was there before changes nothing. -/
theorem distinct_concat_of_mem (h : lower text ∈ texts.map lower) :
    distinct (texts ++ [text]) = distinct texts := by
  rw [distinct, distinctFrom_concat, if_pos (.inr h), distinct]

/-- Another text comes behind those before. -/
theorem distinct_concat_of_not_mem (h : lower text ∉ texts.map lower) :
    distinct (texts ++ [text]) = distinct texts ++ [text] := by
  have hnew : ¬(lower text ∈ (∅ : Std.TreeSet String) ∨ lower text ∈ texts.map lower) :=
    not_or.2 ⟨Std.TreeSet.not_mem_emptyc, h⟩
  rw [distinct, distinctFrom_concat, if_neg hnew, distinct]

end Text

/-- A use between numbered nodes. -/
structure NumberedUse where
  source : Nat
  target : Nat
  part : UnitPart
  deriving DecidableEq, Repr

/-- The uses of a loaded unit, by keys. -/
def usesByKeys (entry : String × UnitUses) : List Use :=
  entry.2.edges.map fun use => { source := entry.1, target := UnitName.key use.1, part := use.2 }

/-- A graph whose nodes are numbered in the order in which they were added. -/
structure NumberedGraph where
  /-- The names of the nodes. -/
  nodes : List String := []
  /-- The nodes by their keys. -/
  numbers : Std.TreeMap String Nat := ∅
  uses : List NumberedUse := []
  /-- The nodes that were asked for. -/
  roots : Std.TreeSet Nat := ∅

namespace NumberedGraph

/-- Adds a node. -/
def addNode (graph : NumberedGraph) (key name : String) : NumberedGraph :=
  { graph with
    nodes := graph.nodes ++ [name]
    numbers := graph.numbers.insert key graph.nodes.length }

/-- The node for a name, which is added if there is none. -/
def nodeFor (graph : NumberedGraph) (name : String) : NumberedGraph × Nat :=
  match graph.numbers[UnitName.key name]? with
  | some number => (graph, number)
  | none => (graph.addNode (UnitName.key name) name, graph.nodes.length)

/-- Adds a use by the node `source`. -/
def addUse (source : Nat) (graph : NumberedGraph) (use : String × UnitPart) : NumberedGraph :=
  let found := graph.nodeFor use.1
  { found.1 with uses := found.1.uses ++ [{ source, target := found.2, part := use.2 }] }

/-- Adds the uses of a loaded unit, provided that it has a node. -/
def addUses (graph : NumberedGraph) (entry : String × UnitUses) : Option NumberedGraph := do
  let source ← graph.numbers[entry.1]?
  return entry.2.edges.foldl (addUse source) graph

/-- Notes which nodes were asked for. -/
def addRoots (graph : NumberedGraph) (names : List String) : NumberedGraph :=
  { graph with roots := .ofList (names.filterMap fun name => graph.numbers[UnitName.key name]?) }

/-- The graph of an index: a node for each loaded unit, then its uses, then the roots. -/
def ofIndex (index : Index) : Option NumberedGraph := do
  let loaded := index.uses.toList.foldl (fun graph entry => graph.addNode entry.1 entry.2.unit) {}
  let graph ← index.uses.toList.foldlM addUses loaded
  return graph.addRoots index.roots

/-- The number of nodes, of uses of each kind and of roots. Uses that are not of the one kind are of
the other. -/
def size (graph : NumberedGraph) : GraphSize :=
  let interfaceUses := graph.uses.countP fun use => use.part == .interface
  { units := graph.nodes.length
    interfaceUses
    implementationUses := graph.uses.length - interfaceUses
    roots := graph.roots.size }

/-- The key of a node. -/
def key? (graph : NumberedGraph) (number : Nat) : Option String :=
  graph.nodes[number]?.map UnitName.key

/-- A use by the keys of its nodes. -/
def use? (graph : NumberedGraph) (use : NumberedUse) : Option Use := do
  let source ← graph.key? use.source
  let target ← graph.key? use.target
  return { source, target, part := use.part }

/-- The nodes have the names of the units, in order, and each key has one node and each node one
key. By keys, the uses are the given ones, in order. -/
structure Shows (graph : NumberedGraph) (units : List String) (uses : List Use) : Prop where
  nodes_eq : graph.nodes = units
  numbers_iff : ∀ key number, graph.numbers[key]? = some number ↔ graph.key? number = some key
  uses_eq : graph.uses.map graph.use? = uses.map some

variable {graph other : NumberedGraph} {units met : List String} {uses : List Use} {key : String}
  {source number : Nat}

/-- Uses are read alike where nodes keep their keys. -/
theorem use?_of_keeps (hkeeps : ∀ number key, graph.key? number = some key →
    other.key? number = some key) {numbered : NumberedUse} {use : Use}
    (huse : graph.use? numbered = some use) : other.use? numbered = some use := by
  simp only [use?, bind, Option.bind_eq_some_iff] at huse ⊢
  obtain ⟨source, hsource, target, htarget, huse⟩ := huse
  exact ⟨source, hkeeps _ _ hsource, target, hkeeps _ _ htarget, huse⟩

/-- So what is shown of them stays. -/
theorem Shows.uses_of_keeps (h : graph.Shows units uses) (hkeeps : ∀ number key,
    graph.key? number = some key → other.key? number = some key) :
    graph.uses.map other.use? = uses.map some := by
  rw [← h.uses_eq]
  refine List.map_congr_left fun numbered hnumbered => ?_
  have hshown : graph.use? numbered ∈ uses.map some :=
    h.uses_eq ▸ List.mem_map_of_mem hnumbered
  obtain ⟨use, -, huse⟩ := List.mem_map.1 hshown
  rw [← huse]
  exact use?_of_keeps hkeeps huse.symm

/-- A new node has the key of its name, and comes behind the nodes before. -/
theorem key?_addNode (graph : NumberedGraph) (key name : String) (number : Nat) :
    (graph.addNode key name).key? number =
      if number = graph.nodes.length then some (UnitName.key name) else graph.key? number := by
  rw [key?, key?, addNode, List.getElem?_append]
  split
  · rename_i hbefore
    rw [if_neg (Nat.ne_of_lt hbefore)]
  · rename_i hbehind
    rw [List.getElem?_singleton, List.getElem?_eq_none (Nat.le_of_not_lt hbehind)]
    grind

/-- Nodes keep their keys when one is added. -/
theorem key?_addNode_of_some (graph : NumberedGraph) (name : String) {newKey : String}
    (hkey : graph.key? number = some key) : (graph.addNode newKey name).key? number = some key := by
  have hlength : number ≠ graph.nodes.length := by
    rintro rfl
    simp [key?] at hkey
  rw [key?_addNode, if_neg hlength, hkey]

/-- Each key of the units is that of a node, and no other is. -/
theorem Shows.exists_key?_iff (h : graph.Shows units uses) :
    (∃ number, graph.key? number = some key) ↔ key ∈ units.map UnitName.key := by
  simp only [key?, ← List.getElem?_map, h.nodes_eq]
  exact List.mem_iff_getElem?.symm

/-- The keys that have nodes are those of the names that were met. -/
theorem Shows.exists_number_iff (h : graph.Shows (Text.distinct met) uses) :
    (∃ number, graph.numbers[key]? = some number) ↔ key ∈ met.map UnitName.key := by
  simp only [h.numbers_iff, h.exists_key?_iff]
  exact Text.mem_map_lower_distinct

/-- A node for a name that was not met before. -/
theorem Shows.addNode (h : graph.Shows (Text.distinct met) uses) {name : String}
    (hnew : UnitName.key name ∉ met.map UnitName.key) :
    (graph.addNode (UnitName.key name) name).Shows (Text.distinct (met ++ [name])) uses := by
  refine ⟨?_, fun key number => ?_, ?_⟩
  · rw [Text.distinct_concat_of_not_mem hnew, ← h.nodes_eq]
    rfl
  · rw [key?_addNode, NumberedGraph.addNode, Std.TreeMap.getElem?_insert]
    simp only [Std.compare_eq_iff_eq]
    by_cases hkey : UnitName.key name = key
    · -- no node before has the new key
      have hnone : graph.key? number ≠ some key := fun hfound =>
        hnew (hkey ▸ h.exists_number_iff.1 ⟨number, (h.numbers_iff key number).2 hfound⟩)
      grind
    · have hlast : graph.key? graph.nodes.length = none := by simp [key?]
      have hbefore := h.numbers_iff key number
      grind
  · exact h.uses_of_keeps fun _ _ => key?_addNode_of_some graph name

/-- The node for a name has its key, and the nodes before keep theirs. -/
theorem Shows.nodeFor (h : graph.Shows (Text.distinct met) uses) (name : String) :
    (graph.nodeFor name).1.Shows (Text.distinct (met ++ [name])) uses ∧
      (graph.nodeFor name).1.key? (graph.nodeFor name).2 = some (UnitName.key name) ∧
      ∀ number key, graph.key? number = some key →
        (graph.nodeFor name).1.key? number = some key := by
  rw [NumberedGraph.nodeFor]
  cases hfound : graph.numbers[UnitName.key name]? with
  | some number =>
      have hmet := h.exists_number_iff.1 ⟨number, hfound⟩
      refine ⟨?_, (h.numbers_iff _ _).1 hfound, fun _ _ => id⟩
      rw [Text.distinct_concat_of_mem hmet]
      exact h
  | none =>
      have hnew : UnitName.key name ∉ met.map UnitName.key := by
        rw [← h.exists_number_iff, hfound]
        simp
      refine ⟨h.addNode hnew, ?_, fun _ _ => key?_addNode_of_some graph name⟩
      rw [key?_addNode, if_pos rfl]

/-- The step: a use that is added is shown by keys. -/
theorem Shows.addUse (h : graph.Shows (Text.distinct met) uses)
    (hsource : graph.key? source = some key) (use : String × UnitPart) :
    (graph.addUse source use).Shows (Text.distinct (met ++ [use.1]))
        (uses ++ [{ source := key, target := UnitName.key use.1, part := use.2 }]) ∧
      (graph.addUse source use).key? source = some key := by
  obtain ⟨hfound, htarget, hkeeps⟩ := h.nodeFor use.1
  refine ⟨⟨hfound.nodes_eq, hfound.numbers_iff, ?_⟩, hkeeps _ _ hsource⟩
  have huses : (graph.nodeFor use.1).1.uses.map (graph.addUse source use).use? = uses.map some :=
    hfound.uses_eq
  have huse : (graph.addUse source use).use?
      { source, target := (graph.nodeFor use.1).2, part := use.2 } =
      some { source := key, target := UnitName.key use.1, part := use.2 } := by
    have hsourceKey : (graph.addUse source use).key? source = some key := hkeeps _ _ hsource
    have htargetKey : (graph.addUse source use).key? (graph.nodeFor use.1).2 =
        some (UnitName.key use.1) := htarget
    rw [use?, hsourceKey, htargetKey]
    rfl
  show ((graph.nodeFor use.1).1.uses ++ [_]).map (graph.addUse source use).use? = _
  rw [List.map_append, huses, List.map_append, List.map_singleton, huse]
  rfl

/-- So are all uses of a unit, added one after the other. -/
theorem Shows.foldl_addUse (h : graph.Shows (Text.distinct met) uses)
    (hsource : graph.key? source = some key) (edges : List (String × UnitPart)) :
    (edges.foldl (NumberedGraph.addUse source) graph).Shows
      (Text.distinct (met ++ edges.map (·.1)))
      (uses ++ edges.map fun use =>
        { source := key, target := UnitName.key use.1, part := use.2 }) := by
  induction edges generalizing graph met uses with
  | nil =>
      rw [List.map_nil, List.map_nil, List.append_nil, List.append_nil]
      exact h
  | cons use rest ih =>
      obtain ⟨hadded, hkept⟩ := h.addUse hsource use
      rw [List.map_cons, List.map_cons, List.append_cons, List.append_cons uses]
      exact ih hadded hkept

/-- A loaded unit has a node, so its uses can be added. -/
theorem Shows.addUses (h : graph.Shows (Text.distinct met) uses) {entry : String × UnitUses}
    (hloaded : entry.1 ∈ met.map UnitName.key) :
    ∃ after, graph.addUses entry = some after ∧
      after.Shows (Text.distinct (met ++ entry.2.edges.map (·.1))) (uses ++ usesByKeys entry) := by
  obtain ⟨source, hsource⟩ := h.exists_number_iff.2 hloaded
  refine ⟨_, ?_, h.foldl_addUse ((h.numbers_iff _ _).1 hsource) entry.2.edges⟩
  rw [NumberedGraph.addUses, hsource]
  rfl

/-- The run: so are the uses of all loaded units. -/
theorem Shows.foldlM_addUses (h : graph.Shows (Text.distinct met) uses)
    {entries : List (String × UnitUses)}
    (hloaded : ∀ entry ∈ entries, entry.1 ∈ met.map UnitName.key) :
    ∃ after, entries.foldlM NumberedGraph.addUses graph = some after ∧
      after.Shows (Text.distinct (met ++ entries.flatMap fun entry => entry.2.edges.map (·.1)))
        (uses ++ entries.flatMap usesByKeys) := by
  induction entries generalizing graph met uses with
  | nil =>
      refine ⟨graph, rfl, ?_⟩
      rw [List.flatMap_nil, List.flatMap_nil, List.append_nil, List.append_nil]
      exact h
  | cons entry rest ih =>
      obtain ⟨hentry, hrest⟩ := List.forall_mem_cons.1 hloaded
      obtain ⟨middle, hmiddle, hadded⟩ := h.addUses hentry
      have hstill : ∀ other ∈ rest,
          other.1 ∈ (met ++ entry.2.edges.map (·.1)).map UnitName.key := by
        intro other hother
        rw [List.map_append]
        exact List.mem_append_left _ (hrest other hother)
      obtain ⟨after, hafter, hshows⟩ := ih hadded hstill
      refine ⟨after, ?_, ?_⟩
      · rw [List.foldlM_cons, hmiddle]
        exact hafter
      · rw [List.flatMap_cons, List.flatMap_cons, ← List.append_assoc, ← List.append_assoc]
        exact hshows

/-- Loaded units have different keys, so each gets a node of its own. -/
theorem Shows.foldl_addNode (h : graph.Shows (Text.distinct met) uses)
    {entries : List (String × UnitUses)}
    (hkeyed : ∀ entry ∈ entries, UnitName.key entry.2.unit = entry.1)
    (hnodup : (met.map UnitName.key ++ entries.map (·.1)).Nodup) :
    (entries.foldl (fun graph entry => graph.addNode entry.1 entry.2.unit) graph).Shows
      (Text.distinct (met ++ entries.map (·.2.unit))) uses := by
  induction entries generalizing graph met with
  | nil =>
      rw [List.map_nil, List.append_nil]
      exact h
  | cons entry rest ih =>
      obtain ⟨hentry, hrest⟩ := List.forall_mem_cons.1 hkeyed
      obtain ⟨-, -, hdisjoint⟩ := List.nodup_append.1 hnodup
      have hnew : UnitName.key entry.2.unit ∉ met.map UnitName.key :=
        fun hmem => hdisjoint _ hmem entry.1 List.mem_cons_self hentry
      rw [List.map_cons, List.append_cons] at hnodup
      rw [List.map_cons, List.append_cons, List.foldl_cons]
      refine ih (hentry ▸ h.addNode hnew) hrest ?_
      rw [List.map_append, List.map_singleton, hentry]
      exact hnodup

/-- Nothing is shown to begin with. -/
theorem shows_empty : ({} : NumberedGraph).Shows (Text.distinct []) [] := by
  refine ⟨rfl, fun key number => ?_, rfl⟩
  simp [key?]

/-- The uses of the graph of an index are those of its loaded units. -/
theorem uses_ofIndex (index : Index) :
    (UsesGraph.ofIndex index).uses = index.uses.toList.flatMap usesByKeys := rfl

/-- The graph of an index can be put together, and shows what it should. -/
theorem exists_ofIndex {index : Index} (h : index.Keyed) :
    ∃ graph : NumberedGraph, ofIndex index = some (graph.addRoots index.roots) ∧
      graph.Shows (UsesGraph.ofIndex index).units (UsesGraph.ofIndex index).uses := by
  have hkeyed : ∀ entry ∈ index.uses.toList, UnitName.key entry.2.unit = entry.1 :=
    fun entry hentry => h _ _ hentry
  have hnodup : (([] : List String).map UnitName.key ++ index.uses.toList.map (·.1)).Nodup := by
    rw [List.map_nil, List.nil_append, ← NameTable.keys_eq_map_toList]
    exact index.uses.nodup_keys
  have hloaded := shows_empty.foldl_addNode hkeyed hnodup
  rw [List.nil_append] at hloaded
  have hsources : ∀ entry ∈ index.uses.toList,
      entry.1 ∈ (index.uses.toList.map (·.2.unit)).map UnitName.key := by
    intro entry hentry
    rw [List.map_map]
    exact List.mem_map.2 ⟨entry, hentry, hkeyed entry hentry⟩
  obtain ⟨graph, hgraph, hshows⟩ := hloaded.foldlM_addUses hsources
  refine ⟨graph, ?_, ?_⟩
  · rw [ofIndex, hgraph]
    rfl
  · have hunits : (UsesGraph.ofIndex index).units = Text.distinct
        (index.uses.toList.map (·.2.unit) ++
          index.uses.toList.flatMap fun entry => entry.2.edges.map (·.1)) := by
      simp only [UsesGraph.ofIndex, NameTable.values_eq_map_toList, List.map_map,
        List.flatMap_map, Function.comp_def]
    rw [hunits, uses_ofIndex]
    exact hshows

section Size

variable {index : Index}

/-- Uses that are shown are in the same parts. -/
theorem Shows.map_part (h : graph.Shows units uses) :
    graph.uses.map (·.part) = uses.map (·.part) := by
  have hpart : ∀ numbered ∈ graph.uses,
      some numbered.part = (graph.use? numbered).map (·.part) := by
    intro numbered hnumbered
    have hshown : graph.use? numbered ∈ uses.map some := h.uses_eq ▸ List.mem_map_of_mem hnumbered
    obtain ⟨use, -, huse⟩ := List.mem_map.1 hshown
    have hread := huse.symm
    simp only [use?, bind, Option.bind_eq_some_iff, pure, Option.some.injEq] at hread
    obtain ⟨_, -, _, -, rfl⟩ := hread
    rw [← huse]
    rfl
  refine List.map_injective_iff.2 (Option.some_injective UnitPart) ?_
  calc (graph.uses.map (·.part)).map some
      = graph.uses.map fun numbered => (graph.use? numbered).map (·.part) := by
        rw [List.map_map]
        exact List.map_congr_left hpart
    _ = (graph.uses.map graph.use?).map (Option.map (·.part)) := by
        rw [List.map_map]
        rfl
    _ = (uses.map (·.part)).map some := by
        rw [h.uses_eq, List.map_map, List.map_map]
        rfl

/-- So there are as many in each part. -/
theorem Shows.countP_part (h : graph.Shows units uses) (part : UnitPart) :
    (graph.uses.countP fun use => use.part == part) = uses.countP fun use => use.part == part := by
  have hcount := congrArg (List.countP (· == part)) h.map_part
  rwa [List.countP_map, List.countP_map] at hcount

/-- Uses that are not of the one part are of the other. -/
theorem length_eq_countP_add_countP (uses : List NumberedUse) :
    uses.length = (uses.countP fun use => use.part == .interface) +
      uses.countP fun use => use.part == .implementation := by
  rw [List.length_eq_countP_add_countP fun use : NumberedUse => use.part == .interface]
  refine congrArg _ (List.countP_congr fun use _ => ?_)
  cases use.part <;> decide

/-- The nodes that were asked for are those of the roots. -/
theorem Shows.mem_roots_iff
    (h : graph.Shows (UsesGraph.ofIndex index).units (UsesGraph.ofIndex index).uses) :
    number ∈ (graph.addRoots index.roots).roots ↔
      ∃ root ∈ (UsesGraph.ofIndex index).roots, graph.key? number = some root := by
  simp only [addRoots, Std.TreeSet.mem_ofList, List.contains_iff_mem, List.mem_filterMap,
    h.numbers_iff, UsesGraph.mem_roots_iff]
  constructor
  · intro hasked
    obtain ⟨root, hroot, hkey⟩ := hasked
    exact ⟨UnitName.key root, ⟨h.exists_key?_iff.1 ⟨number, hkey⟩, root, hroot, rfl⟩, hkey⟩
  · intro hasked
    obtain ⟨_, ⟨-, root, hroot, rfl⟩, hkey⟩ := hasked
    exact ⟨root, hroot, hkey⟩

/-- There are as many of them as there are roots, since different roots have different nodes. -/
theorem Shows.size_roots
    (h : graph.Shows (UsesGraph.ofIndex index).units (UsesGraph.ofIndex index).uses) :
    (graph.addRoots index.roots).roots.size = (UsesGraph.ofIndex index).roots.length := by
  have hnodup : ((graph.addRoots index.roots).roots.toList.map graph.key?).Nodup := by
    refine List.Nodup.map_on ?_
      (Std.TreeSet.distinct_toList.imp fun hne hsame => hne (Std.compare_eq_iff_eq.2 hsame))
    intro first hfirst second _ hsame
    obtain ⟨root, -, hroot⟩ := h.mem_roots_iff.1 (Std.TreeSet.mem_toList.1 hfirst)
    have hsecond := (h.numbers_iff root second).2 (hsame ▸ hroot)
    rw [(h.numbers_iff root first).2 hroot] at hsecond
    exact Option.some.inj hsecond
  have hroots : ((UsesGraph.ofIndex index).roots.map some).Nodup :=
    (UsesGraph.nodup_roots index).map (Option.some_injective String)
  have hperm : ((graph.addRoots index.roots).roots.toList.map graph.key?).Perm
      ((UsesGraph.ofIndex index).roots.map some) := by
    refine (List.perm_ext_iff_of_nodup hnodup hroots).2 fun key => ?_
    simp only [List.mem_map, Std.TreeSet.mem_toList, h.mem_roots_iff]
    constructor
    · intro hasked
      obtain ⟨number, ⟨root, hroot, hnumber⟩, hkey⟩ := hasked
      exact ⟨root, hroot, hnumber.symm.trans hkey⟩
    · intro hasked
      obtain ⟨root, hroot, rfl⟩ := hasked
      obtain ⟨number, hnumber⟩ := h.exists_key?_iff.2 (UsesGraph.mem_roots_iff.1 hroot).1
      exact ⟨number, ⟨root, hroot, hnumber⟩, hnumber⟩
  have hlength := hperm.length_eq
  rwa [List.length_map, List.length_map, Std.TreeSet.length_toList] at hlength

/-- The graph that is put together is as large as it should be. -/
theorem Shows.size_eq
    (h : graph.Shows (UsesGraph.ofIndex index).units (UsesGraph.ofIndex index).uses) :
    (graph.addRoots index.roots).size = (UsesGraph.ofIndex index).size := by
  have hboth := length_eq_countP_add_countP graph.uses
  have hother : graph.uses.length - (graph.uses.countP fun use => use.part == .interface) =
      (UsesGraph.ofIndex index).uses.countP fun use => use.part == .implementation := by
    rw [← h.countP_part]
    omega
  rw [size, UsesGraph.size, h.size_roots, ← h.nodes_eq, ← h.countP_part, ← hother]
  rfl

end Size

end NumberedGraph

end PascalUnits
