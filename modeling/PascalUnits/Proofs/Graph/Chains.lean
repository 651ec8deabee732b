import Mathlib.Data.List.Chain
import PascalUnits.Graph.Chains
import PascalUnits.Proofs.Graph.Basic
import PascalUnits.Proofs.Index.History

/-!
# The chains to a unit

The main statement is `why_lists_root_chains`: for whatever was done with an index, the chains that
are listed for a unit are all those from a root to it, each of them once and in order. On a graph,
`mem_chains_iff` says which chains are listed and `pairwise_chains` in which order.
-/

namespace PascalUnits

/-- A chain from a root to the unit with the key `target`. Each of its units uses the next one,
none of them is on it twice, and only the first one is a root. -/
structure RootChain (uses : String → String → Prop) (isRoot : String → Prop) (target : String)
    (chain : List String) : Prop where
  last : chain.getLast? = some target
  root : ∃ root, chain.head? = some root ∧ isRoot root
  inner : ∀ unit ∈ chain.tail, ¬isRoot unit
  linked : chain.IsChain uses
  nodup : chain.Nodup

namespace RootChain

variable {uses : String → String → Prop} {isRoot : String → Prop} {target : String}
  {chain : List String}

/-- A root is the only chain to itself. -/
theorem of_root (htarget : isRoot target) :
    RootChain uses isRoot target chain ↔ chain = [target] := by
  constructor
  · intro h
    obtain ⟨front, rfl⟩ := List.getLast?_eq_some_iff.1 h.last
    cases front with
    | nil => rfl
    | cons root rest => exact absurd htarget (h.inner target (by simp))
  · rintro rfl
    exact ⟨rfl, ⟨target, rfl, htarget⟩, nofun, .singleton target, List.nodup_singleton target⟩

/-- A chain to another unit is a chain to one that uses it, with the unit itself put behind. -/
theorem of_not_root (htarget : ¬isRoot target) :
    RootChain uses isRoot target chain ↔ ∃ source front, uses source target ∧
      RootChain uses isRoot source front ∧ target ∉ front ∧ chain = front ++ [target] := by
  constructor
  · intro h
    obtain ⟨front, rfl⟩ := List.getLast?_eq_some_iff.1 h.last
    cases front with
    | nil =>
        -- the only unit of the chain would be a root
        obtain ⟨root, hroot, hisRoot⟩ := h.root
        cases hroot
        exact absurd hisRoot htarget
    | cons root rest =>
        obtain ⟨hfront, -, hdisjoint⟩ := List.nodup_append.1 h.nodup
        obtain ⟨hlinked, -, hlast⟩ := List.isChain_append.1 h.linked
        have hsource : (root :: rest).getLast? = some ((root :: rest).getLast (by simp)) :=
          List.getLast?_eq_some_getLast _
        refine ⟨_, root :: rest, hlast _ hsource target rfl, ⟨hsource, h.root, ?_, hlinked, hfront⟩,
          fun hmem => hdisjoint target hmem target (by simp) rfl, rfl⟩
        exact fun unit hunit => h.inner unit (List.mem_append_left _ hunit)
  · intro hchain
    obtain ⟨source, front, huses, h, hnotin, rfl⟩ := hchain
    obtain ⟨root, hroot, hisRoot⟩ := h.root
    cases front with
    | nil => cases hroot
    | cons first rest =>
        refine ⟨List.getLast?_concat, ⟨root, hroot, hisRoot⟩, ?_, ?_, ?_⟩
        · intro unit hunit
          rcases List.mem_append.1 hunit with hrest | hunit
          · exact h.inner unit hrest
          · rw [List.mem_singleton.1 hunit]
            exact htarget
        · refine h.linked.append (.singleton target) ?_
          intro last hlast next hnext
          rw [Option.mem_def, h.last] at hlast
          cases hlast
          cases hnext
          exact huses
        · refine List.nodup_append.2 ⟨h.nodup, List.nodup_singleton target, ?_⟩
          intro unit hunit other hother hsame
          rw [hsame, List.mem_singleton.1 hother] at hunit
          exact hnotin hunit

/-- Chains depend on which of their units use each other and which of them are roots. -/
theorem congr {usesToo : String → String → Prop} {isRootToo : String → Prop}
    (huses : ∀ source ∈ chain, ∀ other, uses source other → usesToo source other)
    (hroot : ∀ unit ∈ chain, isRoot unit ↔ isRootToo unit)
    (h : RootChain uses isRoot target chain) : RootChain usesToo isRootToo target chain := by
  obtain ⟨root, hhead, hisRoot⟩ := h.root
  refine ⟨h.last, ⟨root, hhead, ?_⟩, ?_, ?_, h.nodup⟩
  · exact (hroot root (List.mem_of_mem_head? hhead)).1 hisRoot
  · exact fun unit hunit => mt (hroot unit (List.mem_of_mem_tail hunit)).2 (h.inner unit hunit)
  · exact h.linked.imp_of_mem_imp fun source other hsource _ => huses source hsource other

end RootChain

namespace UsesGraph

section Repetitions

/-- What `eraseReps` collects comes behind what it has collected. -/
theorem eraseReps_loop (text : String) (texts collected : List String) :
    List.eraseRepsBy.loop (· == ·) text texts collected =
      collected.reverse ++ List.eraseRepsBy.loop (· == ·) text texts [] := by
  induction texts generalizing text collected with
  | nil => simp [List.eraseRepsBy.loop]
  | cons next rest ih =>
      simp only [List.eraseRepsBy.loop]
      split
      · exact ih text collected
      · rw [ih next, ih next [text]]
        simp

/-- A text stays unless the same text follows it. -/
theorem eraseReps_cons_cons (text next : String) (rest : List String) :
    (text :: next :: rest).eraseReps =
      if text = next then (next :: rest).eraseReps else text :: (next :: rest).eraseReps := by
  by_cases hsame : text = next
  · rw [if_pos hsame, hsame]
    simp [List.eraseReps, List.eraseRepsBy, List.eraseRepsBy.loop]
  · rw [if_neg hsame]
    simp only [List.eraseReps, List.eraseRepsBy, List.eraseRepsBy.loop, beq_eq_false_iff_ne.2 hsame]
    exact eraseReps_loop next rest [text]

/-- No text is lost. -/
theorem mem_eraseReps {text : String} {texts : List String} :
    text ∈ texts.eraseReps ↔ text ∈ texts := by
  cases texts with
  | nil => rfl
  | cons first rest =>
      induction rest generalizing first with
      | nil => rfl
      | cons next rest ih =>
          rw [eraseReps_cons_cons]
          split
          · rename_i hsame
            rw [ih, hsame]
            simp
          · rw [List.mem_cons, ih, List.mem_cons (a := text) (b := first)]

/-- Texts in order are in strict order without their repetitions. -/
theorem pairwise_eraseReps {texts : List String} (h : texts.Pairwise (· ≤ ·)) :
    texts.eraseReps.Pairwise (· < ·) := by
  cases texts with
  | nil => exact .nil
  | cons first rest =>
      induction rest generalizing first with
      | nil => exact List.pairwise_singleton _ _
      | cons next rest ih =>
          obtain ⟨hfirst, hrest⟩ := List.pairwise_cons.1 h
          rw [eraseReps_cons_cons]
          split
          · exact ih next hrest
          · rename_i hother
            refine List.pairwise_cons.2 ⟨?_, ih next hrest⟩
            intro text htext
            have hlt : first < next := Std.lt_of_le_of_ne (hfirst next (by simp)) hother
            rcases List.mem_cons.1 (mem_eraseReps.1 htext) with rfl | hlater
            · exact hlt
            · exact Std.lt_of_lt_of_le hlt ((List.pairwise_cons.1 hrest).1 text hlater)

end Repetitions

/-- The units that use a unit are listed as they are in the uses of the graph. -/
theorem dependents_users (graph : UsesGraph) (key : String) :
    dependents graph.users key =
      ((graph.uses.filter (·.target == key)).map (·.source)).eraseReps := by
  rw [dependents, users, Adjacency.targets_ofLinks, List.reverse_reverse, List.filter_map,
    List.map_map]
  rfl

/-- A unit depends on another one if it uses it. -/
theorem mem_dependents_iff {graph : UsesGraph} {source key : String} :
    source ∈ dependents graph.users key ↔
      ∃ use ∈ graph.uses, use.source = source ∧ use.target = key := by
  rw [dependents_users, mem_eraseReps, List.mem_map]
  constructor
  · intro hdependent
    obtain ⟨use, huse, rfl⟩ := hdependent
    obtain ⟨hmem, htarget⟩ := List.mem_filter.1 huse
    exact ⟨use, hmem, rfl, beq_iff_eq.1 htarget⟩
  · intro hmeets
    obtain ⟨use, huse, rfl, rfl⟩ := hmeets
    exact ⟨use, List.mem_filter.2 ⟨huse, beq_self_eq_true _⟩, rfl⟩

/-- The units that use a unit are in strict order of their keys. -/
theorem pairwise_dependents (index : Index) (key : String) :
    (dependents (ofIndex index).users key).Pairwise (· < ·) := by
  rw [dependents_users]
  exact pairwise_eraseReps (List.pairwise_map.2 ((pairwise_uses index).filter _))

section Listing

variable {users : Adjacency} {roots free chain : List String} {key : String}

/-- The chains listed for a unit are those from a root to it that stay among `free`. -/
theorem mem_chains_iff (hfree : free.Nodup) :
    chain ∈ chains users roots free key ↔
      RootChain (fun source target => source ∈ dependents users target) (· ∈ roots) key chain ∧
        ∀ unit ∈ chain, unit ∈ free := by
  -- the search goes on with `key` taken out of `free`, which is why no unit comes twice
  fun_induction chains users roots free key generalizing chain with
  | case1 free key hkey hroot =>
      rw [RootChain.of_root hroot, List.mem_singleton]
      constructor
      · rintro rfl
        exact ⟨rfl, fun unit hunit => (List.mem_singleton.1 hunit) ▸ hkey⟩
      · exact And.left
  | case2 free key hkey hroot ih =>
      rw [RootChain.of_not_root hroot]
      simp only [List.mem_flatMap, List.mem_map]
      constructor
      · intro hlisted
        obtain ⟨source, hsource, front, hfront, rfl⟩ := hlisted
        obtain ⟨hchain, hstays⟩ := (ih source (hfree.erase key)).1 hfront
        have hnotin : key ∉ front := fun hmem => (hfree.mem_erase_iff.1 (hstays key hmem)).1 rfl
        refine ⟨⟨source, front, hsource, hchain, hnotin, rfl⟩, ?_⟩
        intro unit hunit
        rcases List.mem_append.1 hunit with hunit | hunit
        · exact List.mem_of_mem_erase (hstays unit hunit)
        · exact (List.mem_singleton.1 hunit) ▸ hkey
      · intro hgiven
        obtain ⟨⟨source, front, hsource, hchain, hnotin, rfl⟩, hstays⟩ := hgiven
        refine ⟨source, hsource, front, (ih source (hfree.erase key)).2 ⟨hchain, ?_⟩, rfl⟩
        intro unit hunit
        refine hfree.mem_erase_iff.2 ⟨?_, hstays unit (List.mem_append_left _ hunit)⟩
        rintro rfl
        exact hnotin hunit
  | case3 free key hkey =>
      refine iff_of_false List.not_mem_nil ?_
      rintro ⟨hchain, hstays⟩
      exact hkey (hstays key (List.mem_of_getLast? hchain.last))

/-- Chains are listed in the order of their keys, read from the unit to the root. -/
theorem pairwise_chains (hdependents : ∀ key, (dependents users key).Pairwise (· < ·))
    (hfree : free.Nodup) :
    (chains users roots free key).Pairwise fun first second =>
      first.reverse < second.reverse := by
  fun_induction chains users roots free key with
  | case1 free key hkey hroot => exact List.pairwise_singleton _ _
  | case2 free key hkey hroot ih =>
      refine List.pairwise_flatMap.2 ⟨?_, ?_⟩
      · intro source _
        refine List.pairwise_map.2 ((ih source (hfree.erase key)).imp ?_)
        intro first second hlt
        rw [List.reverse_concat, List.reverse_concat, List.cons_lt_cons_iff]
        exact .inr ⟨rfl, hlt⟩
      · -- chains by way of different units differ in that unit, behind `key` in both
        refine (hdependents key).imp ?_
        intro source other hlt first hfirst second hsecond
        obtain ⟨front, hfront, rfl⟩ := List.mem_map.1 hfirst
        obtain ⟨back, hback, rfl⟩ := List.mem_map.1 hsecond
        have hsource := ((mem_chains_iff (hfree.erase key)).1 hfront).1.last
        have hother := ((mem_chains_iff (hfree.erase key)).1 hback).1.last
        obtain ⟨before, rfl⟩ := List.getLast?_eq_some_iff.1 hsource
        obtain ⟨beforeOther, rfl⟩ := List.getLast?_eq_some_iff.1 hother
        simp only [List.reverse_concat, List.cons_lt_cons_iff]
        exact .inr ⟨trivial, .inl hlt⟩
  | case3 free key hkey => exact .nil

end Listing

end UsesGraph

/-- A chain from a root of an index to the unit with the key `target`, by keys. -/
def Index.IsRootChain (index : Index) (target : String) (chain : List String) : Prop :=
  RootChain index.Uses (fun key => ∃ root ∈ index.roots, UnitName.key root = key) target chain

namespace UsesGraph

variable {index : Index} {target : String} {chain : List String}

/-- All units on a chain from a root of an index are nodes of its graph. -/
theorem mem_keys_of_isRootChain (hkeyed : index.Keyed) (hroots : index.RootsLoaded)
    (h : index.IsRootChain target chain) : ∀ unit ∈ chain, unit ∈ (ofIndex index).keys := by
  -- the root is loaded, and what a node uses is a node
  refine h.linked.induction (· ∈ (ofIndex index).keys) chain ?_ ?_
  · intro source other huses hsource
    exact (mem_keys_iff hkeyed).2 (.inr ⟨source, key_of_mem_keys hsource, huses⟩)
  · intro hchain
    obtain ⟨_, hhead, root, hroot, rfl⟩ := h.root
    rw [List.head_of_mem_head? hhead]
    exact (mem_keys_iff hkeyed).2 (.inl (NameTable.key_mem_keys.2 (hroots root hroot)))

/-- The chains listed for a unit by keys are those from a root of the index. -/
theorem mem_chains_ofIndex (hkeyed : index.Keyed) (hroots : index.RootsLoaded) :
    chain ∈ chains (ofIndex index).users (ofIndex index).roots (ofIndex index).keys target ↔
      index.IsRootChain target chain := by
  have huses : ∀ source ∈ (ofIndex index).keys, ∀ other,
      source ∈ dependents (ofIndex index).users other ↔ index.Uses source other := by
    intro source hsource other
    rw [mem_dependents_iff, exists_use_iff hkeyed]
    exact and_iff_right (key_of_mem_keys hsource)
  have hroot : ∀ unit ∈ (ofIndex index).keys,
      unit ∈ (ofIndex index).roots ↔ ∃ root ∈ index.roots, UnitName.key root = unit := by
    intro unit hunit
    rw [mem_roots_iff]
    exact and_iff_right hunit
  rw [mem_chains_iff (nodup_keys index)]
  constructor
  · intro hlisted
    obtain ⟨hchain, hnodes⟩ := hlisted
    refine hchain.congr ?_ fun unit hunit => hroot unit (hnodes unit hunit)
    exact fun source hsource other => (huses source (hnodes source hsource) other).1
  · intro hchain
    have hnodes := mem_keys_of_isRootChain hkeyed hroots hchain
    refine ⟨hchain.congr ?_ fun unit hunit => (hroot unit (hnodes unit hunit)).symm, hnodes⟩
    exact fun source hsource other => (huses source (hnodes source hsource) other).2

/-- Read by keys, the chains that are shown are those that are listed. -/
theorem byKeys_why (index : Index) (target : String) :
    byKeys ((ofIndex index).why target) =
      chains (ofIndex index).users (ofIndex index).roots (ofIndex index).keys
        (UnitName.key target) :=
  byKeys_names fun _ hchain => ((mem_chains_iff (nodup_keys index)).1 hchain).2

end UsesGraph

open UsesGraph

/-- The chains to a unit, whatever was done with the index before. Read by keys, they are all the
chains from a root to the unit, each of them once, in the order of their keys from the unit to the
root. There are none to a unit that is no node of the graph. -/
theorem why_lists_root_chains {index : Index} (h : index.Reached) (target : String) :
    (∀ chain, chain ∈ byKeys ((ofIndex index).why target) ↔
      index.IsRootChain (UnitName.key target) chain) ∧
    (byKeys ((ofIndex index).why target)).Nodup ∧
    (byKeys ((ofIndex index).why target)).Pairwise
      (fun first second => first.reverse < second.reverse) ∧
    ((ofIndex index).contains target = false → (ofIndex index).why target = []) := by
  obtain ⟨hkeyed, hroots⟩ := h.keyed_and_rootsLoaded
  have hordered : (byKeys ((ofIndex index).why target)).Pairwise
      fun first second => first.reverse < second.reverse := by
    rw [byKeys_why]
    exact pairwise_chains (pairwise_dependents index) (nodup_keys index)
  refine ⟨?_, ?_, hordered, ?_⟩
  · intro chain
    rw [byKeys_why]
    exact mem_chains_ofIndex hkeyed hroots
  · refine hordered.imp ?_
    rintro first _ hlt rfl
    exact List.lt_irrefl _ hlt
  · intro habsent
    have hkey : UnitName.key target ∉ (ofIndex index).keys := by
      rw [← List.contains_iff_mem, ← contains, habsent]
      exact Bool.false_ne_true
    rw [why, chains, if_neg hkey, List.map_nil]

/-- A root that uses a unit is on a chain to it. -/
theorem why_lists_user :
    let workspace : Workspace :=
      { tree := FileTree.empty.write ["m.pas"] [66], here := []
        systemScratch := "/tmp", run := "1" }
    let registered : Index :=
      { unitPaths := (NameTable.empty.insert "m" "m.pas").insert "b" "b.pas" }
    let index := registered.after workspace (.build ["m.pas"])
    index.Reached ∧ ["m", "b"] ∈ byKeys ((ofIndex index).why "B") := by
  intro workspace registered index
  have hreached : index.Reached := .after workspace (.build ["m.pas"]) Index.reached_two_units
  have hbuilt : index = _ :=
    Index.value_build_of_turns workspace registered ["m.pas"] 2 (by decide +kernel)
  have hroots : index.roots = ["m"] := by
    rw [hbuilt]
    decide +kernel
  have huses : index.get? "m" = some { unit := "m", interface := ["B"] } := by
    rw [hbuilt]
    decide +kernel
  have hchain : index.IsRootChain (UnitName.key "B") ["m", "b"] := by
    refine ⟨by decide +kernel, ⟨"m", rfl, "m", ?_, by decide +kernel⟩, ?_, ?_, by decide⟩
    · rw [hroots, List.mem_singleton]
    · rw [hroots]
      decide +kernel
    · exact .cons_cons ⟨_, huses, .inl (by decide +kernel)⟩ (.singleton "b")
  exact ⟨hreached, ((why_lists_root_chains hreached "B").1 ["m", "b"]).2 hchain⟩

end PascalUnits
