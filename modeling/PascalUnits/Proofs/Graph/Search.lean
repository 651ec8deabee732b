import Mathlib.Logic.Relation
import PascalUnits.Graph.Cycles

/-!
# Depth-first search

`Search` is a search written as a relation between the keys that it has not seen, those that it is
to enter, and those that it finishes with. There is one for any keys (`search_exists`), and
`finishOrder` follows it (`Search.finishOrder_eq`). The search finishes once with each key that it
can reach (`Search.mem_order_iff`), and when a key with which it finishes early leads to a late one,
the early key is in a cycle with a late one (`Search.cyclesLate`).
-/

namespace PascalUnits

open Relation UsesGraph

/-- A key stays when another one is taken out. -/
theorem mem_erase_iff {keys : Std.TreeSet String} {key other : String} :
    key ∈ keys.erase other ↔ key ≠ other ∧ key ∈ keys := by
  rw [Std.TreeSet.mem_erase, ne_eq, Std.LawfulEqCmp.compare_eq_iff_eq, eq_comm]

/-- From one key to another one among the keys that are `unseen`. -/
def Within (uses : Adjacency) (unseen : Std.TreeSet String) : String → String → Prop :=
  ReflTransGen fun source target =>
    source ∈ unseen ∧ target ∈ unseen ∧ target ∈ uses.targets source

namespace Within

variable {uses : Adjacency} {unseen : Std.TreeSet String} {source target : String}

/-- More keys leave more ways. -/
theorem mono {more : Std.TreeSet String} (hmore : ∀ key ∈ unseen, key ∈ more)
    (h : Within uses unseen source target) : Within uses more source target :=
  ReflTransGen.mono (fun _ _ hstep => ⟨hmore _ hstep.1, hmore _ hstep.2.1, hstep.2.2⟩) _ _ h

/-- Every key on a way is among those that it is to stay in, if the first one is. -/
theorem mem_unseen (h : Within uses unseen source target) (hsource : source ∈ unseen) :
    target ∈ unseen := by
  cases h with
  | refl => exact hsource
  | tail _ hstep => exact hstep.2.1

/-- A way avoids a key that its beginning does not lead to. -/
theorem avoids {key : String} (h : Within uses unseen source target)
    (hkey : ¬Within uses unseen source key) : Within uses (unseen.erase key) source target := by
  induction h with
  | refl => exact .refl
  | @tail before after hbefore hstep ih =>
      refine ih.tail ⟨mem_erase_iff.2 ⟨?_, hstep.1⟩, mem_erase_iff.2 ⟨?_, hstep.2.1⟩, hstep.2.2⟩
      · rintro rfl
        exact hkey hbefore
      · rintro rfl
        exact hkey (hbefore.tail hstep)

end Within

/-- `Search uses unseen keys order rest` says that a search which is to enter the keys `keys`, and
has not seen those in `unseen`, finishes with the keys `order` and leaves `rest` unseen. -/
inductive Search (uses : Adjacency) : Std.TreeSet String → List String → List String →
    Std.TreeSet String → Prop where
  | nil (unseen) : Search uses unseen [] [] unseen
  | skip {unseen rest keys order} (key) :
      key ∉ unseen → Search uses unseen keys order rest →
      Search uses unseen (key :: keys) order rest
  | enter {unseen between rest keys inner order} (key) :
      key ∈ unseen → Search uses (unseen.erase key) (uses.targets key) inner between →
      Search uses between keys order rest →
      Search uses unseen (key :: keys) (inner ++ key :: order) rest

namespace Search

variable {uses : Adjacency} {unseen rest : Std.TreeSet String} {keys order : List String}

/-- What was unseen before a search is what it leaves unseen and what it finishes with. -/
theorem mem_unseen_iff (h : Search uses unseen keys order rest) {key : String} :
    key ∈ unseen ↔ key ∈ rest ∨ key ∈ order := by
  induction h with
  | nil unseen => simp
  | skip first hseen _ ih => exact ih
  | enter first hfirst _ _ ihInner ihOrder =>
      rw [mem_erase_iff] at ihInner
      grind

/-- A search leaves nothing unseen that it finishes with. -/
theorem not_mem_rest (h : Search uses unseen keys order rest) : ∀ key ∈ order, key ∉ rest := by
  induction h with
  | nil unseen => nofun
  | skip first hseen _ ih => exact ih
  | enter first hfirst hinner horder ihInner ihOrder =>
      intro key hkey hrest
      have hbetween := horder.mem_unseen_iff.2 (.inl hrest)
      rcases List.mem_append.1 hkey with hkey | hkey
      · exact ihInner key hkey hbetween
      · rcases List.mem_cons.1 hkey with rfl | hkey
        · exact (mem_erase_iff.1 (hinner.mem_unseen_iff.2 (.inl hbetween))).1 rfl
        · exact ihOrder key hkey hrest

/-- A search finishes with keys that it had not seen. -/
theorem mem_unseen (h : Search uses unseen keys order rest) : ∀ key ∈ order, key ∈ unseen :=
  fun _ hkey => h.mem_unseen_iff.2 (.inr hkey)

/-- A search leaves unseen what it does not finish with. -/
theorem mem_rest_iff (h : Search uses unseen keys order rest) {key : String} :
    key ∈ rest ↔ key ∈ unseen ∧ key ∉ order := by
  rw [h.mem_unseen_iff]
  have := h.not_mem_rest key
  grind

/-- A search finishes with no key twice. -/
theorem nodup (h : Search uses unseen keys order rest) : order.Nodup := by
  induction h with
  | nil unseen => exact List.nodup_nil
  | skip first hseen _ ih => exact ih
  | enter first hfirst hinner horder ihInner ihOrder =>
      refine List.nodup_append.2 ⟨ihInner, List.nodup_cons.2 ⟨?_, ihOrder⟩, ?_⟩
      · intro hlater
        have hbetween := hinner.mem_rest_iff.1 (horder.mem_unseen first hlater)
        exact (mem_erase_iff.1 hbetween.1).1 rfl
      · rintro key hkey _ hother rfl
        rcases List.mem_cons.1 hother with rfl | hlater
        · exact (mem_erase_iff.1 (hinner.mem_unseen key hkey)).1 rfl
        · exact hinner.not_mem_rest key hkey (horder.mem_unseen key hlater)

/-- A search finishes with the keys that it is to enter. -/
theorem mem_order_of_mem (h : Search uses unseen keys order rest) :
    ∀ key ∈ keys, key ∈ unseen → key ∈ order := by
  induction h with
  | nil unseen => nofun
  | skip first hseen _ ih =>
      intro key hkey hunseen
      rcases List.mem_cons.1 hkey with rfl | hkey
      · exact absurd hunseen hseen
      · exact ih key hkey hunseen
  | @enter unseen between rest keys inner order first hfirst hinner horder ihInner ihOrder =>
      intro key hkey hunseen
      rw [List.mem_append, List.mem_cons]
      by_cases hsame : key = first
      · exact .inr (.inl hsame)
      · by_cases hmem : key ∈ inner
        · exact .inl hmem
        · have hbetween := hinner.mem_rest_iff.2 ⟨mem_erase_iff.2 ⟨hsame, hunseen⟩, hmem⟩
          exact .inr (.inr (ihOrder key (List.mem_of_ne_of_mem hsame hkey) hbetween))

/-- What a search finishes with leads to nothing else that it had not seen. -/
theorem mem_order_of_target (h : Search uses unseen keys order rest) :
    ∀ key ∈ order, ∀ target ∈ uses.targets key, target ∈ unseen → target ∈ order := by
  induction h with
  | nil unseen => nofun
  | skip first hseen _ ih => exact ih
  | @enter unseen between rest keys inner order first hfirst hinner horder ihInner ihOrder =>
      intro key hkey target htarget hunseen
      rw [List.mem_append, List.mem_cons]
      by_cases hsame : target = first
      · exact .inr (.inl hsame)
      have herased := mem_erase_iff.2 ⟨hsame, hunseen⟩
      rcases List.mem_append.1 hkey with hkey | hkey
      · exact .inl (ihInner key hkey target htarget herased)
      · rcases List.mem_cons.1 hkey with rfl | hkey
        · exact .inl (hinner.mem_order_of_mem target htarget herased)
        · by_cases hmem : target ∈ inner
          · exact .inl hmem
          · have hbetween := hinner.mem_rest_iff.2 ⟨herased, hmem⟩
            exact .inr (.inr (ihOrder key hkey target htarget hbetween))

/-- A way to what a search does not finish with stays among what the search leaves unseen. -/
theorem within_rest (h : Search uses unseen keys order rest) {source target : String}
    (hway : Within uses unseen source target) (htarget : target ∉ order) :
    source ∉ order ∧ Within uses rest source target := by
  induction hway using ReflTransGen.head_induction_on with
  | refl => exact ⟨htarget, .refl⟩
  | @head source next hstep _ ih =>
      obtain ⟨hsource, hnext, htargets⟩ := hstep
      have hsourceOrder : source ∉ order := fun hmem =>
        ih.1 (h.mem_order_of_target source hmem next htargets hnext)
      refine ⟨hsourceOrder, ih.2.head ⟨?_, ?_, htargets⟩⟩
      · exact h.mem_rest_iff.2 ⟨hsource, hsourceOrder⟩
      · exact h.mem_rest_iff.2 ⟨hnext, ih.1⟩

/-- A search finishes with what it can reach from what it finishes with. -/
theorem mem_order_of_within (h : Search uses unseen keys order rest) {source target : String}
    (hsource : source ∈ order) (hway : Within uses unseen source target) : target ∈ order := by
  refine Decidable.byContradiction fun htarget => ?_
  exact (h.within_rest hway htarget).1 hsource

/-- There is a way to what a search finishes with from what it is to enter. -/
theorem exists_within (h : Search uses unseen keys order rest) :
    ∀ key ∈ order, ∃ start ∈ keys, start ∈ unseen ∧ Within uses unseen start key := by
  induction h with
  | nil unseen => nofun
  | skip first hseen _ ih =>
      intro key hkey
      obtain ⟨start, hstart, hway⟩ := ih key hkey
      exact ⟨start, List.mem_cons_of_mem first hstart, hway⟩
  | @enter unseen between rest keys inner order first hfirst hinner horder ihInner ihOrder =>
      have herase : ∀ key ∈ unseen.erase first, key ∈ unseen := fun _ hkey =>
        (mem_erase_iff.1 hkey).2
      have hbetween : ∀ key ∈ between, key ∈ unseen := fun key hkey =>
        herase key (hinner.mem_rest_iff.1 hkey).1
      intro key hkey
      rcases List.mem_append.1 hkey with hkey | hkey
      · -- what comes before `first` is found by way of what `first` leads to
        obtain ⟨start, hstart, hunseen, hway⟩ := ihInner key hkey
        refine ⟨first, by simp, hfirst, ?_⟩
        exact (hway.mono herase).head ⟨hfirst, herase start hunseen, hstart⟩
      · rcases List.mem_cons.1 hkey with rfl | hkey
        · exact ⟨key, by simp, hfirst, .refl⟩
        · obtain ⟨start, hstart, hunseen, hway⟩ := ihOrder key hkey
          exact ⟨start, List.mem_cons_of_mem first hstart, hbetween start hunseen,
            hway.mono hbetween⟩

/-- A search finishes with the keys that can be reached from those that it is to enter. -/
theorem mem_order_iff (h : Search uses unseen keys order rest) {key : String} :
    key ∈ order ↔ ∃ start ∈ keys, start ∈ unseen ∧ Within uses unseen start key := by
  constructor
  · exact h.exists_within key
  · intro hfound
    obtain ⟨start, hstart, hunseen, hway⟩ := hfound
    exact h.mem_order_of_within (h.mem_order_of_mem start hstart hunseen) hway

end Search

/-- Whenever an early key of `order` leads to a late one, it is in a cycle with a late one. -/
def CyclesLate (uses : Adjacency) (unseen : Std.TreeSet String) (order : List String) : Prop :=
  ∀ early late, order = early ++ late → ∀ source ∈ early, ∀ target ∈ late,
    Within uses unseen source target →
    ∃ other ∈ late, Within uses unseen source other ∧ Within uses unseen other source

namespace CyclesLate

variable {uses : Adjacency} {unseen between rest : Std.TreeSet String}
  {keys inner order : List String} {first : String}

/-- A list that is not empty and ends another one that has `last` at its end has it there too. -/
theorem exists_of_append_singleton {early late : List String} {last : String}
    (h : inner ++ [last] = early ++ late) (hlate : late ≠ []) :
    ∃ middle, late = middle ++ [last] ∧ inner = early ++ middle := by
  rcases List.append_eq_append_iff.1 h with ⟨middle, rfl, hlast⟩ | ⟨middle, hinner, hmiddle⟩
  · rcases List.append_eq_singleton_iff.1 hlast.symm with ⟨rfl, rfl⟩ | ⟨_, rfl⟩
    · exact ⟨[], rfl, by simp⟩
    · exact absurd rfl hlate
  · exact ⟨middle, hmiddle, hinner⟩

/-- A key comes behind what is found from it. -/
theorem enter (hfirst : first ∈ unseen)
    (hinner : Search uses (unseen.erase first) (uses.targets first) inner between)
    (h : CyclesLate uses (unseen.erase first) inner) :
    CyclesLate uses unseen (inner ++ [first]) := by
  have herase : ∀ key ∈ unseen.erase first, key ∈ unseen := fun _ hkey =>
    (mem_erase_iff.1 hkey).2
  intro early late hsplit source hsource target htarget hway
  obtain ⟨middle, rfl, rfl⟩ := exists_of_append_singleton hsplit (List.ne_nil_of_mem htarget)
  -- either `source` leads back to `first`, or its way was open to the search without `first`
  by_cases hcycle : Within uses unseen source first
  · have hentered : Search uses unseen [first] (early ++ middle ++ [first]) between :=
      .enter first hfirst hinner (.nil between)
    obtain ⟨start, hstart, -, hback⟩ := hentered.exists_within source (by simp [hsource])
    rw [List.mem_singleton.1 hstart] at hback
    exact ⟨first, by simp, hcycle, hback⟩
  · have htargetMiddle : target ∈ middle := by
      refine (List.mem_append.1 htarget).resolve_right fun hlast => hcycle ?_
      rwa [← List.mem_singleton.1 hlast]
    obtain ⟨other, hother, hforth, hback⟩ :=
      h early middle rfl source hsource target htargetMiddle (hway.avoids hcycle)
    exact ⟨other, List.mem_append_left _ hother, hforth.mono herase, hback.mono herase⟩

/-- One search goes on where another one ends. -/
theorem append (hinner : Search uses unseen [first] inner between)
    (horder : Search uses between keys order rest) (h : CyclesLate uses unseen inner)
    (hbehind : CyclesLate uses between order) : CyclesLate uses unseen (inner ++ order) := by
  have hbetween : ∀ key ∈ between, key ∈ unseen := fun key hkey => (hinner.mem_rest_iff.1 hkey).1
  have hdisjoint : ∀ key ∈ order, key ∉ inner := fun key hkey =>
    (hinner.mem_rest_iff.1 (horder.mem_unseen key hkey)).2
  intro early late hsplit source hsource target htarget hway
  -- the late keys begin in the second search or in the first one
  rcases List.append_eq_append_iff.1 hsplit with ⟨middle, rfl, rfl⟩ | ⟨middle, rfl, rfl⟩
  · have htargetOrder : target ∉ inner := hdisjoint target (List.mem_append_right _ htarget)
    obtain ⟨hsourceInner, hwayBehind⟩ := hinner.within_rest hway htargetOrder
    have hsourceMiddle := (List.mem_append.1 hsource).resolve_left hsourceInner
    obtain ⟨other, hother, hforth, hback⟩ :=
      hbehind middle late rfl source hsourceMiddle target htarget hwayBehind
    exact ⟨other, hother, hforth.mono hbetween, hback.mono hbetween⟩
  · have htargetInner := hinner.mem_order_of_within (List.mem_append_left middle hsource) hway
    have htargetMiddle : target ∈ middle := (List.mem_append.1 htarget).resolve_right fun hlate =>
      hdisjoint target hlate htargetInner
    obtain ⟨other, hother, hcycle⟩ := h early middle rfl source hsource target htargetMiddle hway
    exact ⟨other, List.mem_append_left _ hother, hcycle⟩

end CyclesLate

namespace Search

variable {uses : Adjacency} {unseen rest : Std.TreeSet String} {keys order : List String}

/-- If what a search finishes with early leads to what it finishes with late, then it is in a cycle
with something that the search finishes with late. -/
theorem cyclesLate (h : Search uses unseen keys order rest) : CyclesLate uses unseen order := by
  induction h with
  | nil unseen =>
      intro early late hsplit source hsource
      rw [(List.append_eq_nil_iff.1 hsplit.symm).1] at hsource
      cases hsource
  | skip first hseen _ ih => exact ih
  | @enter unseen between rest keys inner order first hfirst hinner horder ihInner ihOrder =>
      rw [List.append_cons]
      exact .append (.enter first hfirst hinner (.nil between)) horder
        (.enter hfirst hinner ihInner) ihOrder

/-- A search leaves at most as many keys unseen as there were. -/
theorem size_le (h : Search uses unseen keys order rest) : rest.size ≤ unseen.size := by
  induction h with
  | nil unseen => exact Nat.le_refl _
  | skip first hseen _ ih => exact ih
  | enter first hfirst _ _ ihInner ihOrder =>
      exact Nat.le_trans ihOrder (Nat.le_trans ihInner (Nat.le_of_lt (size_erase_lt hfirst)))

/-- The search goes as the relation says, whatever is to be done after it. -/
theorem finishOrder_eq (h : Search uses unseen keys order rest) (todo : List Visit) :
    finishOrder uses unseen (keys.map .enter ++ todo) = order ++ finishOrder uses rest todo := by
  induction h generalizing todo with
  | nil unseen => rfl
  | skip first hseen _ ih =>
      rw [List.map_cons, List.cons_append, finishOrder, if_neg hseen, ih]
  | enter first hfirst _ _ ihInner ihOrder =>
      rw [List.map_cons, List.cons_append, finishOrder, if_pos hfirst, ihInner, finishOrder,
        ihOrder]
      simp

/-- A search finishes with the same keys each time. -/
theorem order_unique {otherRest : Std.TreeSet String} {otherOrder : List String}
    (h : Search uses unseen keys order rest)
    (hother : Search uses unseen keys otherOrder otherRest) : order = otherOrder := by
  have hfinish := h.finishOrder_eq []
  rw [hother.finishOrder_eq [], finishOrder, finishOrder] at hfinish
  simpa using hfinish.symm

/-- A search with the same keys to enter finishes with the same keys if it has not seen the same of
them and of all that anything leads to. -/
theorem congr (h : Search uses unseen keys order rest) (shared : String → Prop)
    (htargets : ∀ key, ∀ target ∈ uses.targets key, shared target)
    (hkeys : ∀ key ∈ keys, shared key) {other : Std.TreeSet String}
    (hsame : ∀ key, shared key → (key ∈ unseen ↔ key ∈ other)) :
    ∃ otherRest, Search uses other keys order otherRest := by
  induction h generalizing other with
  | nil unseen => exact ⟨other, .nil other⟩
  | skip first hseen _ ih =>
      obtain ⟨hfirst, hkeys⟩ := List.forall_mem_cons.1 hkeys
      obtain ⟨otherRest, hother⟩ := ih hkeys hsame
      exact ⟨otherRest, .skip first (mt (hsame first hfirst).2 hseen) hother⟩
  | @enter unseen between rest keys inner order first hunseen hinner horder ihInner ihOrder =>
      obtain ⟨hfirst, hkeys⟩ := List.forall_mem_cons.1 hkeys
      have herased : ∀ key, shared key → (key ∈ unseen.erase first ↔ key ∈ other.erase first) := by
        intro key hkey
        rw [mem_erase_iff, mem_erase_iff, hsame key hkey]
      obtain ⟨otherBetween, hotherInner⟩ := ihInner (htargets first) herased
      have hbetween : ∀ key, shared key → (key ∈ between ↔ key ∈ otherBetween) := by
        intro key hkey
        rw [hinner.mem_rest_iff, hotherInner.mem_rest_iff, herased key hkey]
      obtain ⟨otherRest, hotherOrder⟩ := ihOrder hkeys hbetween
      exact ⟨otherRest, .enter first ((hsame first hfirst).1 hunseen) hotherInner hotherOrder⟩

end Search

/-- There is a search from all keys. -/
theorem search_exists (uses : Adjacency) (unseen : Std.TreeSet String) (keys : List String) :
    ∃ order rest, Search uses unseen keys order rest := by
  match keys with
  | [] => exact ⟨[], unseen, .nil unseen⟩
  | key :: keys =>
      by_cases hkey : key ∈ unseen
      · have herase := size_erase_lt hkey
        obtain ⟨inner, between, hinner⟩ := search_exists uses (unseen.erase key) (uses.targets key)
        have hbetween := hinner.size_le
        obtain ⟨order, rest, horder⟩ := search_exists uses between keys
        exact ⟨inner ++ key :: order, rest, .enter key hkey hinner horder⟩
      · obtain ⟨order, rest, horder⟩ := search_exists uses unseen keys
        exact ⟨order, rest, .skip key hkey horder⟩
termination_by (unseen.size, keys.length)
decreasing_by
  · exact Prod.Lex.left _ _ herase
  · exact Prod.Lex.left _ _ (Nat.lt_of_le_of_lt hbetween herase)
  · exact Prod.Lex.right _ (by simp)

end PascalUnits
