import PascalUnits.Proofs.Graph.Search

/-!
# Groups of keys that lead to each other

`InCycle links` relates keys that lead to each other. A search that has seen all keys finishes with
them in an order that is `FinishedIn links` (`finishedIn_of_search`), and then the keys without a
leader that lead to the last one of them are those in a cycle with it (`FinishedIn.mem_led_iff`). So
the leader of a key is the last key in a cycle with it (`leaders_eq`).
-/

namespace PascalUnits

open Relation UsesGraph

/-- From one key to another one through links. -/
def Reaches (links : List Link) : String → String → Prop :=
  ReflTransGen fun source target => { source, target } ∈ links

/-- Two keys that lead to each other. -/
def InCycle (links : List Link) (key other : String) : Prop :=
  Reaches links key other ∧ Reaches links other key

namespace InCycle

variable {links : List Link} {key other third : String}

theorem refl (links : List Link) (key : String) : InCycle links key key :=
  ⟨.refl, .refl⟩

theorem symm (h : InCycle links key other) : InCycle links other key :=
  ⟨h.2, h.1⟩

theorem trans (h : InCycle links key other) (hthird : InCycle links other third) :
    InCycle links key third :=
  ⟨h.1.trans hthird.1, hthird.2.trans h.2⟩

end InCycle

@[simp] theorem Link.reverse_reverse (link : Link) : link.reverse.reverse = link := rfl

/-- A key leads to another one if there is a link. -/
theorem Adjacency.mem_targets_ofLinks {links : List Link} {source target : String} :
    target ∈ (Adjacency.ofLinks links).targets source ↔ { source, target } ∈ links := by
  rw [Adjacency.targets_ofLinks, List.mem_reverse, List.mem_map]
  constructor
  · intro htarget
    obtain ⟨⟨_, _⟩, hlink, rfl⟩ := htarget
    obtain ⟨hmem, hsource⟩ := List.mem_filter.1 hlink
    rwa [← beq_iff_eq.1 hsource]
  · intro hlink
    exact ⟨_, List.mem_filter.2 ⟨hlink, beq_self_eq_true source⟩, rfl⟩

/-- A key leads backwards to another one if there is a link from that one. -/
theorem Adjacency.mem_targets_reverse {links : List Link} {source target : String} :
    target ∈ (Adjacency.ofLinks (links.map Link.reverse)).targets source ↔
      { source := target, target := source } ∈ links := by
  rw [Adjacency.mem_targets_ofLinks, List.mem_map]
  constructor
  · intro hreverse
    obtain ⟨link, hlink, hsame⟩ := hreverse
    rwa [← Link.reverse_reverse link, hsame] at hlink
  · exact fun hlink => ⟨_, hlink, rfl⟩

/-- A way backwards is a way the other way round. -/
theorem Within.reaches {links : List Link} {unseen : Std.TreeSet String} {source target : String}
    (h : Within (.ofLinks (links.map Link.reverse)) unseen source target) :
    Reaches links target source := by
  induction h with
  | refl => exact .refl
  | tail _ hstep ih => exact ih.head (Adjacency.mem_targets_reverse.1 hstep.2.2)

/-- Keys in an order in which a search for what `links` lead to finishes with them. -/
structure FinishedIn (links : List Link) (order : List String) : Prop where
  nodup : order.Nodup
  mem_of_link : ∀ link ∈ links, link.source ∈ order ∧ link.target ∈ order
  cycles_late : ∀ early late, order = early ++ late → ∀ source ∈ early, ∀ target ∈ late,
    Reaches links source target → ∃ other ∈ late, InCycle links source other

section Search

variable {links : List Link} {keys : List String}

/-- A way through links is one among keys if all links are between them. -/
theorem within_ofList_iff (hlinks : ∀ link ∈ links, link.source ∈ keys ∧ link.target ∈ keys)
    {source target : String} :
    Within (.ofLinks links) (.ofList keys) source target ↔ Reaches links source target := by
  constructor
  · refine ReflTransGen.mono ?_ source target
    exact fun _ _ hstep => Adjacency.mem_targets_ofLinks.1 hstep.2.2
  · refine ReflTransGen.mono ?_ source target
    intro before after hlink
    obtain ⟨hbefore, hafter⟩ := hlinks _ hlink
    exact ⟨by simpa using hbefore, by simpa using hafter, Adjacency.mem_targets_ofLinks.2 hlink⟩

/-- What a search from all keys finishes with. -/
theorem mem_order_ofList {uses : Adjacency} {order : List String} {rest : Std.TreeSet String}
    (h : Search uses (.ofList keys) keys order rest) {key : String} :
    key ∈ order ↔ key ∈ keys := by
  constructor
  · intro hkey
    simpa using h.mem_unseen key hkey
  · intro hkey
    exact h.mem_order_of_mem key hkey (by simpa using hkey)

/-- A search from all keys finishes with them in such an order. -/
theorem finishedIn_of_search {order : List String} {rest : Std.TreeSet String}
    (hlinks : ∀ link ∈ links, link.source ∈ keys ∧ link.target ∈ keys)
    (h : Search (.ofLinks links) (.ofList keys) keys order rest) : FinishedIn links order := by
  refine ⟨h.nodup, ?_, ?_⟩
  · intro link hlink
    rw [mem_order_ofList h, mem_order_ofList h]
    exact hlinks link hlink
  · intro early late hsplit source hsource target htarget hway
    obtain ⟨other, hother, hforth, hback⟩ := h.cyclesLate early late hsplit source hsource target
      htarget ((within_ofList_iff hlinks).2 hway)
    exact ⟨other, hother, (within_ofList_iff hlinks).1 hforth, (within_ofList_iff hlinks).1 hback⟩

end Search

namespace FinishedIn

variable {links : List Link} {order : List String}

/-- What is in a cycle with a key of the order is in the order. -/
theorem mem_of_inCycle (h : FinishedIn links order) {key other : String} (hother : other ∈ order)
    (hcycle : InCycle links key other) : key ∈ order := by
  rcases ReflTransGen.cases_head hcycle.1 with rfl | ⟨next, hlink, -⟩
  · exact hother
  · exact (h.mem_of_link _ hlink).1

section Led

variable {early late : List String} {leader key : String} {unled : Std.TreeSet String}
  (h : FinishedIn links order) (hsplit : order = early ++ leader :: late)
  (hunled : ∀ key, key ∈ unled ↔ key ∈ order ∧ ∀ other ∈ late, ¬InCycle links key other)
  (hleader : leader ∈ unled)

include h hsplit hunled hleader

/-- Among the keys that are in no cycle with a key behind `leader`, those that lead to `leader` are
in a cycle with it. -/
theorem inCycle_of_within (hway : Within (.ofLinks (links.map Link.reverse)) unled leader key) :
    InCycle links key leader := by
  obtain ⟨hmem, hnone⟩ := (hunled key).1 (hway.mem_unseen hleader)
  rw [hsplit, List.mem_append, List.mem_cons] at hmem
  rcases hmem with hearly | rfl | hlate
  · -- the order of the search says that `key` is in a cycle with `leader` or a key behind it
    obtain ⟨other, hother, hcycle⟩ := h.cycles_late early (leader :: late) hsplit key hearly
      leader (by simp) hway.reaches
    rcases List.mem_cons.1 hother with rfl | hother
    · exact hcycle
    · exact absurd hcycle (hnone other hother)
  · exact .refl links key
  · exact absurd (.refl links key) (hnone key hlate)

omit hsplit in
/-- The keys in a cycle with `leader` lead to it among those keys. -/
theorem within_of_inCycle (hcycle : InCycle links key leader) :
    Within (.ofLinks (links.map Link.reverse)) unled leader key := by
  obtain ⟨hmem, hnone⟩ := (hunled leader).1 hleader
  have hcycleUnled : ∀ member, InCycle links member leader → member ∈ unled := by
    intro member hmember
    refine (hunled member).2 ⟨h.mem_of_inCycle hmem hmember, fun other hother hothers => ?_⟩
    exact hnone other hother (hmember.symm.trans hothers)
  obtain ⟨hforth, hback⟩ := hcycle
  -- every key on the way to `leader` is in a cycle with it
  induction hforth using ReflTransGen.head_induction_on with
  | refl => exact .refl
  | head hlink hforth ih =>
      have hnext := hback.tail hlink
      exact (ih hnext).tail ⟨hcycleUnled _ ⟨hforth, hnext⟩,
        hcycleUnled _ ⟨hforth.head hlink, hback⟩, Adjacency.mem_targets_reverse.2 hlink⟩

/-- So `leader` comes to lead the keys in a cycle with it. -/
theorem mem_led_iff :
    Within (.ofLinks (links.map Link.reverse)) unled leader key ↔ InCycle links key leader :=
  ⟨h.inCycle_of_within hsplit hunled hleader, h.within_of_inCycle hunled hleader⟩

end Led

end FinishedIn

section Leaders

variable {links : List Link} {order : List String}

open Classical in
/-- The first of some keys that is in a cycle with `key`. -/
noncomputable def firstInCycle (links : List Link) (keys : List String) (key : String) :
    Option String :=
  keys.find? fun other => decide (InCycle links key other)

theorem firstInCycle_eq_none_iff {keys : List String} {key : String} :
    firstInCycle links keys key = none ↔ ∀ other ∈ keys, ¬InCycle links key other := by
  simp [firstInCycle]

/-- A key is in a cycle with itself, so there is a first one if it is among the keys. -/
theorem exists_firstInCycle {keys : List String} {key : String} (hkey : key ∈ keys) :
    ∃ leader, firstInCycle links keys key = some leader := by
  refine Option.ne_none_iff_exists'.1 fun hnone => ?_
  exact firstInCycle_eq_none_iff.1 hnone key hkey (.refl links key)

/-- Keys that come first are taken first. -/
theorem firstInCycle_append (keys more : List String) (key : String) :
    firstInCycle links (keys ++ more) key =
      (firstInCycle links keys key).or (firstInCycle links more key) :=
  List.find?_append

/-- A further key is the first one for a key in a cycle with it and with none before. -/
theorem firstInCycle_concat_of_inCycle {keys : List String} {key last : String}
    (hnone : firstInCycle links keys key = none) (hcycle : InCycle links key last) :
    firstInCycle links (keys ++ [last]) key = some last := by
  rw [firstInCycle_append, hnone]
  simp [firstInCycle, hcycle]

/-- For other keys it changes nothing. -/
theorem firstInCycle_concat_of_not {keys : List String} {key last : String}
    (h : firstInCycle links keys key = none → ¬InCycle links key last) :
    firstInCycle links (keys ++ [last]) key = firstInCycle links keys key := by
  rw [firstInCycle_append]
  cases hfirst : firstInCycle links keys key with
  | none => simp [firstInCycle, h hfirst]
  | some leader => rfl

/-- Keys are led by the first one among `seen` that is in a cycle with them. -/
structure Led (links : List Link) (order seen : List String) (leaders : Leaders) : Prop where
  mem_unled_iff : ∀ key, key ∈ leaders.unled ↔
    key ∈ order ∧ firstInCycle links seen key = none
  table_eq : ∀ key, leaders.table[key]? = firstInCycle links seen key

/-- What it means that a key comes to lead others. -/
theorem foldl_lead (group : List String) (leader key : String) (leaders : Leaders) :
    let after := group.foldl (fun leaders member =>
      { unled := leaders.unled.erase member, table := leaders.table.insert member leader }) leaders
    (key ∈ after.unled ↔ key ∈ leaders.unled ∧ key ∉ group) ∧
      after.table[key]? = if key ∈ group then some leader else leaders.table[key]? := by
  induction group generalizing leaders with
  | nil => simp
  | cons member rest ih =>
      obtain ⟨hunled, htable⟩ := ih
        { unled := leaders.unled.erase member, table := leaders.table.insert member leader }
      refine ⟨hunled.trans ?_, htable.trans ?_⟩
      · rw [mem_erase_iff]
        grind
      · simp only [Std.TreeMap.getElem?_insert, Std.LawfulEqCmp.compare_eq_iff_eq]
        grind

/-- The next key of the order, read backwards, comes to lead the keys in a cycle with it, unless a
key before leads them. -/
theorem Led.add {seen early : List String} {leaders : Leaders} {key : String}
    (h : FinishedIn links order) (hsplit : order = early ++ key :: seen.reverse)
    (hled : Led links order seen leaders) :
    Led links order (seen ++ [key])
      (Leaders.add (.ofLinks (links.map Link.reverse)) leaders key) := by
  have hnone : ∀ member, firstInCycle links seen member = none ↔
      ∀ other ∈ seen.reverse, ¬InCycle links member other := by
    intro member
    simp only [firstInCycle_eq_none_iff, List.mem_reverse]
  have hunled : ∀ member, member ∈ leaders.unled ↔
      member ∈ order ∧ ∀ other ∈ seen.reverse, ¬InCycle links member other := by
    intro member
    rw [hled.mem_unled_iff, hnone]
  have hkey : key ∈ order := by simp [hsplit]
  unfold Leaders.add
  split
  · rename_i hleader
    obtain ⟨group, rest, hgroup⟩ :=
      search_exists (.ofLinks (links.map Link.reverse)) leaders.unled [key]
    have hfinish : finishOrder (.ofLinks (links.map Link.reverse)) leaders.unled [.enter key] =
        group := by
      refine (hgroup.finishOrder_eq []).trans ?_
      rw [finishOrder, List.append_nil]
    have hmember : ∀ member, member ∈ group ↔ InCycle links member key := by
      intro member
      rw [hgroup.mem_order_iff, ← h.mem_led_iff hsplit hunled hleader]
      simp [hleader]
    rw [hfinish]
    constructor
    · intro member
      rw [(foldl_lead group key member leaders).1, hmember, hled.mem_unled_iff]
      simp only [firstInCycle_eq_none_iff, List.forall_mem_append, List.forall_mem_singleton,
        and_assoc]
    · intro member
      rw [(foldl_lead group key member leaders).2, hled.table_eq]
      split
      · rename_i hmem
        have hmemberNone := ((hled.mem_unled_iff member).1 (hgroup.mem_unseen member hmem)).2
        exact (firstInCycle_concat_of_inCycle hmemberNone ((hmember member).1 hmem)).symm
      · rename_i hmem
        exact (firstInCycle_concat_of_not fun _ => mt (hmember member).2 hmem).symm
  · rename_i hleader
    -- `key` is led already, and so is what is in a cycle with it
    have hsame : ∀ member, firstInCycle links (seen ++ [key]) member =
        firstInCycle links seen member := by
      intro member
      refine firstInCycle_concat_of_not fun hmemberNone hcycle => hleader ?_
      refine (hunled key).2 ⟨hkey, fun other hother hkeyCycle => ?_⟩
      exact (hnone member).1 hmemberNone other hother (hcycle.trans hkeyCycle)
    constructor
    · intro member
      rw [hsame, hled.mem_unled_iff]
    · intro member
      rw [hsame, hled.table_eq]

/-- The rest of the order, read backwards, does the same one key after the other. -/
theorem Led.foldl {seen todo : List String} {leaders : Leaders} (h : FinishedIn links order)
    (hsplit : order.reverse = seen ++ todo) (hled : Led links order seen leaders) :
    Led links order order.reverse
      (todo.foldl (Leaders.add (.ofLinks (links.map Link.reverse))) leaders) := by
  induction todo generalizing seen leaders with
  | nil =>
      rw [hsplit, List.append_nil]
      exact hled
  | cons key rest ih =>
      have horder : order = rest.reverse ++ key :: seen.reverse := by
        rw [← List.reverse_reverse order, hsplit]
        simp
      exact ih (by rw [hsplit, List.append_cons]) (hled.add h horder)

/-- The leader of a key is the last key of the order in a cycle with it. -/
theorem leaders_eq {graph : UsesGraph} (h : FinishedIn graph.interfaceLinks order) (key : String) :
    (graph.leaders order)[key]? = firstInCycle graph.interfaceLinks order.reverse key := by
  have hstart : Led graph.interfaceLinks order [] { unled := .ofList order } := by
    constructor
    · intro member
      simp [firstInCycle]
    · intro member
      simp [firstInCycle]
  exact (hstart.foldl h rfl).table_eq key

end Leaders

end PascalUnits
