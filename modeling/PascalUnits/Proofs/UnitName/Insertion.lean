import PascalUnits.Proofs.Bisection
import PascalUnits.Proofs.Checked
import PascalUnits.Proofs.UnitName

/-!
# A list of names is a set in order

Inserting a name into a list in the order of the keys adds it to a set: the list stays as it is if
the unit is there, in whatever spelling, and else is cut where the name belongs
(`exists_cut_of_not_mem`, `insert_append`). A binary search by keys comes out at that cut, though
the spellings are in another order than the keys, so inserting where it comes out is the same and
never fails (`searchInsert_eq`, `searchInsertAll_eq`). Names that were inserted in another order
are listed under the same keys (`map_key_insertAll_congr`). The main statement is
`insert_adds_to_ordered_set`.
-/

namespace PascalUnits.UnitName

/-- Looks for a name by its key. -/
def search (name : String) (list : List String) : Except Nat Nat :=
  bisectBy (fun other => compare (key other) (key name)) list 0 list.length (Nat.le_refl _)

/-- Puts a name where the search comes out, unless it finds the name. -/
def searchInsert (name : String) (list : List String) : Except Mishap (List String) :=
  match search name list with
  | .ok _ => .ok list
  | .error index => do
    let before ← Checked.slice list 0 index
    let after ← Checked.slice list index list.length
    return before ++ name :: after

/-- Does so for one name after the other. -/
def searchInsertAll (names list : List String) : Except Mishap (List String) :=
  names.foldlM (fun list name => searchInsert name list) list

variable {name : String} {list before after names others : List String}

/-- A name that the search finds is there in some spelling. -/
theorem mem_keys_of_search_ok {index : Nat} (hfound : search name list = .ok index) :
    key name ∈ list.map key := by
  obtain ⟨other, hother, hsame⟩ := exists_of_bisectBy_ok hfound
  exact List.mem_map.2 ⟨other, List.mem_of_getElem? hother, Std.compare_eq_iff_eq.1 hsame⟩

/-- The search for a name that is not found comes out between the smaller and the greater keys. -/
theorem exists_cut_of_search_error {index : Nat}
    (h : list.Pairwise fun first second => key first < key second)
    (hfound : search name list = .error index) :
    ∃ before after, list = before ++ after ∧ index = before.length ∧
      (∀ other ∈ before, key other < key name) ∧ ∀ other ∈ after, key name < key other := by
  obtain ⟨before, after, hlist, hindex, hbefore, hafter⟩ :=
    exists_cut_of_bisectBy_error
      (inOrder_of_ascending (key name) (h.imp compare_text_eq_lt.2)) hfound
  refine ⟨before, after, hlist, hindex, fun other hother => ?_, fun other hother => ?_⟩
  · exact compare_text_eq_lt.1 (hbefore other hother)
  · exact compare_text_eq_lt.1 (Std.OrientedCmp.lt_of_gt (hafter other hother))

/-- A name goes between the smaller and the greater keys. -/
theorem insert_append (hbefore : ∀ other ∈ before, key other < key name)
    (hafter : ∀ other ∈ after, key name < key other) :
    insert name (before ++ after) = before ++ name :: after := by
  induction before with
  | nil =>
      cases after with
      | nil => rfl
      | cons head tail =>
          have hlt := compare_text_eq_lt.2 (hafter head List.mem_cons_self)
          simp only [List.nil_append, insert, hlt]
  | cons head tail ih =>
      obtain ⟨hhead, htail⟩ := List.forall_mem_cons.1 hbefore
      have hgt := Std.OrientedCmp.gt_of_lt (compare_text_eq_lt.2 hhead)
      simp only [List.cons_append, insert, hgt, ih htail]

/-- The place of a name that is not there cuts a list in order. -/
theorem exists_cut_of_not_mem (h : list.Pairwise fun first second => key first < key second)
    (hnew : key name ∉ list.map key) :
    ∃ before after, list = before ++ after ∧
      (∀ other ∈ before, key other < key name) ∧ ∀ other ∈ after, key name < key other := by
  cases hfound : search name list with
  | ok index => exact absurd (mem_keys_of_search_ok hfound) hnew
  | error index =>
      obtain ⟨before, after, hlist, -, hbefore, hafter⟩ := exists_cut_of_search_error h hfound
      exact ⟨before, after, hlist, hbefore, hafter⟩

/-- The step: in a list in order, inserting where the search comes out is inserting, and never
fails. -/
theorem searchInsert_eq (h : list.Pairwise fun first second => key first < key second) :
    searchInsert name list = .ok (insert name list) := by
  rw [searchInsert]
  cases hfound : search name list with
  | ok index => rw [insert_eq_self h (mem_keys_of_search_ok hfound)]
  | error index =>
      obtain ⟨before, after, rfl, rfl, hbefore, hafter⟩ := exists_cut_of_search_error h hfound
      have hlength : before.length ≤ (before ++ after).length := by simp
      have hfront : Checked.slice (before ++ after) 0 before.length = .ok before := by
        rw [Checked.slice_eq_ok (Nat.zero_le _) hlength, List.drop_zero, List.take_left]
      have hback : Checked.slice (before ++ after) before.length (before ++ after).length =
          .ok after := by
        rw [Checked.slice_eq_ok hlength (Nat.le_refl _), List.take_length, List.drop_left]
      simp only [hfront, hback, insert_append hbefore hafter]
      rfl

/-- The run: so is doing so for one name after the other. -/
theorem searchInsertAll_eq (names : List String)
    (h : list.Pairwise fun first second => key first < key second) :
    searchInsertAll names list = .ok (insertAll names list) := by
  induction names generalizing list with
  | nil => rfl
  | cons name names ih =>
      rw [searchInsertAll, List.foldlM_cons, searchInsert_eq h]
      exact ih (ordered_insert name h)

/-- Lists of the same units have the same keys in the same order. -/
theorem map_key_insertAll_congr (h : ∀ unit, unit ∈ names.map key ↔ unit ∈ others.map key) :
    (insertAll names []).map key = (insertAll others []).map key := by
  have hlists := lists_insertAll names
  have hothers := lists_insertAll others
  refine (List.pairwise_map.2 hlists.ordered).eq_of_mem_iff (List.pairwise_map.2 hothers.ordered) ?_
  intro unit
  rw [hlists.mem_keys_iff, hothers.mem_keys_iff, h]

/-- Inserting a name adds it to a set in order. A list in the order of the keys stays as it is if it
has the name in some spelling; else the name is put in between, with all other names as they were,
and the list is in order as before. Putting it where a binary search by keys comes out is the same
and never fails. So names that are inserted one after the other, from no names on, are listed once
for each of their keys, each in its first spelling, and in whatever order they are inserted, the
keys are listed alike. -/
theorem insert_adds_to_ordered_set :
    (∀ (name : String) (list : List String),
      list.Pairwise (fun first second => key first < key second) →
      (key name ∈ list.map key → insert name list = list) ∧
      (key name ∉ list.map key → ∃ before after,
        list = before ++ after ∧ insert name list = before ++ name :: after) ∧
      (insert name list).Pairwise (fun first second => key first < key second) ∧
      searchInsert name list = .ok (insert name list)) ∧
    ∀ names : List String,
      Lists (insertAll names []) names ∧
      (∀ unit, ((insertAll names []).map key).count unit =
        if unit ∈ names.map key then 1 else 0) ∧
      searchInsertAll names [] = .ok (insertAll names []) ∧
      ∀ others, names.Perm others →
        (insertAll others []).map key = (insertAll names []).map key := by
  constructor
  · intro name list hordered
    refine ⟨insert_eq_self hordered, fun hnew => ?_, ordered_insert name hordered,
      searchInsert_eq hordered⟩
    obtain ⟨before, after, rfl, hbefore, hafter⟩ := exists_cut_of_not_mem hordered hnew
    exact ⟨before, after, rfl, insert_append hbefore hafter⟩
  · intro names
    have hlists := lists_insertAll names
    have hnodup : ((insertAll names []).map key).Nodup :=
      List.pairwise_map.2 (hlists.ordered.imp String.ne_of_lt)
    refine ⟨hlists, fun unit => ?_, searchInsertAll_eq names .nil, fun others hperm => ?_⟩
    · simp only [hnodup.count, hlists.mem_keys_iff]
    · exact map_key_insertAll_congr fun unit => ((hperm.map key).mem_iff (a := unit)).symm

/-- The character `_`, for instance, stands between the capital and the small letters, but by keys
it comes before both. -/
theorem insert_name_with_underscore :
    let list := ["Alpha", "b_x", "BA"]
    list.Pairwise (fun first second => key first < key second) ∧
    insert "ALPHA" list = list ∧
    insert "B_Y" list = ["Alpha", "b_x", "B_Y", "BA"] ∧
    searchInsert "B_Y" list = .ok ["Alpha", "b_x", "B_Y", "BA"] ∧
    insertAll ["BA", "b_x", "Alpha", "ba"] [] = list ∧
    insertAll ["Alpha", "ba", "BA", "b_x"] [] = ["Alpha", "b_x", "ba"] ∧
    (insertAll ["Alpha", "ba", "BA", "b_x"] []).map key =
      (insertAll ["BA", "b_x", "Alpha", "ba"] []).map key := by
  intro list
  have hordered : list.Pairwise (fun first second => key first < key second) := by decide +kernel
  have hinserted : insert "B_Y" list = ["Alpha", "b_x", "B_Y", "BA"] := by decide +kernel
  obtain ⟨hstep, hrun⟩ := insert_adds_to_ordered_set
  obtain ⟨-, -, -, hsearch⟩ := hstep "B_Y" list hordered
  obtain ⟨-, -, -, hperm⟩ := hrun ["BA", "b_x", "Alpha", "ba"]
  exact ⟨hordered, (hstep "ALPHA" list hordered).1 (by decide +kernel), hinserted,
    hsearch.trans (congrArg _ hinserted), by decide +kernel, by decide +kernel,
    hperm ["Alpha", "ba", "BA", "b_x"] (by decide +kernel)⟩

end PascalUnits.UnitName
