/-!
# Binary search

`bisectBy` looks for an entry of a list that is in order, halving the part of the list in which the
entry can be. What it finds is there (`exists_of_bisectBy_ok`). What it does not find is told where
it would have to be put in: behind the entries that come before it and in front of all others
(`exists_cut_of_bisectBy_error`).
-/

namespace PascalUnits

variable {α : Type} {order : α → Ordering} {list : List α} {low high index : Nat}

/-- Binary search in the part of a list from `low` up to `high`, where `order` says how an entry
compares to the one that is sought: the index of the entry, or the index at which it would have to
be put in. -/
def bisectBy (order : α → Ordering) (list : List α) (low high : Nat) (h : high ≤ list.length) :
    Except Nat Nat :=
  if hlow : low < high then
    let middle := low + (high - low) / 2
    have hmiddle : middle < list.length := by omega
    match order list[middle] with
    | .eq => .ok middle
    | .lt => bisectBy order list (middle + 1) high h
    | .gt => bisectBy order list low middle (Nat.le_of_lt hmiddle)
  else
    .error low
termination_by high - low

/-- The entries that come before the one that is sought stand in front of it, and those that come
behind it stand there. -/
def InOrder (order : α → Ordering) (list : List α) : Prop :=
  list.Pairwise fun first second =>
    (order second = .lt → order first = .lt) ∧ (order first = .gt → order second = .gt)

/-- Entries whose keys ascend stand on either side of a key as they should. -/
theorem inOrder_of_ascending {β : Type} [Ord β] [Std.TransOrd β] {key : α → β} (sought : β)
    (h : list.Pairwise fun first second => compare (key first) (key second) = .lt) :
    InOrder (fun entry => compare (key entry) sought) list := by
  refine h.imp fun {first second} hlt => ⟨fun hless => ?_, fun hgreater => ?_⟩
  · exact Std.TransCmp.lt_trans hlt hless
  · have hbehind := Std.TransCmp.lt_trans (Std.OrientedCmp.lt_of_gt hgreater) hlt
    exact Std.OrientedCmp.gt_of_lt hbehind

/-- What a search finds is there. -/
theorem exists_of_bisectBy_ok {h : high ≤ list.length}
    (hfound : bisectBy order list low high h = .ok index) :
    ∃ entry, list[index]? = some entry ∧ order entry = .eq := by
  fun_induction bisectBy order list low high h with
  | case1 low high h hlow middle hmiddle heq =>
      rw [← Except.ok.inj hfound]
      exact ⟨list[middle], List.getElem?_eq_getElem hmiddle, heq⟩
  | case2 low high h hlow middle hmiddle hless ih => exact ih hfound
  | case3 low high h hlow middle hmiddle hgreater ih => exact ih hfound
  | case4 => cases hfound

/-- What a search does not find comes behind the entries before the index, and before those from
there on. -/
theorem of_bisectBy_error (hordered : InOrder order list) {h : high ≤ list.length}
    (hlow : ∀ (i : Nat) (hi : i < list.length), i < low → order list[i] = .lt)
    (hhigh : ∀ (i : Nat) (hi : i < list.length), high ≤ i → order list[i] = .gt)
    (hle : low ≤ high) (hfound : bisectBy order list low high h = .error index) :
    index ≤ list.length ∧
      (∀ (i : Nat) (hi : i < list.length), i < index → order list[i] = .lt) ∧
      ∀ (i : Nat) (hi : i < list.length), index ≤ i → order list[i] = .gt := by
  -- what lies outside of `low` and `high` is decided, and each turn decides on one half of the rest
  fun_induction bisectBy order list low high h with
  | case1 => cases hfound
  | case2 low high h hlt middle hmiddle hless ih =>
      refine ih (fun i hi hbefore => ?_) hhigh (by omega) hfound
      rcases Nat.lt_or_eq_of_le (Nat.le_of_lt_succ hbefore) with hbefore | rfl
      · exact (List.pairwise_iff_getElem.1 hordered i middle hi hmiddle hbefore).1 hless
      · exact hless
  | case3 low high h hlt middle hmiddle hgreater ih =>
      refine ih hlow (fun i hi hbehind => ?_) (by omega) hfound
      rcases Nat.lt_or_eq_of_le hbehind with hbehind | rfl
      · exact (List.pairwise_iff_getElem.1 hordered middle i hmiddle hi hbehind).2 hgreater
      · exact hgreater
  | case4 low high h hnot =>
      obtain rfl : low = index := Except.error.inj hfound
      obtain rfl : low = high := by omega
      exact ⟨h, hlow, hhigh⟩

/-- So it is in a search of the whole list. -/
theorem sides_of_bisectBy_error (hordered : InOrder order list)
    (hfound : bisectBy order list 0 list.length (Nat.le_refl _) = .error index) :
    index ≤ list.length ∧
      (∀ (i : Nat) (hi : i < list.length), i < index → order list[i] = .lt) ∧
      ∀ (i : Nat) (hi : i < list.length), index ≤ i → order list[i] = .gt :=
  of_bisectBy_error hordered (fun i _ hnone => absurd hnone (Nat.not_lt_zero i))
    (fun _ hi hnone => absurd hi (Nat.not_lt.2 hnone)) (Nat.zero_le _) hfound

/-- Such a search cuts the list where the entry would have to be. -/
theorem exists_cut_of_bisectBy_error (hordered : InOrder order list)
    (hfound : bisectBy order list 0 list.length (Nat.le_refl _) = .error index) :
    ∃ before after, list = before ++ after ∧ index = before.length ∧
      (∀ entry ∈ before, order entry = .lt) ∧ ∀ entry ∈ after, order entry = .gt := by
  obtain ⟨hle, hbefore, hafter⟩ := sides_of_bisectBy_error hordered hfound
  refine ⟨list.take index, list.drop index, (List.take_append_drop index list).symm,
    (List.length_take_of_le hle).symm, fun entry hentry => ?_, fun entry hentry => ?_⟩
  · obtain ⟨i, hi, rfl⟩ := List.mem_take_iff_getElem.1 hentry
    exact hbefore i (by omega) (by omega)
  · obtain ⟨i, hi, rfl⟩ := List.mem_drop_iff_getElem.1 hentry
    exact hafter (index + i) (by omega) (Nat.le_add_right index i)

end PascalUnits
