import PascalUnits.Proofs.NameTable

/-!
# Lists of names without repetition

`UnitName.Lists` says that a list names each unit that was met once, in the order of the keys and
as it was spelled when it was met first. `lists_insertAll` says that inserting names one after the
other gives such a list.
-/

namespace PascalUnits.UnitName

/-- `list` names each unit among the names that were `met`. -/
structure Lists (list met : List String) : Prop where
  /-- In the order of the keys, without repetition. -/
  ordered : list.Pairwise fun first second => key first < key second
  /-- Each unit that was met, and no other. -/
  mem_keys_iff : ∀ unit, unit ∈ list.map key ↔ unit ∈ met.map key
  /-- As it was spelled when it was met first. -/
  spelled : ∀ name ∈ list, met.find? (fun other => key other == key name) = some name

/-- Puts names in their places in a list, one after the other. -/
def insertAll (names list : List String) : List String :=
  names.foldl (fun list name => insert name list) list

variable {name other : String} {list met : List String}

/-- An inserted name is there in some spelling, and no other name comes or goes. -/
theorem mem_map_key_insert {unit : String} :
    unit ∈ (insert name list).map key ↔ unit = key name ∨ unit ∈ list.map key := by
  induction list with
  | nil => simp [insert]
  | cons head tail ih =>
      unfold insert
      split
      · simp
      · rename_i hsame
        have hkey : key name = key head := Std.compare_eq_iff_eq.1 hsame
        simp [hkey]
      · rw [List.map_cons, List.mem_cons, ih, List.map_cons, List.mem_cons, or_left_comm]

/-- No spelling comes into a list but that of the inserted name. -/
theorem mem_of_mem_insert (h : other ∈ insert name list) : other = name ∨ other ∈ list := by
  induction list with
  | nil => exact .inl (List.mem_singleton.1 h)
  | cons head tail ih =>
      unfold insert at h
      split at h
      · exact List.mem_cons.1 h
      · exact .inr h
      · rcases List.mem_cons.1 h with rfl | htail
        · exact .inr List.mem_cons_self
        · exact (ih htail).imp_right (List.mem_cons_of_mem head)

/-- An insertion keeps the order. -/
theorem ordered_insert (name : String)
    (h : list.Pairwise fun first second => key first < key second) :
    (insert name list).Pairwise fun first second => key first < key second := by
  induction list with
  | nil => exact List.pairwise_singleton _ name
  | cons head tail ih =>
      obtain ⟨hhead, htail⟩ := List.pairwise_cons.1 h
      unfold insert
      split
      · rename_i hbefore
        have hlt : key name < key head := compare_text_eq_lt.1 hbefore
        refine .cons (List.forall_mem_cons.2 ⟨hlt, fun later hlater => ?_⟩) h
        exact String.lt_trans hlt (hhead later hlater)
      · exact h
      · rename_i hafter
        refine .cons (fun later hlater => ?_) (ih htail)
        rcases mem_of_mem_insert hlater with rfl | hlater
        · exact compare_text_eq_lt.1 (Std.OrientedCmp.lt_of_gt hafter)
        · exact hhead later hlater

/-- Inserting a unit that is there changes nothing, whatever its spelling. -/
theorem insert_eq_self (h : list.Pairwise fun first second => key first < key second)
    (hmem : key name ∈ list.map key) : insert name list = list := by
  induction list with
  | nil => cases hmem
  | cons head tail ih =>
      obtain ⟨hhead, htail⟩ := List.pairwise_cons.1 h
      rw [List.map_cons, List.mem_cons] at hmem
      unfold insert
      split
      · -- all names of the list come after one that would be put before its head
        rename_i hbefore
        have hlt : key name < key head := compare_text_eq_lt.1 hbefore
        rcases hmem with hsame | hlater
        · exact absurd (hsame ▸ hlt) (String.lt_irrefl _)
        · obtain ⟨later, hlater, hsame⟩ := List.mem_map.1 hlater
          have hbehind := String.lt_trans hlt (hhead later hlater)
          exact absurd (hsame ▸ hbehind) (String.lt_irrefl _)
      · rfl
      · rename_i hafter
        have hne : key name ≠ key head := fun hsame => by simp [hsame] at hafter
        rw [ih htail (hmem.resolve_left hne)]

/-- Nothing is listed that was not met. -/
theorem Lists.mem_met (h : Lists list met) (name : String) (hname : name ∈ list) : name ∈ met :=
  List.mem_of_find?_eq_some (h.spelled name hname)

/-- One more name that is met is inserted. -/
theorem Lists.insert (h : Lists list met) (name : String) :
    Lists (UnitName.insert name list) (met ++ [name]) := by
  have hold : ∀ other ∈ list,
      (met ++ [name]).find? (fun met => key met == key other) = some other := by
    intro other hother
    rw [List.find?_append, h.spelled other hother, Option.some_or]
  refine ⟨ordered_insert name h.ordered, fun unit => ?_, fun other hother => ?_⟩
  · rw [mem_map_key_insert, h.mem_keys_iff, List.map_append, List.mem_append, or_comm]
    simp
  · by_cases hmem : key name ∈ list.map key
    · rw [insert_eq_self h.ordered hmem] at hother
      exact hold other hother
    · rcases mem_of_mem_insert hother with rfl | hlisted
      · have hnone : met.find? (fun met => key met == key other) = none := by
          rw [List.find?_eq_none]
          intro before hbefore hsame
          rw [h.mem_keys_iff] at hmem
          exact hmem (beq_iff_eq.1 hsame ▸ List.mem_map_of_mem hbefore)
        rw [List.find?_append, hnone, Option.none_or, List.find?_singleton, beq_self_eq_true,
          if_pos rfl]
      · exact hold other hlisted

/-- Further names that are met are inserted one after the other. -/
theorem Lists.insertAll (h : Lists list met) (more : List String) :
    Lists (UnitName.insertAll more list) (met ++ more) := by
  induction more generalizing list met with
  | nil =>
      rw [List.append_nil]
      exact h
  | cons name more ih =>
      rw [List.append_cons]
      exact ih (h.insert name)

/-- Inserting all names that are met lists them. -/
theorem lists_insertAll (met : List String) : Lists (insertAll met []) met :=
  Lists.insertAll ⟨.nil, fun _ => Iff.rfl, nofun⟩ met

end PascalUnits.UnitName
