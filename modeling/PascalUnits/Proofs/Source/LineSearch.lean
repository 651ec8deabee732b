import Mathlib.Data.Prod.Lex
import PascalUnits.Proofs.Bisection
import PascalUnits.Proofs.Checked
import PascalUnits.Proofs.Source.AddressSpace

/-!
# Places are in the order of the offsets

`SourceFile.Tabled` is what recording lines keeps, in whatever order they come: the table begins
with zero, ascends, and stays inside the file. So each offset stands in one line
(`Tabled.exists_standsAt`), a binary search finds that line and never comes out before the first one
(`Tabled.searched_eq`), and a later offset has a later place (`StandsAt.lt_or_eq`). The main
statement is `places_ascend`.
-/

namespace PascalUnits

/-- Binary search in the part of an ascending table from `low` up to `high`: the index of the
number, or the index at which it would have to be put in. -/
def bisect (table : List Nat) (sought low high : Nat) (h : high ≤ table.length) : Except Nat Nat :=
  if hlow : low < high then
    let middle := low + (high - low) / 2
    have hmiddle : middle < table.length := by omega
    if table[middle] = sought then .ok middle
    else if table[middle] < sought then bisect table sought (middle + 1) high h
    else bisect table sought low middle (Nat.le_of_lt hmiddle)
  else
    .error low
termination_by high - low

/-- The entry at `index` is the last one of the table that is not greater than the number. -/
structure StandsAt (table : List Nat) (number index start : Nat) : Prop where
  start_eq : table[index]? = some start
  start_le : start ≤ number
  lt_later : ∀ later entry, index < later → table[later]? = some entry → number < entry

namespace SourceFile

/-- The place of a position, looked up by binary search. -/
def searched (file : SourceFile) (pos : Nat) : Except Mishap Position :=
  if file.contains pos then do
    let offset ← Checked.sub pos file.base
    let index ←
      match bisect file.lineTable offset 0 file.lineTable.length (Nat.le_refl _) with
      | .ok index => .ok index
      | .error index => Checked.sub index 1
    let start ← Checked.entry file.lineTable index
    let distance ← Checked.sub offset start
    return { filename := file.name, offset, line := index + 1, column := distance + 1 }
  else
    return .nowhere

/-- A file whose table begins with zero, ascends, and has no other entry at the end of the file or
behind it. -/
structure Tabled (file : SourceFile) : Prop where
  zero_first : file.lineTable.head? = some 0
  ascending : file.lineTable.Pairwise (· < ·)
  inside : ∀ start ∈ file.lineTable, start = 0 ∨ start < file.size

end SourceFile

variable {table : List Nat} {sought number other low high index start : Nat} {file : SourceFile}

/-- Later entries are greater. -/
theorem getElem_lt_of_lt (hascending : table.Pairwise (· < ·)) {earlier later : Nat}
    (hlt : earlier < later) (hlater : later < table.length) : table[earlier] < table[later] :=
  List.pairwise_iff_getElem.1 hascending earlier later (by omega) hlater hlt

/-- The search is the one that compares entries to the number. -/
theorem bisect_eq_bisectBy (h : high ≤ table.length) :
    bisect table sought low high h = bisectBy (compare · sought) table low high h := by
  fun_induction bisect table sought low high h with
  | case1 low high h hlow middle hmiddle heq =>
      have horder : compare table[middle] sought = .eq := Nat.compare_eq_eq.2 heq
      rw [bisectBy, dif_pos hlow]
      simp only [middle, horder]
  | case2 low high h hlow middle hmiddle hne hless ih =>
      have horder : compare table[middle] sought = .lt := Nat.compare_eq_lt.2 hless
      rw [ih, bisectBy.eq_def _ _ low, dif_pos hlow]
      simp only [middle, horder]
  | case3 low high h hlow middle hmiddle hne hge ih =>
      have horder : compare table[middle] sought = .gt := Nat.compare_eq_gt.2 (by omega)
      rw [ih, bisectBy.eq_def _ _ low high, dif_pos hlow]
      simp only [middle, horder]
  | case4 low high h hnot => rw [bisectBy, dif_neg hnot]

/-- What a search finds is there. -/
theorem getElem?_of_bisect_ok {h : high ≤ table.length}
    (hfound : bisect table sought low high h = .ok index) : table[index]? = some sought := by
  rw [bisect_eq_bisectBy] at hfound
  obtain ⟨entry, hentry, hsame⟩ := exists_of_bisectBy_ok hfound
  rw [hentry, Nat.compare_eq_eq.1 hsame]

/-- What a search does not find is greater than the entries before the index, and smaller than those
from there on. -/
theorem of_bisect_error (hascending : table.Pairwise (· < ·))
    (hfound : bisect table sought 0 table.length (Nat.le_refl _) = .error index) :
    index ≤ table.length ∧
      (∀ (i : Nat) (hi : i < table.length), i < index → table[i] < sought) ∧
      ∀ (i : Nat) (hi : i < table.length), index ≤ i → sought < table[i] := by
  have hordered : InOrder (compare · sought) table :=
    inOrder_of_ascending sought (hascending.imp Nat.compare_eq_lt.2)
  rw [bisect_eq_bisectBy] at hfound
  obtain ⟨hle, hbefore, hbehind⟩ := sides_of_bisectBy_error hordered hfound
  exact ⟨hle, fun i hi hlt => Nat.compare_eq_lt.1 (hbefore i hi hlt),
    fun i hi hle => Nat.compare_eq_gt.1 (hbehind i hi hle)⟩

namespace StandsAt

/-- A number stands at one place only. -/
theorem unique {index' start' : Nat} (h : StandsAt table number index start)
    (h' : StandsAt table number index' start') : index = index' ∧ start = start' := by
  have hindex : index = index' := by
    rcases Nat.lt_trichotomy index index' with hlt | heq | hgt
    · exact absurd (h.lt_later _ _ hlt h'.start_eq) (Nat.not_lt.2 h'.start_le)
    · exact heq
    · exact absurd (h'.lt_later _ _ hgt h.start_eq) (Nat.not_lt.2 h.start_le)
  subst hindex
  exact ⟨rfl, Option.some.inj (h.start_eq.symm.trans h'.start_eq)⟩

/-- A greater number stands at the same entry, farther from it, or at a later one. -/
theorem lt_or_eq {index' start' : Nat} (h : StandsAt table number index start)
    (h' : StandsAt table other index' start') (hlt : number < other) :
    index < index' ∨ index = index' ∧ number - start < other - start' := by
  rcases Nat.lt_trichotomy index index' with hbefore | rfl | hbehind
  · exact .inl hbefore
  · have hstart : start = start' := Option.some.inj (h.start_eq.symm.trans h'.start_eq)
    have := h.start_le
    exact .inr ⟨rfl, by omega⟩
  · have := h'.lt_later _ _ hbehind h.start_eq
    have := h.start_le
    omega

end StandsAt

/-- In an ascending table that begins with zero, a search comes out at the entry where the number
stands, or right behind it. -/
theorem standsAt_of_bisect (hzero : table.head? = some 0) (hascending : table.Pairwise (· < ·))
    (hfound : StandsAt table number index start) :
    bisect table number 0 table.length (Nat.le_refl _) = .ok index ∨
      bisect table number 0 table.length (Nat.le_refl _) = .error (index + 1) := by
  cases hsearch : bisect table number 0 table.length (Nat.le_refl _) with
  | ok found =>
      have hentry := getElem?_of_bisect_ok hsearch
      have hstands : StandsAt table number found number := by
        refine ⟨hentry, Nat.le_refl _, fun later entry hlater hlaterEntry => ?_⟩
        obtain ⟨hi, rfl⟩ := List.getElem?_eq_some_iff.1 hentry
        obtain ⟨hj, rfl⟩ := List.getElem?_eq_some_iff.1 hlaterEntry
        exact getElem_lt_of_lt hascending hlater hj
      exact .inl (congrArg _ (hstands.unique hfound).1)
  | error behind =>
      obtain ⟨hle, hbefore, hbehind⟩ := of_bisect_error hascending hsearch
      cases behind with
      | zero =>
          -- the number would be smaller than zero
          rw [List.head?_eq_getElem?] at hzero
          obtain ⟨hi, hfirst⟩ := List.getElem?_eq_some_iff.1 hzero
          have := hbehind 0 hi (Nat.le_refl 0)
          omega
      | succ found =>
          have hstands : StandsAt table number found table[found] := by
            refine ⟨List.getElem?_eq_getElem hle, ?_, fun later entry hlater hlaterEntry => ?_⟩
            · exact Nat.le_of_lt (hbefore found hle (Nat.lt_succ_self _))
            · obtain ⟨hj, rfl⟩ := List.getElem?_eq_some_iff.1 hlaterEntry
              exact hbehind later hj hlater
          exact .inr (congrArg (fun index => Except.error (index + 1)) (hstands.unique hfound).1)

namespace SourceFile

/-- A line is recorded at the end of the table, or not at all. -/
theorem lineTable_addLine (file : SourceFile) (offset : Nat) :
    (file.addLine offset).lineTable =
      if file.starts.headD 0 < offset ∧ offset < file.size then file.lineTable ++ [offset]
      else file.lineTable := by
  unfold addLine
  split
  · exact List.reverse_cons
  · rfl

namespace Tabled

theorem fresh (name : String) (base size : Nat) : (SourceFile.fresh name base size).Tabled :=
  ⟨rfl, List.pairwise_singleton _ _, List.forall_mem_singleton.2 (.inl rfl)⟩

theorem zero_mem (h : file.Tabled) : 0 ∈ file.starts :=
  List.mem_reverse.1 (List.mem_of_mem_head? h.zero_first)

/-- No line begins behind the latest one. -/
theorem le_headD (h : file.Tabled) : ∀ start ∈ file.lineTable, start ≤ file.starts.headD 0 := by
  have hdescending := List.pairwise_reverse.1 h.ascending
  intro start hstart
  rw [lineTable, List.mem_reverse] at hstart
  cases hstarts : file.starts with
  | nil =>
      rw [hstarts] at hstart
      cases hstart
  | cons latest earlier =>
      rw [hstarts] at hstart hdescending
      rcases List.mem_cons.1 hstart with rfl | hearlier
      · exact Nat.le_refl _
      · exact Nat.le_of_lt ((List.pairwise_cons.1 hdescending).1 start hearlier)

/-- The step: recording a line keeps the table in order. -/
theorem addLine (h : file.Tabled) (offset : Nat) : (file.addLine offset).Tabled := by
  have htable := lineTable_addLine file offset
  split at htable
  · rename_i hnew
    refine ⟨?_, ?_, ?_⟩
    · rw [htable, List.head?_append, h.zero_first]
      rfl
    · rw [htable, List.pairwise_append]
      refine ⟨h.ascending, List.pairwise_singleton _ _, fun start hstart last hlast => ?_⟩
      obtain rfl := List.mem_singleton.1 hlast
      exact Nat.lt_of_le_of_lt (h.le_headD start hstart) hnew.1
    · rw [htable, size_addLine]
      exact List.forall_mem_append.2 ⟨h.inside, List.forall_mem_singleton.2 (.inr hnew.2)⟩
  · exact ⟨by rw [htable]; exact h.zero_first, by rw [htable]; exact h.ascending,
      by rw [htable, size_addLine]; exact h.inside⟩

/-- So does recording the lines of a text. -/
theorem addLines (h : file.Tabled) (offset : Nat) (text : Bytes) :
    (file.addLines offset text).Tabled := by
  induction text generalizing file offset with
  | nil => exact h
  | cons byte text ih =>
      rw [SourceFile.addLines]
      split
      · exact ih (h.addLine _) _
      · exact ih h _

/-- The run: so does recording any lines. -/
theorem foldl_addLine (h : file.Tabled) (offsets : List Nat) :
    (offsets.foldl SourceFile.addLine file).Tabled := by
  induction offsets generalizing file with
  | nil => exact h
  | cons offset offsets ih => exact ih (h.addLine offset)

/-- Each offset stands in one line, where it is located. -/
theorem exists_standsAt (h : file.Tabled) (offset : Nat) :
    ∃ index start, StandsAt file.lineTable offset index start ∧ index < file.lineCount ∧
      file.locate offset =
        { filename := file.name
          offset
          line := index + 1
          column := offset - start + 1 } := by
  obtain ⟨start, earlier, hdrop, hlocate⟩ := locate_of_zero_mem h.zero_mem offset
  have hstarts := List.takeWhile_append_dropWhile (p := (offset < ·)) (l := file.starts)
  have hstart := List.head?_dropWhile_not (offset < ·) file.starts
  rw [hdrop] at hstarts hstart
  have htable : file.lineTable =
      earlier.reverse ++ start :: (file.starts.takeWhile (offset < ·)).reverse := by
    rw [lineTable]
    conv => lhs; rw [← hstarts]
    simp
  refine ⟨earlier.length, start, ⟨?_, by simpa using hstart, ?_⟩, ?_, hlocate⟩
  · rw [htable, List.getElem?_append_right (by simp)]
    simp
  · intro later entry hlater hentry
    rw [htable, List.getElem?_append_right (by simp; omega), List.getElem?_cons,
      if_neg (by simp; omega)] at hentry
    have hmem := List.mem_reverse.1 (List.mem_of_getElem? hentry)
    simpa using List.all_eq_true.1 List.all_takeWhile entry hmem
  · rw [file.lineCount_eq, ← hstarts, List.length_append, List.length_cons]
    omega

/-- A look-up by binary search gives the place, and never fails. -/
theorem searched_eq (h : file.Tabled) (pos : Nat) :
    file.searched pos = .ok (file.position pos) := by
  rw [searched, position]
  split
  · rename_i hcontains
    simp only [contains, Bool.and_eq_true, decide_eq_true_eq] at hcontains
    obtain ⟨index, start, hstands, -, hlocate⟩ := h.exists_standsAt (pos - file.base)
    rw [Checked.sub_eq_ok hcontains.1, hlocate]
    simp only [bind, Except.bind]
    rcases standsAt_of_bisect h.zero_first h.ascending hstands with hfound | hfound
    · rw [hfound]
      simp only [Checked.entry_eq_ok hstands.start_eq, Checked.sub_eq_ok hstands.start_le]
      rfl
    · rw [hfound]
      simp only [Checked.sub_eq_ok (Nat.le_add_left 1 index), Nat.add_sub_cancel,
        Checked.entry_eq_ok hstands.start_eq, Checked.sub_eq_ok hstands.start_le]
      rfl
  · rfl

/-- A place before another one has a smaller line, or the same line and a smaller column. -/
theorem lex_locate (h : file.Tabled) {first second : Nat} (hlt : first < second) :
    Prod.Lex (· < ·) (· < ·)
      ((file.locate first).line, (file.locate first).column)
      ((file.locate second).line, (file.locate second).column) := by
  obtain ⟨index, start, hstands, -, hlocate⟩ := h.exists_standsAt first
  obtain ⟨index', start', hstands', -, hlocate'⟩ := h.exists_standsAt second
  rw [hlocate, hlocate', Prod.lex_iff]
  rcases hstands.lt_or_eq hstands' hlt with hbefore | ⟨rfl, hnearer⟩
  · exact .inl (Nat.succ_lt_succ hbefore)
  · exact .inr ⟨rfl, Nat.succ_lt_succ hnearer⟩

end Tabled

end SourceFile

/-- Line and column tell the offsets of a file and their order, whatever lines are recorded in it,
in whatever order. The table begins with zero, ascends, and has no other entry at the end of the
file or behind it. Each offset up to the end has a position, whose place is on one of the lines, and
is told by it: by the beginning of the line and the column. Of two offsets, the later one has a
greater line, or the same line and a greater column. A binary search for a line never comes out
before the first one, and the look-up that is made of it never fails. -/
theorem places_ascend (name : String) (base size : Nat) (recorded : List Nat) :
    let file := recorded.foldl SourceFile.addLine (.fresh name base size)
    file.lineTable.head? = some 0 ∧
    file.lineTable.Pairwise (· < ·) ∧
    (∀ start ∈ file.lineTable, start = 0 ∨ start < size) ∧
    (∀ offset ≤ size, ∃ pos start,
      file.pos offset = .ok pos ∧ (file.position pos).isValid ∧
      1 ≤ (file.position pos).line ∧ (file.position pos).line ≤ file.lineCount ∧
      1 ≤ (file.position pos).column ∧
      file.lineTable[(file.position pos).line - 1]? = some start ∧
      offset = start + (file.position pos).column - 1) ∧
    (∀ first second, first < second → second ≤ size → ∃ pos pos',
      file.pos first = .ok pos ∧ file.pos second = .ok pos' ∧
      Prod.Lex (· < ·) (· < ·) ((file.position pos).line, (file.position pos).column)
        ((file.position pos').line, (file.position pos').column)) ∧
    (∀ offset, bisect file.lineTable offset 0 file.lineTable.length (Nat.le_refl _) ≠ .error 0) ∧
    ∀ pos, file.searched pos = .ok (file.position pos) := by
  intro file
  have htabled : file.Tabled := (SourceFile.Tabled.fresh name base size).foldl_addLine recorded
  have hsize : file.size = size := (FileSet.foldl_addLine recorded _).2.2.1
  refine ⟨htabled.zero_first, htabled.ascending, hsize ▸ htabled.inside, ?_, ?_, ?_,
    htabled.searched_eq⟩
  · intro offset hoffset
    obtain ⟨hpos, -, -, hplace⟩ := SourceFile.pos_of_le (hsize.symm ▸ hoffset)
    obtain ⟨index, start, hstands, hindex, hlocate⟩ := htabled.exists_standsAt offset
    refine ⟨_, start, hpos, ?_⟩
    rw [hplace, hlocate]
    have hle := hstands.start_le
    exact ⟨decide_eq_true (Nat.succ_pos _), Nat.le_add_left 1 _, hindex, Nat.le_add_left 1 _,
      hstands.start_eq, by show offset = start + (offset - start + 1) - 1; omega⟩
  · intro first second hlt hsecond
    obtain ⟨hpos, -, -, hplace⟩ :=
      SourceFile.pos_of_le (show first ≤ file.size from hsize ▸ Nat.le_of_lt (by omega))
    obtain ⟨hpos', -, -, hplace'⟩ := SourceFile.pos_of_le (hsize.symm ▸ hsecond)
    refine ⟨_, _, hpos, hpos', ?_⟩
    rw [hplace, hplace']
    exact htabled.lex_locate hlt
  · intro offset
    obtain ⟨index, start, hstands, -⟩ := htabled.exists_standsAt offset
    rcases standsAt_of_bisect htabled.zero_first htabled.ascending hstands with hfound | hfound
    · simp [hfound]
    · simp [hfound]

end PascalUnits
