import Mathlib.Data.List.Forall2
import Mathlib.Data.List.Induction
import PascalUnits.Proofs.Bisection
import PascalUnits.Proofs.Source.LineTable
import PascalUnits.Source.FileSet

/-!
# Files do not share positions

`FileSet.Laid` is what adding a file keeps: files lie one after the other, above zero and below the
place for the next one. So a look-up finds the one file that a position belongs to
(`Laid.file?_eq_some_iff`), and a binary search by the places of the files finds the same one
(`Laid.searched_eq`). The main statement is `files_share_no_position`.
-/

namespace PascalUnits

/-- A file to be added: its name, the place that is asked for, its size, and the beginnings of lines
that are recorded in it before the next file is added. -/
structure FileRequest where
  name : String
  base : Nat
  size : Nat
  lines : List Nat := []

namespace FileSet

/-- Adds a file, with lines in it. -/
def grant (set : FileSet) (request : FileRequest) : FileSet :=
  (set.addFile request.name request.base request.size).modifyLatest fun file =>
    request.lines.foldl SourceFile.addLine file

/-- The set of the files that are asked for, added in that order. -/
def ofRequests (requests : List FileRequest) : FileSet :=
  requests.foldl grant .empty

/-- The file is the one that was asked for. It is not placed lower than it was asked for. -/
structure Grants (request : FileRequest) (file : SourceFile) : Prop where
  name_eq : file.name = request.name
  size_eq : file.size = request.size
  base_le : request.base ≤ file.base

/-- Files that lie one after the other, with room for a further one behind them. Each of them has a
first line. -/
structure Laid (set : FileSet) : Prop where
  base_pos : 0 < set.base
  file_pos : ∀ file ∈ set.latestFirst, 0 < file.base
  file_lt : ∀ file ∈ set.latestFirst, file.base + file.size < set.base
  ordered : set.latestFirst.Pairwise fun later earlier => earlier.base + earlier.size < later.base
  zero_mem : ∀ file ∈ set.latestFirst, 0 ∈ file.starts

/-- The file that a position belongs to, looked for by binary search: the one that begins there, or
the one before the place where such a file would be, if it reaches that far. -/
def searched (set : FileSet) (pos : Nat) : Option SourceFile :=
  match bisectBy (fun file => compare file.base pos) set.files 0 set.files.length
    (Nat.le_refl _) with
  | .ok index => set.files[index]?.filter (·.contains pos)
  | .error 0 => none
  | .error (index + 1) => set.files[index]?.filter (·.contains pos)

variable {set : FileSet} {file : SourceFile} {pos : Nat}

/-- Recording lines leaves a file where it is. -/
theorem foldl_addLine (lines : List Nat) (file : SourceFile) :
    (lines.foldl SourceFile.addLine file).name = file.name ∧
      (lines.foldl SourceFile.addLine file).base = file.base ∧
      (lines.foldl SourceFile.addLine file).size = file.size ∧
      (0 ∈ file.starts → 0 ∈ (lines.foldl SourceFile.addLine file).starts) := by
  induction lines generalizing file with
  | nil => exact ⟨rfl, rfl, rfl, fun h => h⟩
  | cons line lines ih =>
      obtain ⟨hname, hbase, hsize, hzero⟩ := ih (file.addLine line)
      rw [SourceFile.name_addLine] at hname
      rw [SourceFile.base_addLine] at hbase
      rw [SourceFile.size_addLine] at hsize
      exact ⟨hname, hbase, hsize, fun h => hzero (SourceFile.zero_mem_addLine h line)⟩

/-- What is granted: a file at the end of the set, or higher if that is asked for. -/
theorem grant_eq (set : FileSet) (request : FileRequest) :
    ∃ file, Grants request file ∧ set.base ≤ file.base ∧ 0 ∈ file.starts ∧
      set.grant request =
        { base := file.base + file.size + 1, latestFirst := file :: set.latestFirst } := by
  obtain ⟨hname, hbase, hsize, hzero⟩ := foldl_addLine request.lines
    (.fresh request.name (max request.base set.base) request.size)
  refine ⟨_, ⟨hname, hsize, hbase ▸ Nat.le_max_left _ _⟩, hbase ▸ Nat.le_max_right _ _,
    hzero List.mem_cons_self, ?_⟩
  rw [hbase, hsize]
  rfl

/-- Nothing lies in the empty set. -/
theorem Laid.empty : Laid .empty :=
  ⟨Nat.one_pos, nofun, nofun, .nil, nofun⟩

/-- A further file is placed behind those that are there. -/
theorem Laid.grant (h : set.Laid) (request : FileRequest) : (set.grant request).Laid := by
  obtain ⟨file, -, hplaced, hzero, hset⟩ := set.grant_eq request
  rw [hset]
  have hbehind : ∀ earlier ∈ set.latestFirst, earlier.base + earlier.size < file.base :=
    fun earlier hearlier => Nat.lt_of_lt_of_le (h.file_lt earlier hearlier) hplaced
  refine ⟨Nat.succ_pos _, ?_, ?_, .cons hbehind h.ordered,
    List.forall_mem_cons.2 ⟨hzero, h.zero_mem⟩⟩
  · exact List.forall_mem_cons.2 ⟨Nat.lt_of_lt_of_le h.base_pos hplaced, h.file_pos⟩
  · refine List.forall_mem_cons.2 ⟨Nat.lt_succ_self _, fun earlier hearlier => ?_⟩
    have := hbehind earlier hearlier
    show earlier.base + earlier.size < file.base + file.size + 1
    omega

/-- Files that are asked for lie one after the other. -/
theorem laid_ofRequests (requests : List FileRequest) : (ofRequests requests).Laid := by
  induction requests using List.reverseRecOn with
  | nil => exact .empty
  | append_singleton requests request ih =>
      rw [ofRequests, List.foldl_concat]
      exact ih.grant request

/-- There is one file for each that was asked for, in that order. -/
theorem grants_ofRequests (requests : List FileRequest) :
    List.Forall₂ Grants requests (ofRequests requests).files := by
  induction requests using List.reverseRecOn with
  | nil => exact .nil
  | append_singleton requests request ih =>
      obtain ⟨file, hgrants, -, -, hset⟩ := (ofRequests requests).grant_eq request
      have hfiles : (ofRequests (requests ++ [request])).files =
          (ofRequests requests).files ++ [file] := by
        rw [ofRequests, List.foldl_concat, ← ofRequests, hset, files, List.reverse_cons]
        rfl
      rw [hfiles]
      exact List.rel_append ih (.cons hgrants .nil)

/-- A position in the range of a file leads to that file: the files behind it begin later. -/
theorem Laid.find?_of_mem (h : set.Laid) (hfile : file ∈ set.latestFirst) (hle : file.base ≤ pos)
    (hend : pos ≤ file.base + file.size) : set.latestFirst.find? (·.base ≤ pos) = some file := by
  have hordered := h.ordered
  generalize set.latestFirst = files at hfile hordered
  induction files with
  | nil => cases hfile
  | cons latest earlier ih =>
      obtain ⟨hlatest, hearlier⟩ := List.pairwise_cons.1 hordered
      rcases List.mem_cons.1 hfile with rfl | hmem
      · exact List.find?_cons_of_pos (decide_eq_true hle)
      · have hlater : file.base + file.size < latest.base := hlatest file hmem
        rw [List.find?_cons_of_neg (by simp only [decide_eq_true_eq]; omega)]
        exact ih hmem hearlier

/-- A look-up finds the file that a position belongs to. -/
theorem Laid.file?_eq_some_iff (h : set.Laid) :
    set.file? pos = some file ↔
      file ∈ set.files ∧ file.base ≤ pos ∧ pos ≤ file.base + file.size := by
  have hcontains : ∀ file : SourceFile,
      file.contains pos ↔ file.base ≤ pos ∧ pos ≤ file.base + file.size := by
    intro file
    simp [SourceFile.contains]
  rw [file?, Option.filter_eq_some_iff, files, List.mem_reverse, hcontains]
  constructor
  · rintro ⟨hfound, hrange⟩
    exact ⟨List.mem_of_find?_eq_some hfound, hrange⟩
  · rintro ⟨hmem, hrange⟩
    exact ⟨h.find?_of_mem hmem hrange.1 hrange.2, hrange⟩

/-- The last file that begins at or before a position stands where the search for it comes out. -/
theorem find?_of_cut {before after : List SourceFile} (hfiles : set.files = before ++ after)
    (hbefore : ∀ file ∈ before, compare file.base pos = .lt)
    (hafter : ∀ file ∈ after, compare file.base pos = .gt) :
    set.latestFirst.find? (·.base ≤ pos) = before.getLast? := by
  have hlatest : set.latestFirst = after.reverse ++ before.reverse := by
    rw [← List.reverse_append, ← hfiles, files, List.reverse_reverse]
  have hlater : after.reverse.find? (·.base ≤ pos) = none := by
    refine List.find?_eq_none.2 fun file hfile => ?_
    have hgreater := Nat.compare_eq_gt.1 (hafter file (List.mem_reverse.1 hfile))
    simpa using hgreater
  rw [hlatest, List.find?_append, hlater, Option.none_or, ← List.head?_reverse]
  cases hreverse : before.reverse with
  | nil => rfl
  | cons file earlier =>
      have hless := Nat.compare_eq_lt.1 (hbefore file (List.mem_reverse.1 (by simp [hreverse])))
      exact List.find?_cons_of_pos (decide_eq_true (Nat.le_of_lt hless))

/-- A binary search finds the same file. -/
theorem Laid.searched_eq (h : set.Laid) (pos : Nat) : set.searched pos = set.file? pos := by
  have hascending : set.files.Pairwise fun earlier later =>
      compare earlier.base later.base = .lt := by
    refine (List.pairwise_reverse.2 h.ordered).imp fun hlt => Nat.compare_eq_lt.2 ?_
    exact Nat.lt_of_le_of_lt (Nat.le_add_right _ _) hlt
  rw [searched, file?]
  cases hsearch : bisectBy (fun file => compare file.base pos) set.files 0 set.files.length
      (Nat.le_refl _) with
  | ok index =>
      obtain ⟨file, hfile, hsame⟩ := exists_of_bisectBy_ok hsearch
      have hbase : file.base = pos := Nat.compare_eq_eq.1 hsame
      have hmem := List.mem_reverse.1 (List.mem_of_getElem? hfile)
      simp only [hfile, h.find?_of_mem hmem (Nat.le_of_eq hbase) (hbase ▸ Nat.le_add_right _ _)]
  | error index =>
      obtain ⟨before, after, hfiles, rfl, hbefore, hafter⟩ :=
        exists_cut_of_bisectBy_error (inOrder_of_ascending pos hascending) hsearch
      rw [find?_of_cut hfiles hbefore hafter, List.getLast?_eq_getElem?]
      cases hlength : before.length with
      | zero => simp [List.length_eq_zero_iff.1 hlength]
      | succ index =>
          have hentry : set.files[index]? = before[index]? := by
            rw [hfiles, List.getElem?_append_left (by omega)]
          simp only [hentry, Nat.add_sub_cancel]

end FileSet

/-- Files that are added one after the other share no position, whatever they are called, wherever
they are asked to lie and however many lines are found in them. There is one for each request, in
that order, and it is not placed lower than it was asked for. A look-up finds the file in whose
range a position lies, the place just behind its last byte included; any other position is nowhere.
A binary search by the places of the files finds the same. Each offset in a file has a position,
which leads back to the offset, to that file, and to a place in it. -/
theorem files_share_no_position (requests : List FileRequest) :
    let set := FileSet.ofRequests requests
    List.Forall₂ FileSet.Grants requests set.files ∧
    (∀ file ∈ set.files, 0 < file.base) ∧
    (set.files.Pairwise fun earlier later => earlier.base + earlier.size < later.base) ∧
    (∀ pos file, set.file? pos = some file ↔
      file ∈ set.files ∧ file.base ≤ pos ∧ pos ≤ file.base + file.size) ∧
    (∀ pos, (∀ file ∈ set.files, ¬(file.base ≤ pos ∧ pos ≤ file.base + file.size)) →
      set.file? pos = none ∧ set.position pos = .nowhere) ∧
    (∀ pos, set.searched pos = set.file? pos) ∧
    ∀ file ∈ set.files, ∀ offset ≤ file.size, ∃ pos,
      file.pos offset = .ok pos ∧ file.offset pos = .ok offset ∧ set.file? pos = some file ∧
      (set.position pos).isValid ∧ (set.position pos).filename = file.name ∧
      (set.position pos).offset = offset := by
  intro set
  have hlaid : set.Laid := FileSet.laid_ofRequests requests
  refine ⟨FileSet.grants_ofRequests requests, ?_, ?_, fun pos file => hlaid.file?_eq_some_iff,
    ?_, hlaid.searched_eq, ?_⟩
  · exact fun file hfile => hlaid.file_pos file (List.mem_reverse.1 hfile)
  · exact List.pairwise_reverse.2 hlaid.ordered
  · intro pos houtside
    have hnone : set.file? pos = none := by
      rw [Option.eq_none_iff_forall_ne_some]
      intro file hfile
      obtain ⟨hmem, hrange⟩ := hlaid.file?_eq_some_iff.1 hfile
      exact houtside file hmem hrange
    exact ⟨hnone, by rw [FileSet.position, hnone]⟩
  · intro file hfile offset hoffset
    have hzero := hlaid.zero_mem file (List.mem_reverse.1 hfile)
    obtain ⟨hpos, -, hback, hplace⟩ := SourceFile.pos_of_le hoffset
    have hfound : set.file? (file.base + offset) = some file :=
      hlaid.file?_eq_some_iff.2 ⟨hfile, by omega, by omega⟩
    have hposition : set.position (file.base + offset) = file.locate offset := by
      rw [FileSet.position, hfound]
      exact hplace
    obtain ⟨hvalid, hname⟩ := SourceFile.isValid_locate hzero offset
    refine ⟨_, hpos, hback, hfound, ?_, ?_, ?_⟩
    · rw [hposition, hvalid]
    · rw [hposition, hname]
    · rw [hposition, SourceFile.offset_locate hzero]

end PascalUnits
