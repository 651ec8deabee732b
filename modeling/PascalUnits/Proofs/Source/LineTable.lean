import PascalUnits.Source.File

/-!
# The line table of a file

Recording lines changes nothing but the table, and never takes away the first line, which begins at
zero. With it every offset lies in a line (`locate_of_zero_mem`), so that its place is somewhere.
-/

namespace PascalUnits.SourceFile

variable {file : SourceFile}

@[simp] theorem name_addLine (file : SourceFile) (offset : Nat) :
    (file.addLine offset).name = file.name := by
  unfold addLine
  split <;> rfl

@[simp] theorem base_addLine (file : SourceFile) (offset : Nat) :
    (file.addLine offset).base = file.base := by
  unfold addLine
  split <;> rfl

@[simp] theorem size_addLine (file : SourceFile) (offset : Nat) :
    (file.addLine offset).size = file.size := by
  unfold addLine
  split <;> rfl

theorem base_addLines (file : SourceFile) (offset : Nat) (text : Bytes) :
    (file.addLines offset text).base = file.base := by
  induction text generalizing file offset with
  | nil => rfl
  | cons byte text ih =>
      rw [addLines]
      split
      · rw [ih, base_addLine]
      · exact ih file _

theorem size_addLines (file : SourceFile) (offset : Nat) (text : Bytes) :
    (file.addLines offset text).size = file.size := by
  induction text generalizing file offset with
  | nil => rfl
  | cons byte text ih =>
      rw [addLines]
      split
      · rw [ih, size_addLine]
      · exact ih file _

theorem zero_mem_addLine (h : 0 ∈ file.starts) (offset : Nat) :
    0 ∈ (file.addLine offset).starts := by
  unfold addLine
  split
  · exact List.mem_cons_of_mem offset h
  · exact h

/-- The first line stays. -/
theorem zero_mem_addLines (h : 0 ∈ file.starts) (offset : Nat) (text : Bytes) :
    0 ∈ (file.addLines offset text).starts := by
  induction text generalizing file offset with
  | nil => exact h
  | cons byte text ih =>
      rw [addLines]
      split
      · exact ih (zero_mem_addLine h _) _
      · exact ih h _

/-- A file with a first line has a line for every offset. -/
theorem locate_of_zero_mem (h : 0 ∈ file.starts) (offset : Nat) :
    ∃ start earlier, file.starts.dropWhile (offset < ·) = start :: earlier ∧
      file.locate offset =
        { filename := file.name
          offset
          line := earlier.length + 1
          column := offset - start + 1 } := by
  rw [locate_eq]
  split
  · rename_i hnone
    -- every line would begin after the offset, even the first one
    have hall := List.takeWhile_append_dropWhile (p := (offset < ·)) (l := file.starts)
    rw [hnone, List.append_nil] at hall
    rw [← hall] at h
    have hzero := List.all_eq_true.1 List.all_takeWhile 0 h
    simp at hzero
  · rename_i start earlier hsome
    exact ⟨start, earlier, hsome, rfl⟩

/-- An offset in a file with a first line is the offset of its place. -/
theorem offset_locate (h : 0 ∈ file.starts) (offset : Nat) :
    (file.locate offset).offset = offset := by
  obtain ⟨start, earlier, -, hlocate⟩ := locate_of_zero_mem h offset
  rw [hlocate]

/-- The places in a file with a first line are in that file and nowhere else. -/
theorem isValid_locate (h : 0 ∈ file.starts) (offset : Nat) :
    (file.locate offset).isValid ∧ (file.locate offset).filename = file.name := by
  obtain ⟨start, earlier, -, hlocate⟩ := locate_of_zero_mem h offset
  rw [hlocate]
  exact ⟨decide_eq_true (Nat.succ_pos _), rfl⟩

/-- An offset inside a file has a position there, which leads back to it. -/
theorem pos_of_le {offset : Nat} (h : offset ≤ file.size) :
    file.pos offset = .ok (file.base + offset) ∧ file.contains (file.base + offset) ∧
      file.offset (file.base + offset) = .ok offset ∧
      file.position (file.base + offset) = file.locate offset := by
  have hcontains : file.contains (file.base + offset) := by
    simp only [contains, Bool.and_eq_true, decide_eq_true_eq]
    omega
  refine ⟨if_pos h, hcontains, ?_, ?_⟩
  · rw [SourceFile.offset, if_pos hcontains, Nat.add_sub_cancel_left]
  · rw [position, if_pos hcontains, Nat.add_sub_cancel_left]

end PascalUnits.SourceFile
