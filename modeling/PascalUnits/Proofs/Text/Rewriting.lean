import Mathlib.Data.List.TakeWhile
import PascalUnits.Proofs.Path
import PascalUnits.UnitName

/-!
# Writing a text anew, character by character

A way to write each character anew that leaves slashes and periods alone, and makes no others, goes
through everything that a path is taken apart by: its segments, the file name, the stem. So the stem
of a path that is written anew is the stem of the path, written anew (`UnitName.ofPath_rewritten`).
-/

namespace PascalUnits

namespace Text

/-- A text with each character written anew. -/
def rewritten (rewrite : Char → List Char) (text : String) : String :=
  String.ofList (text.toList.flatMap rewrite)

/-- A separator is written as it is, and no other character with it. -/
structure Keeps (rewrite : Char → List Char) (separator : Char) : Prop where
  kept : rewrite separator = [separator]
  eq_of_mem : ∀ char, separator ∈ rewrite char → char = separator

variable {rewrite : Char → List Char} {separator : Char}

theorem toList_rewritten (rewrite : Char → List Char) (text : String) :
    (rewritten rewrite text).toList = text.toList.flatMap rewrite :=
  String.toList_ofList

theorem rewritten_ofList (rewrite : Char → List Char) (chars : List Char) :
    rewritten rewrite (String.ofList chars) = String.ofList (chars.flatMap rewrite) := by
  rw [rewritten, String.toList_ofList]

theorem splitChars_cons_of_ne {char : Char} (h : char ≠ separator) (rest : List Char) :
    splitChars separator (char :: rest) = (splitChars separator rest).modifyHead (char :: ·) := by
  rw [splitChars, beq_eq_false_iff_ne.2 h]
  cases hpieces : splitChars separator rest with
  | nil => exact absurd hpieces (splitChars_ne_nil _ _)
  | cons piece pieces => rfl

/-- What stands before the first separator belongs to the first piece. -/
theorem splitChars_append_of_not_mem {front : List Char} (h : separator ∉ front)
    (rest : List Char) :
    splitChars separator (front ++ rest) = (splitChars separator rest).modifyHead (front ++ ·) := by
  induction front with
  | nil => exact (congrFun List.modifyHead_id _).symm
  | cons char front ih =>
      obtain ⟨hchar, hfront⟩ := List.ne_and_not_mem_of_not_mem_cons h
      rw [List.cons_append, splitChars_cons_of_ne hchar.symm, ih hfront, List.modifyHead_modifyHead]
      rfl

namespace Keeps

variable (h : Keeps rewrite separator)

include h

theorem mem_flatMap_iff {chars : List Char} :
    separator ∈ chars.flatMap rewrite ↔ separator ∈ chars := by
  rw [List.mem_flatMap]
  constructor
  · rintro ⟨char, hchar, hmem⟩
    rwa [← h.eq_of_mem char hmem]
  · intro hmem
    exact ⟨separator, hmem, by rw [h.kept]; exact List.mem_singleton_self separator⟩

/-- The pieces are written anew. -/
theorem splitChars_flatMap (chars : List Char) :
    splitChars separator (chars.flatMap rewrite) =
      (splitChars separator chars).map (List.flatMap rewrite) := by
  induction chars with
  | nil => rfl
  | cons char rest ih =>
      rw [List.flatMap_cons]
      by_cases hchar : char = separator
      · subst hchar
        rw [h.kept, List.singleton_append, splitChars, splitChars, ih, beq_self_eq_true]
        rfl
      · rw [splitChars_append_of_not_mem (fun hmem => hchar (h.eq_of_mem char hmem)), ih,
          splitChars_cons_of_ne hchar]
        cases splitChars separator rest <;> rfl

theorem splitOn_rewritten (text : String) :
    splitOn separator (rewritten rewrite text) =
      (splitOn separator text).map (rewritten rewrite) := by
  rw [splitOn, splitOn, toList_rewritten, h.splitChars_flatMap, List.map_map, List.map_map]
  refine List.map_congr_left fun piece _ => ?_
  exact (rewritten_ofList rewrite piece).symm

end Keeps

/-- A text without the separator is not cut. -/
theorem cutLast?_of_not_mem {text : String} (h : separator ∉ text.toList) :
    cutLast? separator text = none := by
  have hall : text.toList.reverse.takeWhile (· != separator) = text.toList.reverse := by
    refine List.takeWhile_eq_self_iff.2 fun char hchar => ?_
    exact bne_iff_ne.2 (ne_of_mem_of_not_mem (List.mem_reverse.1 hchar) h)
  simp only [cutLast?, hall, List.drop_length]

/-- A text is cut where no further separator follows. -/
theorem cutLast?_append {before after : List Char} (h : separator ∉ after) :
    cutLast? separator (String.ofList (before ++ separator :: after)) =
      some (String.ofList before, String.ofList after) := by
  have hreverse : (String.ofList (before ++ separator :: after)).toList.reverse =
      after.reverse ++ separator :: before.reverse := by
    simp
  have hafter : (after.reverse ++ separator :: before.reverse).takeWhile (· != separator) =
      after.reverse := by
    rw [List.takeWhile_append_of_pos, List.takeWhile_cons_of_neg (by simp), List.append_nil]
    exact fun char hchar => bne_iff_ne.2 (ne_of_mem_of_not_mem (List.mem_reverse.1 hchar) h)
  simp only [cutLast?, hreverse, hafter, List.drop_left, List.reverse_reverse]

theorem exists_last_separator {chars : List Char} (h : separator ∈ chars) :
    ∃ before after, chars = before ++ separator :: after ∧ separator ∉ after := by
  obtain ⟨after, before, heq, hafter⟩ := List.eq_append_cons_of_mem (List.mem_reverse.2 h)
  refine ⟨before.reverse, after.reverse, ?_, by simpa using hafter⟩
  rw [← List.reverse_reverse chars, heq]
  simp

/-- A text that is written anew is cut at the same separator. -/
theorem Keeps.cutLast?_rewritten (h : Keeps rewrite separator) (text : String) :
    cutLast? separator (rewritten rewrite text) =
      (cutLast? separator text).map fun (before, after) =>
        (rewritten rewrite before, rewritten rewrite after) := by
  by_cases hmem : separator ∈ text.toList
  · obtain ⟨before, after, htext, hafter⟩ := exists_last_separator hmem
    rw [← String.ofList_toList (s := text), htext, rewritten_ofList, cutLast?_append hafter,
      List.flatMap_append, List.flatMap_cons, h.kept, List.singleton_append,
      cutLast?_append (mt h.mem_flatMap_iff.1 hafter)]
    simp only [Option.map_some, rewritten_ofList]
  · rw [cutLast?_of_not_mem hmem, cutLast?_of_not_mem]
    · rfl
    · rwa [toList_rewritten, h.mem_flatMap_iff]

end Text

namespace Path

open Text (Keeps rewritten)

/-- The last segment is the file name, unless it leads to the parent directory. -/
theorem fileName?_eq (path : String) :
    fileName? path =
      if (segments path).getLast? = some ".." then none else (segments path).getLast? := by
  unfold fileName?
  split
  · rename_i hparent
    rw [if_pos hparent]
  · rename_i hother
    rw [if_neg hother]

/-- The stem goes up to the last period, if one stands behind the first character. -/
theorem fst_splitName (name : String) :
    (splitName name).1 =
      (Text.cutLast? '.' name).elim name fun cut => if cut.1 = "" then name else cut.1 := by
  unfold splitName
  split
  · rename_i hcut
    rw [hcut, Option.elim_none]
  · rename_i hcut
    rw [hcut, Option.elim_some, if_pos rfl]
  · rename_i hne hcut
    rw [hcut, Option.elim_some, if_neg hne]

/-- Slashes and periods are written as they are, and no other characters with them. -/
structure KeepsMarks (rewrite : Char → List Char) : Prop where
  slash : Keeps rewrite '/'
  period : Keeps rewrite '.'
  ne_nil : ∀ char, rewrite char ≠ []

namespace KeepsMarks

variable {rewrite : Char → List Char} (h : KeepsMarks rewrite)

include h

theorem rewritten_eq_empty_iff (text : String) : rewritten rewrite text = "" ↔ text = "" := by
  rw [← String.toList_inj, ← String.toList_inj, Text.toList_rewritten]
  refine ⟨fun hempty => ?_, fun hempty => by rw [hempty]; rfl⟩
  rw [String.toList_empty, List.flatMap_eq_nil_iff] at hempty
  exact List.eq_nil_iff_forall_not_mem.2 fun char hchar => h.ne_nil char (hempty char hchar)

/-- Periods alone are written for periods alone. -/
theorem rewritten_eq_periods_iff (count : Nat) (text : String) :
    rewritten rewrite text = String.ofList (List.replicate count '.') ↔
      text = String.ofList (List.replicate count '.') := by
  have hperiods : ∀ count, (List.replicate count '.').flatMap rewrite =
      List.replicate count '.' := by
    intro count
    rw [List.flatMap_replicate, h.period.kept]
    simp
  rw [← String.toList_inj, ← String.toList_inj, Text.toList_rewritten, String.toList_ofList]
  refine ⟨fun heq => ?_, fun heq => by rw [heq, hperiods]⟩
  have hall : ∀ char ∈ text.toList, char = '.' := by
    intro char hchar
    obtain ⟨other, hother⟩ := List.exists_mem_of_ne_nil _ (h.ne_nil char)
    have hperiod : other ∈ List.replicate count '.' :=
      heq ▸ List.mem_flatMap.2 ⟨char, hchar, hother⟩
    rw [List.eq_of_mem_replicate hperiod] at hother
    exact h.period.eq_of_mem char hother
  have htext := List.eq_replicate_of_mem hall
  rw [htext, hperiods] at heq
  rw [htext, heq]

theorem segments_rewritten (path : String) :
    segments (rewritten rewrite path) = (segments path).map (rewritten rewrite) := by
  rw [segments, segments, h.slash.splitOn_rewritten, List.filter_map]
  refine congrArg _ (List.filter_congr fun segment _ => ?_)
  have hempty := h.rewritten_eq_empty_iff segment
  have hhere : rewritten rewrite segment = "." ↔ segment = "." :=
    h.rewritten_eq_periods_iff 1 segment
  simp only [Function.comp_def, bne, Bool.beq_eq_decide_eq, hempty, hhere]

/-- The file name of a path that is written anew. -/
theorem fileName?_rewritten (path : String) :
    fileName? (rewritten rewrite path) = (fileName? path).map (rewritten rewrite) := by
  have hparent : (segments path).getLast?.map (rewritten rewrite) = some ".." ↔
      (segments path).getLast? = some ".." := by
    cases (segments path).getLast? with
    | none => simp
    | some name => simpa using h.rewritten_eq_periods_iff 2 name
  rw [fileName?_eq, fileName?_eq, h.segments_rewritten, List.getLast?_map]
  simp only [hparent]
  split <;> rfl

theorem fst_splitName_rewritten (name : String) :
    (splitName (rewritten rewrite name)).1 = rewritten rewrite (splitName name).1 := by
  rw [fst_splitName, fst_splitName, h.period.cutLast?_rewritten]
  cases Text.cutLast? '.' name with
  | none => rfl
  | some cut =>
      simp only [Option.map_some, Option.elim_some, h.rewritten_eq_empty_iff]
      split <;> rfl

/-- The stem of a path that is written anew. -/
theorem ofPath_rewritten (path : String) :
    UnitName.ofPath (rewritten rewrite path) = rewritten rewrite (UnitName.ofPath path) := by
  rw [UnitName.ofPath, UnitName.ofPath, stem?, stem?, h.fileName?_rewritten]
  cases fileName? path with
  | none => rfl
  | some name => exact h.fst_splitName_rewritten name

end KeepsMarks

end Path

end PascalUnits
