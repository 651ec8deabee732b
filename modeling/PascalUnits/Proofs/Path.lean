import PascalUnits.FileTree
import PascalUnits.Settings

/-!
# The file name at the end of a path

A path to an entry of a directory ends with the name of the entry, however the directory is written:
`fileName?_path` is about absolute paths and `fileName?_foldl_join` about the paths of a walk.
What a file is taken for depends on its name alone (`hasExtension_congr`).
-/

namespace PascalUnits

namespace Text

variable {separator : Char} {chars : List Char}

theorem splitChars_ne_nil (separator : Char) (chars : List Char) :
    splitChars separator chars ≠ [] := by
  cases chars with
  | nil => simp [splitChars]
  | cons char rest =>
      rw [splitChars]
      split <;> simp

/-- A text without separators is one piece. -/
theorem splitChars_of_not_mem (h : separator ∉ chars) : splitChars separator chars = [chars] := by
  induction chars with
  | nil => rfl
  | cons char rest ih =>
      rw [List.mem_cons, not_or] at h
      obtain ⟨hchar, hrest⟩ := h
      have hne : (char == separator) = false := beq_eq_false_iff_ne.2 (Ne.symm hchar)
      rw [splitChars, ih hrest, hne]

/-- The pieces on both sides of a separator are those of a text. -/
theorem splitChars_append (first second : List Char) :
    splitChars separator (first ++ separator :: second) =
      splitChars separator first ++ splitChars separator second := by
  induction first with
  | nil => simp [splitChars]
  | cons char rest ih =>
      rw [List.cons_append, splitChars, splitChars, ih]
      cases hpieces : splitChars separator rest with
      | nil => exact absurd hpieces (splitChars_ne_nil _ _)
      | cons piece pieces => cases char == separator <;> rfl

/-- What follows the last separator belongs to the last piece. -/
theorem splitChars_append_suffix {rest : List Char} (h : separator ∉ rest) (front : List Char) :
    ∃ earlier piece, splitChars separator (front ++ rest) = earlier ++ [piece ++ rest] := by
  induction front with
  | nil => exact ⟨[], [], splitChars_of_not_mem h⟩
  | cons char front ih =>
      obtain ⟨earlier, piece, hpieces⟩ := ih
      rw [List.cons_append, splitChars, hpieces]
      cases char == separator with
      | true => exact ⟨[] :: earlier, piece, rfl⟩
      | false =>
          cases earlier with
          | nil => exact ⟨[], char :: piece, rfl⟩
          | cons first earlier => exact ⟨(char :: first) :: earlier, piece, rfl⟩

/-- No piece holds a separator. -/
theorem not_mem_of_mem_splitChars {piece : List Char} (h : piece ∈ splitChars separator chars) :
    separator ∉ piece := by
  induction chars generalizing piece with
  | nil =>
      rw [splitChars, List.mem_singleton] at h
      subst h
      exact List.not_mem_nil
  | cons char rest ih =>
      rw [splitChars] at h
      cases hchar : char == separator with
      | true =>
          simp only [hchar] at h
          rcases List.mem_cons.1 h with rfl | hrest
          · exact List.not_mem_nil
          · exact ih hrest
      | false =>
          cases hpieces : splitChars separator rest with
          | nil => exact absurd hpieces (splitChars_ne_nil _ _)
          | cons first pieces =>
              simp only [hchar, hpieces] at h
              rw [hpieces] at ih
              rcases List.mem_cons.1 h with rfl | hrest
              · rw [List.mem_cons, not_or]
                exact ⟨(beq_eq_false_iff_ne.1 hchar).symm, ih List.mem_cons_self⟩
              · exact ih (List.mem_cons_of_mem first hrest)

end Text

namespace Path

/-- What the name of a directory's entry is: a segment of a path with a meaning of its own. -/
structure IsEntryName (name : String) : Prop where
  ne_empty : name ≠ ""
  ne_here : name ≠ "."
  ne_parent : name ≠ ".."
  no_slash : '/' ∉ name.toList

instance (name : String) : Decidable (IsEntryName name) :=
  decidable_of_iff (name ≠ "" ∧ name ≠ "." ∧ name ≠ ".." ∧ '/' ∉ name.toList)
    ⟨fun ⟨h, h', h'', h'''⟩ => ⟨h, h', h'', h'''⟩, fun ⟨h, h', h'', h'''⟩ => ⟨h, h', h'', h'''⟩⟩

variable {base name path other : String}

theorem endsWithSlash_append (base : String) : endsWithSlash (base ++ "/") := by
  rw [endsWithSlash, String.toList_append, show "/".toList = ['/'] from rfl, List.getLast?_concat]
  rfl

/-- The file name is the last piece of a path, if that is the name of an entry. -/
theorem fileName?_of_splitOn {last : String} {earlier : List String}
    (h : Text.splitOn '/' path = earlier ++ [last]) (hempty : last ≠ "") (hhere : last ≠ ".") :
    fileName? path = if last = ".." then none else some last := by
  have hsegments : segments path =
      (earlier.filter fun segment => segment != "" && segment != ".") ++ [last] := by
    rw [segments, h, List.filter_append, List.filter_cons_of_pos (by simp [hempty, hhere]),
      List.filter_nil]
  rw [fileName?, hsegments, List.getLast?_concat]
  split
  · rename_i hparent
    rw [if_pos (Option.some.inj hparent)]
  · rename_i hother
    rw [if_neg fun hparent => hother (congrArg some hparent)]

/-- A name is the last piece behind a slash. -/
theorem splitOn_append (hname : IsEntryName name) (hbase : base = "" ∨ endsWithSlash base) :
    ∃ earlier, Text.splitOn '/' (base ++ name) = earlier ++ [name] := by
  have hpiece : Text.splitChars '/' name.toList = [name.toList] :=
    Text.splitChars_of_not_mem hname.no_slash
  rcases hbase with rfl | hslash
  · exact ⟨[], by simp [Text.splitOn, hpiece]⟩
  · obtain ⟨front, hfront⟩ : ∃ front, base.toList = front ++ ['/'] :=
      List.getLast?_eq_some_iff.1 (beq_iff_eq.1 hslash)
    refine ⟨Text.splitOn '/' (String.ofList front), ?_⟩
    rw [Text.splitOn, String.toList_append, hfront, List.append_assoc, List.singleton_append,
      Text.splitChars_append, hpiece]
    simp [Text.splitOn]

/-- A path that ends with a name behind a slash has it for its file name. -/
theorem fileName?_append (hname : IsEntryName name) (hbase : base = "" ∨ endsWithSlash base) :
    fileName? (base ++ name) = some name := by
  obtain ⟨earlier, hpieces⟩ := splitOn_append hname hbase
  rw [fileName?_of_splitOn hpieces hname.ne_empty hname.ne_here, if_neg hname.ne_parent]

/-- File names hold no slashes. -/
theorem not_mem_fileName (h : fileName? path = some name) :
    '/' ∉ name.toList := by
  have hlast : (segments path).getLast? = some name := by
    rw [fileName?] at h
    split at h
    · cases h
    · exact h
  obtain ⟨piece, hpiece, rfl⟩ :=
    List.mem_map.1 (List.mem_filter.1 (List.mem_of_getLast? hlast)).1
  rw [String.toList_ofList]
  exact Text.not_mem_of_mem_splitChars hpiece

/-- The path of an entry seen from its directory is its name behind a slash. -/
theorem exists_join_eq (base : String) (hname : IsEntryName name) :
    ∃ front, join base name = front ++ name ∧ (front = "" ∨ endsWithSlash front) := by
  have habsolute : isAbsolute name = false := by
    rw [isAbsolute, beq_eq_false_iff_ne]
    exact fun hhead => hname.no_slash (List.mem_of_head? hhead)
  rw [join, habsolute, if_neg Bool.false_ne_true]
  split
  · rename_i hbase
    rw [Bool.or_eq_true, String.isEmpty_iff] at hbase
    exact ⟨base, rfl, hbase⟩
  · exact ⟨base ++ "/", rfl, .inr (endsWithSlash_append base)⟩

/-- It ends with the name of the entry. -/
theorem fileName?_join (base : String) (hname : IsEntryName name) :
    fileName? (join base name) = some name := by
  obtain ⟨front, hjoin, hfront⟩ := exists_join_eq base hname
  rw [hjoin]
  exact fileName?_append hname hfront

/-- It has a parent, however the directory is written. -/
theorem exists_parent?_join (base : String) (hname : IsEntryName name) :
    ∃ parent, parent? (join base name) = some parent := by
  obtain ⟨front, hjoin, hfront⟩ := exists_join_eq base hname
  obtain ⟨earlier, hpieces⟩ := splitOn_append hname hfront
  rw [hjoin, parent?, hpieces, List.reverse_append, List.reverse_singleton, List.singleton_append]
  cases earlier.reverse with
  | nil => exact ⟨"", if_neg hname.ne_empty⟩
  | cons piece rest =>
      have hvoid : ¬(name = "" ∨ name = ".") := not_or.2 ⟨hname.ne_empty, hname.ne_here⟩
      rw [dropVoid, if_neg hvoid]
      dsimp only
      split
      · exact ⟨_, rfl⟩
      · exact ⟨_, rfl⟩

/-- So does the path by which a walk meets a file. -/
theorem fileName?_foldl_join (root : String) (earlier : List String) (hname : IsEntryName name) :
    fileName? ((earlier ++ [name]).foldl join root) = some name := by
  rw [List.foldl_append]
  exact fileName?_join _ hname

/-- So does the absolute path to a file. -/
theorem fileName?_path (earlier : Location) (hname : IsEntryName name) :
    fileName? (Location.path (earlier ++ [name])) = some name := by
  rw [Location.path]
  by_cases hearlier : earlier = []
  · rw [hearlier, List.nil_append, String.intercalate_singleton]
    exact fileName?_append hname (.inr (by decide))
  · rw [String.intercalate_append_of_ne_nil hearlier (List.cons_ne_nil _ _),
      String.intercalate_singleton, ← String.append_assoc, ← String.append_assoc]
    exact fileName?_append hname (.inr (endsWithSlash_append _))

/-- What a file is taken for depends on its name. -/
theorem hasExtension_congr (h : fileName? path = fileName? other) (extensions : List String) :
    hasExtension path extensions = hasExtension other extensions := by
  rw [hasExtension, hasExtension, extension?, extension?, h]

end Path

end PascalUnits
