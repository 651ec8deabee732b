import PascalUnits.Index.Findings
import PascalUnits.Proofs.NameTable
import PascalUnits.Proofs.Text.Latin

/-!
# The name in an include directive

`Source.directives name` are the two directives that include the file `name`. A scan shows them byte
by byte. They are recognised, and what is taken for the name of the file is `name` as it is shown
(`Source.includeName_shown`). So the file is looked up by the stem of its name as that is shown,
which has the key of the stem if and only if the stem is in ASCII (`Source.key_shown_eq_iff`).
-/

namespace PascalUnits

namespace Text

variable {strip : Char → Bool}

/-- Taken off are the characters around a text that itself neither begins nor ends with such. -/
theorem trim_append {front chars back : List Char} (hfront : ∀ char ∈ front, strip char)
    (hback : ∀ char ∈ back, strip char) (hne : chars ≠ [])
    (hhead : ∀ char, chars.head? = some char → strip char = false)
    (hlast : ∀ char, chars.getLast? = some char → strip char = false) :
    trim strip (String.ofList (front ++ chars ++ back)) = String.ofList chars := by
  have hdrop : ∀ {around inside others : List Char}, (∀ char ∈ around, strip char) → inside ≠ [] →
      (∀ char, inside.head? = some char → strip char = false) →
      (around ++ (inside ++ others)).dropWhile strip = inside ++ others := by
    intro around inside others haround hinside hfirst
    obtain ⟨char, inside, rfl⟩ := List.exists_cons_of_ne_nil hinside
    rw [List.dropWhile_append_of_pos haround, List.cons_append,
      List.dropWhile_cons_of_neg (by simp [hfirst char rfl])]
  rw [trim, String.toList_ofList, List.append_assoc, hdrop hfront hne hhead, List.reverse_append,
    ← List.append_nil chars.reverse, hdrop (by simpa using hback) (by simpa using hne),
    List.append_nil, List.reverse_reverse]
  intro char hchar
  exact hlast char (by simpa using hchar)

end Text

namespace Source

/-- A name that can be written in a directive: it has no right brace, and neither begins nor ends
with a character that may surround a name. -/
structure Writable (name : String) : Prop where
  ne_empty : name ≠ ""
  no_brace : '\x7d' ∉ name.toList
  head : ∀ char, name.toList.head? = some char → surroundsName char = false
  last : ∀ char, name.toList.getLast? = some char → surroundsName char = false

/-- The directives that include a file, with its name as it is or between quotes. -/
def directives (name : String) : List String :=
  ["\x7b$I " ++ name ++ "\x7d", "\x7b$INCLUDE \x27" ++ name ++ "\x27\x7d"]

variable {name text : String}

/-- In UTF-8 both directives end with their only right brace. -/
theorem ofText_directive (hname : '\x7d' ∉ name.toList) (h : text ∈ directives name) :
    ∃ inside, Bytes.ofText text =
        Byte.leftBrace :: Byte.dollar :: (inside ++ [Byte.rightBrace]) ∧
      Byte.rightBrace ∉ inside := by
  obtain ⟨inside, rfl, hinside⟩ : ∃ inside, text = "\x7b$" ++ inside ++ "\x7d" ∧
      '\x7d' ∉ inside.toList := by
    simp only [directives, List.mem_cons, List.not_mem_nil, or_false] at h
    rcases h with rfl | rfl
    · refine ⟨"I " ++ name, ?_, ?_⟩
      · simp only [← String.toList_inj, String.toList_append, List.append_assoc]
        rfl
      · rw [String.toList_append]
        exact List.not_mem_append (by decide) hname
    · refine ⟨"INCLUDE \x27" ++ name ++ "\x27", ?_, ?_⟩
      · simp only [← String.toList_inj, String.toList_append, List.append_assoc]
        rfl
      · rw [String.toList_append, String.toList_append]
        exact List.not_mem_append (List.not_mem_append (by decide) hname) (by decide)
  refine ⟨Bytes.ofText inside, ?_, mt (Text.mem_toList_of_mem_ofText (by decide)) hinside⟩
  have hopen : Bytes.ofText "\x7b$" = [Byte.leftBrace, Byte.dollar] := by decide +kernel
  have hclose : Bytes.ofText "\x7d" = [Byte.rightBrace] := by decide +kernel
  rw [Bytes.ofText_append, Bytes.ofText_append, hopen, hclose]
  rfl

theorem isInclude_append {keyword : String} (rest : String)
    (h : "\x7b$i ".toList <+: (Text.lower keyword).toList ∨
      "\x7b$include ".toList <+: (Text.lower keyword).toList) : isInclude (keyword ++ rest) := by
  have hprefix : (Text.lower keyword).toList <+: (Text.lower (keyword ++ rest)).toList := by
    rw [Text.lower, Text.lower, String.toList_ofList, String.toList_ofList, String.toList_append,
      List.map_append]
    exact List.prefix_append _ _
  rw [isInclude, Bool.or_eq_true, List.isPrefixOf_iff_prefix, List.isPrefixOf_iff_prefix]
  exact h.imp (·.trans hprefix) (·.trans hprefix)

/-- Both directives are recognised. -/
theorem isInclude_shown (h : text ∈ directives name) : isInclude (Text.shown text) := by
  simp only [directives, List.mem_cons, List.not_mem_nil, or_false] at h
  rcases h with rfl | rfl
  · rw [Text.shown_append, Text.shown_append, Text.shown_of_isAscii (by decide),
      String.append_assoc]
    exact isInclude_append _ (.inl (by decide))
  · rw [Text.shown_append, Text.shown_append, Text.shown_of_isAscii (by decide),
      String.append_assoc]
    exact isInclude_append _ (.inr (by decide))

/-- A character at either end of a name that is shown surrounds no name. -/
theorem surroundsName_of_mem_shownChar {char other : Char} (h : surroundsName char = false)
    (hother : other ∈ Text.shownChar char) : surroundsName other = false := by
  by_cases hchar : char.toNat < 0x80
  · rw [Text.shownChar_of_lt hchar, List.mem_singleton] at hother
    rwa [hother]
  · have hge := (Text.shownChar_of_ge (Nat.le_of_not_lt hchar)).2 other hother
    rw [surroundsName]
    simp only [Bool.or_eq_false_iff, beq_eq_false_iff_ne]
    refine ⟨⟨⟨⟨?_, ?_⟩, ?_⟩, ?_⟩, ?_⟩ <;> rintro rfl <;> exact absurd hge (by decide)

/-- The name stands behind a keyword and the first space, with characters around it that may
surround a name. -/
theorem includeName_append (hname : Writable name) (keyword front back : String)
    (hkeyword : ' ' ∉ keyword.toList) (hspace : front.toList.head? = some ' ')
    (hfront : front.toList.all surroundsName) (hback : back.toList.all surroundsName) :
    includeName (keyword ++ front ++ Text.shown name ++ back) = Text.shown name := by
  have hdrop : (keyword ++ front ++ Text.shown name ++ back).toList.dropWhile (· != ' ') =
      front.toList ++ (Text.shown name).toList ++ back.toList := by
    obtain ⟨rest, hrest⟩ := List.head?_eq_some_iff.1 hspace
    simp only [String.toList_append, List.append_assoc, hrest]
    rw [List.dropWhile_append_of_pos, List.cons_append, List.dropWhile_cons_of_neg (by simp)]
    exact fun char hchar => bne_iff_ne.2 (ne_of_mem_of_not_mem hchar hkeyword)
  rw [includeName, hdrop, Text.trim_append (List.all_eq_true.1 hfront) (List.all_eq_true.1 hback),
    String.ofList_toList]
  · rw [Text.shown_eq_rewritten]
    intro hnil
    exact hname.ne_empty ((Text.keepsMarks_shownChar.rewritten_eq_empty_iff name).1
      (String.toList_inj.1 hnil))
  · intro char hchar
    rw [Text.toList_shown] at hchar
    cases hchars : name.toList with
    | nil =>
        rw [hchars] at hchar
        cases hchar
    | cons first rest =>
        rw [hchars, List.flatMap_cons, List.head?_append_of_ne_nil _ (Text.shownChar_ne_nil first)]
          at hchar
        exact surroundsName_of_mem_shownChar (hname.head first (by rw [hchars]; rfl))
          (List.mem_of_head? hchar)
  · intro char hchar
    rw [Text.toList_shown] at hchar
    rcases List.eq_nil_or_concat' name.toList with hchars | ⟨rest, last, hchars⟩
    · rw [hchars] at hchar
      cases hchar
    · rw [hchars, List.flatMap_append, List.flatMap_singleton,
        List.getLast?_append_of_ne_nil _ (Text.shownChar_ne_nil last)] at hchar
      exact surroundsName_of_mem_shownChar (hname.last last (by rw [hchars, List.getLast?_concat]))
        (List.mem_of_getLast? hchar)

/-- What is taken for the name of the file is the name as it is shown. -/
theorem includeName_shown (hname : Writable name) (h : text ∈ directives name) :
    includeName (Text.shown text) = Text.shown name := by
  simp only [directives, List.mem_cons, List.not_mem_nil, or_false] at h
  rcases h with rfl | rfl
  · have hopen : Text.shown "\x7b$I " = "\x7b$I" ++ " " := Text.shown_of_isAscii (by decide)
    have hclose : Text.shown "\x7d" = "\x7d" := Text.shown_of_isAscii (by decide)
    rw [Text.shown_append, Text.shown_append, hopen, hclose]
    exact includeName_append hname _ _ _ (by decide) (by decide) (by decide) (by decide)
  · have hopen : Text.shown "\x7b$INCLUDE \x27" = "\x7b$INCLUDE" ++ " \x27" :=
      Text.shown_of_isAscii (by decide)
    have hclose : Text.shown "\x27\x7d" = "\x27\x7d" := Text.shown_of_isAscii (by decide)
    rw [Text.shown_append, Text.shown_append, hopen, hclose]
    exact includeName_append hname _ _ _ (by decide) (by decide) (by decide) (by decide)

/-- A text that is shown has its key if and only if it is in ASCII. -/
theorem key_shown_eq_iff (text : String) :
    UnitName.key (Text.shown text) = UnitName.key text ↔ Text.isAscii text := by
  have hlength : ∀ text, (UnitName.key text).length = text.length := by
    intro text
    rw [UnitName.key, Text.lower, String.length_ofList, List.length_map, String.length_toList]
  refine ⟨fun hkey => Text.length_shown_eq_iff.1 ?_, fun h => by rw [Text.shown_of_isAscii h]⟩
  rw [← hlength, hkey, hlength]

end Source

end PascalUnits
