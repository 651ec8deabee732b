import Mathlib.Data.List.DropRight
import PascalUnits.Proofs.Source.LineTable

/-!
# Places in a source

`placeIn` says at which line and column an offset of a source stands, without a line table. No two
offsets stand in one place (`eq_of_placeIn`). A file `Knows` the lines of a source up to some offset
if they are what its table lists. Reading on in the source makes it know more of them
(`Knows.addLines`), and up to that offset its places are the right ones (`Knows.locate_eq`).
-/

namespace PascalUnits

/-- A line ends with the byte at `index`, and another one follows: that byte is a line feed, and it
is not the last byte. -/
def EndsLine (source : Bytes) (index : Nat) : Prop :=
  index + 1 < source.length ∧ source[index]? = some Byte.lineFeed

instance (source : Bytes) (index : Nat) : Decidable (EndsLine source index) :=
  inferInstanceAs (Decidable (_ ∧ _))

/-- The offsets at which the lines of a source begin, those behind `reach` left out. -/
def lineStarts (source : Bytes) (reach : Nat) : List Nat :=
  0 :: ((List.range reach).filter (EndsLine source ·)).map (· + 1)

/-- The text up to an offset. A line feed at the very end belongs to the line that it ends, and so
does the end of the text behind it. -/
def textBefore (source : Bytes) (offset : Nat) : Bytes :=
  if offset = source.length ∧ source.getLast? = some Byte.lineFeed then source.dropLast
  else source.take offset

/-- The line and the column of an offset: one more than the line feeds before it, and one more than
its distance from the last of them. -/
def placeIn (name : String) (source : Bytes) (offset : Nat) : Position :=
  { filename := name
    offset
    line := 1 + (textBefore source offset).count Byte.lineFeed
    column := 1 + offset - ((textBefore source offset).rdropWhile (· != Byte.lineFeed)).length }

variable {source text rest : Bytes} {name : String} {base offset reach : Nat} {file : SourceFile}

/-- A line begins behind the byte that ends one. -/
theorem lineStarts_succ (source : Bytes) (reach : Nat) :
    lineStarts source (reach + 1) =
      lineStarts source reach ++ if EndsLine source reach then [reach + 1] else [] := by
  rw [lineStarts, List.range_succ, List.filter_append, List.map_append]
  by_cases h : EndsLine source reach <;> simp [lineStarts, h]

/-- No line begins behind the offset up to which they are listed. -/
theorem le_of_mem_lineStarts {start : Nat} (h : start ∈ lineStarts source reach) :
    start ≤ reach := by
  rcases List.mem_cons.1 h with rfl | hlater
  · exact Nat.zero_le _
  · obtain ⟨index, hindex, rfl⟩ := List.mem_map.1 hlater
    exact List.mem_range.1 (List.mem_filter.1 hindex).1

/-- The lines up to one offset are the first ones of those up to a later one. -/
theorem lineStarts_prefix (source : Bytes) (h : offset ≤ reach) :
    lineStarts source offset <+: lineStarts source reach := by
  induction h with
  | refl => exact List.prefix_rfl
  | step _ ih =>
      rw [lineStarts_succ]
      exact ih.trans (List.prefix_append _ _)

/-- No line begins at the end of a source or behind it. -/
theorem lineStarts_of_length_le (h : source.length ≤ reach) :
    lineStarts source reach = lineStarts source source.length := by
  induction h with
  | refl => rfl
  | @step reach hle ih =>
      have hlast : ¬EndsLine source reach := fun hends =>
        Nat.lt_asymm (Nat.lt_succ_of_le hle) hends.1
      rw [lineStarts_succ, if_neg hlast, List.append_nil, ih]

/-- Wherever they are cut off, the lines are the first ones of all. -/
theorem lineStarts_prefix_length (source : Bytes) (reach : Nat) :
    lineStarts source reach <+: lineStarts source source.length := by
  rcases Nat.le_total reach source.length with hle | hle
  · exact lineStarts_prefix source hle
  · exact ⟨[], (List.append_nil _).trans (lineStarts_of_length_le hle)⟩

/-- The last line that is listed begins at or before the offset up to which they are. -/
theorem headD_lineStarts_le (source : Bytes) (reach : Nat) :
    (lineStarts source reach).reverse.headD 0 ≤ reach := by
  cases hlines : (lineStarts source reach).reverse with
  | nil => exact Nat.zero_le _
  | cons start earlier =>
      refine @le_of_mem_lineStarts source reach start ?_
      rw [← List.mem_reverse, hlines]
      exact List.mem_cons_self

/-- The last line does not begin before any other. -/
theorem lt_headD_lineStarts (hends : EndsLine source offset) (h : offset < reach) :
    offset < (lineStarts source reach).reverse.headD 0 := by
  induction h with
  | refl =>
      rw [lineStarts_succ, if_pos hends, List.reverse_append]
      exact Nat.lt_succ_self _
  | @step reach hle ih =>
      rw [lineStarts_succ, List.reverse_append]
      split
      · exact Nat.lt_succ_of_lt hle
      · exact ih

/-- Leaving out the lines behind an offset from the end leaves those up to it. -/
theorem dropWhile_lineStarts (source : Bytes) (h : offset ≤ reach) :
    (lineStarts source reach).reverse.dropWhile (offset < ·) =
      (lineStarts source offset).reverse := by
  induction h with
  | refl =>
      cases hlines : (lineStarts source offset).reverse with
      | nil => rfl
      | cons start earlier =>
          have hle := headD_lineStarts_le source offset
          rw [hlines] at hle
          exact List.dropWhile_cons_of_neg (by simpa using hle)
  | @step reach hle ih =>
      rw [lineStarts_succ, List.reverse_append]
      split
      · rw [List.reverse_singleton, List.singleton_append, List.dropWhile_cons_of_pos, ih]
        simpa using Nat.lt_succ_of_le hle
      · exact ih

/-- Up to an offset there is one line feed more for each line but the first one, and the last line
begins behind the last of them. -/
theorem lineStarts_textBefore (h : offset ≤ source.length) :
    (lineStarts source offset).length = 1 + (textBefore source offset).count Byte.lineFeed ∧
      (lineStarts source offset).reverse.head? =
        some ((textBefore source offset).rdropWhile (· != Byte.lineFeed)).length := by
  induction offset with
  | zero =>
      have hbefore : textBefore source 0 = [] := by
        unfold textBefore
        split
        · rename_i hempty
          rw [List.length_eq_zero_iff.1 hempty.1.symm]
          rfl
        · exact List.take_zero
      rw [hbefore]
      exact ⟨rfl, rfl⟩
  | succ offset ih =>
      obtain ⟨hcount, hhead⟩ := ih (by omega)
      have hbefore : textBefore source offset = source.take offset :=
        if_neg fun hend => by omega
      rw [hbefore] at hcount hhead
      have htake : source.take (offset + 1) = source.take offset ++ [source[offset]] := by
        rw [List.take_add_one, List.getElem?_eq_getElem h]
        rfl
      have hfeed : source[offset]? = some Byte.lineFeed ↔ source[offset] = Byte.lineFeed := by
        rw [List.getElem?_eq_getElem h, Option.some.injEq]
      rw [lineStarts_succ]
      by_cases hends : EndsLine source offset
      · have hbyte : source[offset] = Byte.lineFeed := hfeed.1 hends.2
        have hafter : textBefore source (offset + 1) = source.take offset ++ [Byte.lineFeed] := by
          rw [textBefore, if_neg fun hend => absurd hends.1 (by omega), htake, hbyte]
        rw [if_pos hends, hafter]
        refine ⟨?_, ?_⟩
        · rw [List.length_append, hcount, List.count_append]
          rfl
        · rw [List.rdropWhile_concat_neg _ _ _ (by simp), List.reverse_append]
          simp [List.length_take_of_le (Nat.le_of_lt h)]
      · rw [if_neg hends, List.append_nil, hcount, hhead]
        by_cases hbyte : source[offset] = Byte.lineFeed
        · -- the last line feed ends the last line, and no line follows
          have hend : offset + 1 = source.length := by
            have : ¬offset + 1 < source.length := fun hlt => hends ⟨hlt, hfeed.2 hbyte⟩
            omega
          have hlast : source.getLast? = some Byte.lineFeed := by
            rw [List.getLast?_eq_getElem?, ← hend]
            exact hfeed.2 hbyte
          have hafter : textBefore source (offset + 1) = source.take offset := by
            rw [textBefore, if_pos ⟨hend, hlast⟩, List.dropLast_eq_take, ← hend]
            rfl
          rw [hafter]
          exact ⟨rfl, rfl⟩
        · have hafter :
              textBefore source (offset + 1) = source.take offset ++ [source[offset]] := by
            rw [textBefore, if_neg, htake]
            rintro ⟨hend, hlast⟩
            rw [List.getLast?_eq_getElem?, ← hend] at hlast
            exact hbyte (hfeed.1 hlast)
          rw [hafter]
          refine ⟨?_, ?_⟩
          · rw [List.count_append, List.count_singleton, if_neg (by simpa using hbyte)]
            rfl
          · rw [List.rdropWhile_concat_pos _ _ _ (by simpa using hbyte)]

/-- The last line feed before an offset is before it. -/
theorem lineBegin_le (h : offset ≤ source.length) :
    ((textBefore source offset).rdropWhile (· != Byte.lineFeed)).length ≤ offset := by
  have hlast := headD_lineStarts_le source offset
  rwa [List.headD_eq_head?_getD, (lineStarts_textBefore h).2] at hlast

/-- Line and column tell the offset. -/
theorem eq_of_placeIn {other : Nat} (hoffset : offset ≤ source.length)
    (hother : other ≤ source.length)
    (hline : (placeIn name source offset).line = (placeIn name source other).line)
    (hcolumn : (placeIn name source offset).column = (placeIn name source other).column) :
    offset = other := by
  wlog hle : offset ≤ other generalizing offset other
  · exact (this hother hoffset hline.symm hcolumn.symm (Nat.le_of_not_le hle)).symm
  obtain ⟨hcount, hhead⟩ := lineStarts_textBefore hoffset
  obtain ⟨hcount', hhead'⟩ := lineStarts_textBefore hother
  -- no line begins between the two, so they are in one line
  have hstarts := lineStarts_prefix source hle
  have hlines : lineStarts source offset = lineStarts source other :=
    hstarts.eq_of_length (hcount.trans (hline.trans hcount'.symm))
  rw [hlines, hhead', Option.some.injEq] at hhead
  have hbegin := lineBegin_le hoffset
  simp only [placeIn, hhead] at hcolumn
  omega

/-- A file of which the lines of `source` up to `reach` are known. -/
structure Knows (name : String) (base : Nat) (source : Bytes) (reach : Nat) (file : SourceFile) :
    Prop where
  name_eq : file.name = name
  base_eq : file.base = base
  size_eq : file.size = source.length
  lineTable_eq : file.lineTable = lineStarts source reach

namespace Knows

/-- Of a fresh file the first line is known. -/
theorem fresh (name : String) (base : Nat) (source : Bytes) :
    Knows name base source 0 (.fresh name base source.length) :=
  ⟨rfl, rfl, rfl, rfl⟩

/-- The table lists the latest line first. -/
theorem starts_eq (h : Knows name base source reach file) :
    file.starts = (lineStarts source reach).reverse := by
  rw [← h.lineTable_eq, SourceFile.lineTable, List.reverse_reverse]

theorem zero_mem (h : Knows name base source reach file) : 0 ∈ file.starts := by
  rw [h.starts_eq, List.mem_reverse]
  exact List.mem_cons_self

/-- Places up to there are right, and do not depend on how much more is known. -/
theorem locate_eq (h : Knows name base source reach file) (hle : offset ≤ reach)
    (hinside : offset ≤ source.length) : file.locate offset = placeIn name source offset := by
  obtain ⟨start, earlier, hlines, hlocate⟩ := SourceFile.locate_of_zero_mem h.zero_mem offset
  rw [h.starts_eq, dropWhile_lineStarts source hle] at hlines
  obtain ⟨hcount, hhead⟩ := lineStarts_textBefore hinside
  rw [hlines, List.head?_cons, Option.some.injEq] at hhead
  rw [← List.length_reverse, hlines, List.length_cons] at hcount
  have hstart : start ≤ offset := by
    have hlast := headD_lineStarts_le source offset
    rwa [hlines] at hlast
  rw [hlocate, placeIn, ← hcount, ← hhead, h.name_eq, Nat.add_comm 1, Nat.sub_add_comm hstart]

/-- Where no line ends, nothing more is to be known. -/
theorem pass (h : Knows name base source reach file) (hle : offset ≤ reach)
    (hinside : ¬EndsLine source offset) :
    ∃ more, reach ≤ more ∧ offset + 1 ≤ more ∧ Knows name base source more file := by
  rcases Nat.lt_or_eq_of_le hle with hlt | rfl
  · exact ⟨reach, Nat.le_refl _, hlt, h⟩
  · refine ⟨offset + 1, Nat.le_succ _, Nat.le_refl _, h.name_eq, h.base_eq, h.size_eq, ?_⟩
    rw [h.lineTable_eq, lineStarts_succ, if_neg hinside, List.append_nil]

/-- A line that begins behind a line feed is recorded, unless it is known already. -/
theorem addLine (h : Knows name base source reach file) (hle : offset ≤ reach)
    (hfeed : source[offset]? = some Byte.lineFeed) :
    ∃ more, reach ≤ more ∧ offset + 1 ≤ more ∧
      Knows name base source more (file.addLine (offset + 1)) := by
  by_cases hends : EndsLine source offset
  · rcases Nat.lt_or_eq_of_le hle with hlt | rfl
    · -- the file has been read further than this before
      have hknown := lt_headD_lineStarts hends hlt
      have hsame : file.addLine (offset + 1) = file := by
        rw [← h.starts_eq] at hknown
        exact if_neg fun hnew => by omega
      rw [hsame]
      exact ⟨reach, Nat.le_refl _, hlt, h⟩
    · refine ⟨offset + 1, Nat.le_succ _, Nat.le_refl _, ?_⟩
      have hlast := headD_lineStarts_le source offset
      have hnew : file.starts.headD 0 < offset + 1 ∧ offset + 1 < file.size := by
        rw [h.starts_eq, h.size_eq]
        exact ⟨by omega, hends.1⟩
      rw [SourceFile.addLine, if_pos hnew]
      refine ⟨h.name_eq, h.base_eq, h.size_eq, ?_⟩
      rw [SourceFile.lineTable, List.reverse_cons, ← SourceFile.lineTable, h.lineTable_eq,
        lineStarts_succ, if_pos hends]
  · have hsame : file.addLine (offset + 1) = file := by
      rw [SourceFile.addLine, h.size_eq]
      exact if_neg fun hnew => hends ⟨hnew.2, hfeed⟩
    rw [hsame]
    exact h.pass hle hends

/-- Reading on in the source, from a place up to which the lines are known, makes the lines known up
to the place behind. -/
theorem addLines (h : Knows name base source reach file) (hle : offset ≤ reach)
    (htext : text <+: source.drop offset) :
    ∃ more, reach ≤ more ∧ offset + text.length ≤ more ∧
      Knows name base source more (file.addLines offset text) := by
  induction text generalizing file offset reach with
  | nil => exact ⟨reach, Nat.le_refl _, hle, h⟩
  | cons byte text ih =>
      obtain ⟨rest, hrest⟩ := htext
      have hbyte : source[offset]? = some byte := by
        rw [← List.head?_drop, ← hrest]
        rfl
      have htail : text <+: source.drop (offset + 1) :=
        ⟨rest, by rw [← List.tail_drop, ← hrest]; rfl⟩
      obtain ⟨middle, hmiddle, hnext, hknows⟩ : ∃ middle, reach ≤ middle ∧ offset + 1 ≤ middle ∧
          Knows name base source middle
            (if byte = Byte.lineFeed then file.addLine (offset + 1) else file) := by
        split
        · rename_i hfeed
          exact h.addLine hle (hfeed ▸ hbyte)
        · rename_i hother
          exact h.pass hle fun hends => hother (Option.some.inj (hbyte.symm.trans hends.2))
      obtain ⟨more, hmore, hend, hknows⟩ := ih hknows hnext htail
      refine ⟨more, Nat.le_trans hmiddle hmore, ?_, ?_⟩
      · rw [List.length_cons]
        omega
      · rw [SourceFile.addLines]
        split
        · rename_i hfeed
          rwa [if_pos hfeed] at hknows
        · rename_i hother
          rwa [if_neg hother] at hknows

end Knows

end PascalUnits
