import PascalUnits.Proofs.Scan.Blank
import PascalUnits.Proofs.Scan.Call
import PascalUnits.Proofs.Scan.Comments

/-!
# Scanners in blanked texts

A scanner in a text whose comments are blanked `Shadows` one in the text: it is at the same place,
knows the same lines and the same token before it, and the text before it is blanked. Where the
scanner hands out a comment its shadow goes on in blanks (`Shadows.pass`), and where it hands out
another token its shadow hands out the same one (`Shadows.step`). The main statement,
`trace_of_shadows`, says that a shadow hands out all but the comments, whether or not it would keep
comments.
-/

namespace PascalUnits

namespace Scanner

variable {scanner other : Scanner} {source : Bytes} {first : UInt8} {rest : Bytes}

/-- Comments that are still to come lie ahead. -/
theorem offset_le_of_inComment {index : Nat} (hstands : scanner.StandsIn source)
    (h : InComment (scanner.run .kept) index) : scanner.offset ≤ index := by
  obtain ⟨tokens, last, hrun, hlast, -, htiles⟩ := run_tiles hstands
  obtain ⟨found, hfound, hcomment, hspans⟩ := h
  rw [hrun, List.mem_append, List.mem_singleton] at hfound
  rcases hfound with hfound | rfl
  · exact Nat.le_trans (htiles.after_start found hfound) hspans.1
  · rw [hlast] at hcomment
    cases hcomment

/-- A scanner in a text whose comments are blanked, at the place of a scanner in the text. -/
structure Shadows (other scanner : Scanner) : Prop where
  file_eq : other.file = scanner.file
  offset_eq : other.offset = scanner.offset
  previous_eq : other.previous = scanner.previous
  rest_eq : other.rest = blank (scanner.run .kept) scanner.offset scanner.rest

/-- The text of the shadow: the same blanks, the lexeme, blanked if it is a comment, and the text
that a shadow of the scanner after it has. -/
theorem blank_rest (hstands : scanner.StandsIn source)
    (hrest : scanner.skipBlanks.rest = first :: rest) :
    ∃ shown, blank (scanner.run .kept) scanner.offset scanner.rest =
        scanner.rest.takeWhile Byte.isBlank ++ (shown ++ blank ((scanner.next .kept).2.run .kept)
          (scanner.next .kept).2.offset (scanner.next .kept).2.rest) ∧
      Lexeme.Fades 0 (scanner.taken first rest) shown ∧
      ((scanner.next .kept).1.token = .comment → ∀ byte ∈ shown, Byte.isBlank byte) ∧
      ((scanner.next .kept).1.token ≠ .comment → shown = scanner.taken first rest) := by
  have hoffset := offset_next_kept hrest
  have hafter := stands_next_kept hstands hrest
  -- a byte is in a comment if the token is one and has it, or if it is in a later one
  have hin : ∀ index, InComment (scanner.run .kept) index ↔
      ((scanner.next .kept).1.token = .comment ∧ (scanner.next .kept).1.Spans index) ∨
        InComment ((scanner.next .kept).2.run .kept) index := by
    intro index
    rw [run_kept_of_cons hrest]
    simp [InComment]
  refine ⟨blank (scanner.run .kept)
    (scanner.offset + (scanner.rest.takeWhile Byte.isBlank).length) (scanner.taken first rest),
    ?_, fades_blank _ _ _, ?_, ?_⟩
  · conv => lhs; rw [rest_eq_append hrest]
    rw [blank_append, blank_append]
    congr 1
    · refine blank_eq_self fun index hle hlt => ?_
      rw [hin, spans_next_kept hrest]
      rintro (⟨-, hspans, -⟩ | hlater)
      · omega
      · have := offset_le_of_inComment hafter hlater
        omega
    · congr 1
      rw [← hoffset]
      refine blank_congr (fun index hle => ?_) _
      rw [hin, spans_next_kept hrest]
      refine or_iff_right fun hcomment => ?_
      omega
  · intro hcomment byte hbyte
    refine isBlank_of_mem_blank (fun index hle hlt => ?_) hbyte
    rw [hin, spans_next_kept hrest]
    exact .inl ⟨hcomment, hle, by omega⟩
  · intro hcomment
    refine blank_eq_self fun index hle hlt => ?_
    rw [hin]
    rintro (⟨htoken, -⟩ | hlater)
    · exact hcomment htoken
    · have := offset_le_of_inComment hafter hlater
      omega

/-- A shadow passes over a blanked comment as over blanks. -/
theorem Shadows.pass (h : other.Shadows scanner) (hstands : scanner.StandsIn source)
    (hrest : scanner.skipBlanks.rest = first :: rest)
    (hcomment : (scanner.next .kept).1.token = .comment) :
    ∃ ahead : Scanner, ahead.skipBlanks = other.skipBlanks ∧
      ahead.Shadows (scanner.next .kept).2 := by
  obtain ⟨shown, hshown, hfades, hblank, -⟩ := blank_rest hstands hrest
  have hother := h.rest_eq.trans hshown
  rw [← List.append_assoc] at hother
  have hlength : shown.length = (scanner.taken first rest).length := hfades.length_eq
  refine ⟨other.advance (scanner.rest.takeWhile Byte.isBlank ++ shown).length,
    skipBlanks_advance hother ?_, ?_, ?_, ?_, ?_⟩
  · intro byte hbyte
    rcases List.mem_append.1 hbyte with hbyte | hbyte
    · exact List.all_eq_true.1 List.all_takeWhile byte hbyte
    · exact hblank hcomment byte hbyte
  · show other.file.addLines other.offset (other.rest.take _) = _
    rw [hother, List.take_left, h.file_eq, h.offset_eq, file_next_kept hrest,
      SourceFile.addLines_append, SourceFile.addLines_append, SourceFile.addLines_fades _ _ hfades]
  · show other.offset + _ = _
    rw [h.offset_eq, offset_next_kept hrest, List.length_append, hlength, Nat.add_assoc]
  · -- a comment is not remembered as the last token
    rw [next_kept_of_cons hrest] at hcomment ⊢
    have htrivia : (scanner.skipBlanks.lexeme first rest).token.isTrivia := by
      rw [show (scanner.skipBlanks.lexeme first rest).token = .comment from hcomment]
      rfl
    show other.previous = if _ then scanner.previous else _
    rw [if_pos htrivia, h.previous_eq]
  · show other.rest.drop _ = _
    rw [hother, List.drop_left]

/-- A type name is no comment, so it stays. -/
theorem beginsTypeName_blank (hstands : scanner.StandsIn source)
    (h : Lexeme.beginsTypeName scanner.rest) :
    Lexeme.beginsTypeName (blank (scanner.run .kept) scanner.offset scanner.rest) := by
  match hrest : scanner.rest, h with
  | letter :: byte :: more, h =>
      rw [Lexeme.beginsTypeName, Bool.and_eq_true] at h
      obtain ⟨hletter, hbyte⟩ := h
      have hblank := Byte.isBlank_of_isLetter hletter
      have hskip : scanner.skipBlanks.rest = letter :: byte :: more := by
        show scanner.rest.drop (Lexeme.run Byte.isBlank scanner.rest) = _
        rw [Lexeme.drop_run, hrest, List.dropWhile_cons_of_neg (by simp [hblank])]
      have hlexeme : scanner.skipBlanks.lexeme letter (byte :: more) =
          Lexeme.word letter (byte :: more) := if_pos hletter
      have hcomment : (scanner.next .kept).1.token ≠ .comment := by
        rw [next_kept_of_cons hskip]
        show (scanner.skipBlanks.lexeme letter (byte :: more)).token ≠ .comment
        rw [hlexeme]
        rcases Lexeme.token_word letter (byte :: more) with hname | ⟨w, hname⟩ <;> simp [hname]
      obtain ⟨shown, hshown, -, -, hsame⟩ := blank_rest hstands hskip
      rw [← hrest, hshown, hsame hcomment, hrest, List.takeWhile_cons_of_neg (by simp [hblank]),
        taken, hlexeme]
      simp [Lexeme.word, hbyte, Lexeme.beginsTypeName, hletter]

section Shadow

variable (h : other.Shadows scanner) (hstands : scanner.StandsIn source)
  (hrest : scanner.skipBlanks.rest = first :: rest)
  (hcomment : (scanner.next .kept).1.token ≠ .comment)

include h hstands hrest hcomment

/-- Before a token that is no comment a shadow passes the same blanks. -/
theorem Shadows.skipBlanks :
    other.skipBlanks.file = scanner.skipBlanks.file ∧
      other.skipBlanks.offset = scanner.skipBlanks.offset ∧
      other.skipBlanks.rest = scanner.taken first rest ++
        blank ((scanner.next .kept).2.run .kept) (scanner.next .kept).2.offset
          (scanner.next .kept).2.rest := by
  obtain ⟨shown, hshown, -, -, hsame⟩ := blank_rest hstands hrest
  obtain ⟨inside, htaken, -, -, hfirst⟩ := taken_eq_cons hrest
  have hother := h.rest_eq.trans hshown
  rw [hsame hcomment] at hother
  have hskip : other.skipBlanks = other.advance (scanner.rest.takeWhile Byte.isBlank).length := by
    rw [htaken] at hother
    exact skipBlanks_of_append hother
      (fun byte => List.all_eq_true.1 List.all_takeWhile byte) hfirst
  rw [hskip]
  refine ⟨?_, ?_, ?_⟩
  · show other.file.addLines other.offset (other.rest.take _) =
      scanner.file.addLines scanner.offset (scanner.rest.take _)
    rw [hother, List.take_left, h.file_eq, h.offset_eq, Lexeme.take_run]
  · show other.offset + _ = scanner.offset + _
    rw [h.offset_eq]
    rfl
  · show other.rest.drop _ = _
    rw [hother, List.drop_left]

/-- Behind them it reads the same lexeme, as what follows that one fades at most. -/
theorem Shadows.lexeme {inside : Bytes}
    (hinside : inside.length = (scanner.skipBlanks.lexeme first rest).size - 1)
    (hsplit : rest = inside ++ (scanner.next .kept).2.rest) :
    other.skipBlanks.lexeme first (inside ++ blank ((scanner.next .kept).2.run .kept)
      (scanner.next .kept).2.offset (scanner.next .kept).2.rest) =
        scanner.skipBlanks.lexeme first rest := by
  show Lexeme.read other.previous _ _ = Lexeme.read scanner.previous _ _
  rw [h.previous_eq]
  refine Lexeme.read_fades _ ?_ ?_ ?_
  · rw [next_kept_of_cons hrest] at hcomment
    exact hcomment
  · show Lexeme.Fades ((scanner.skipBlanks.lexeme first rest).size - 1) _ _
    rw [← hinside]
    conv => arg 2; rw [hsplit]
    exact (fades_blank _ _ _).append inside
  · -- a caret before a type name is alone, so that the name is all that follows
    rintro rfl hname
    have hsize : (scanner.skipBlanks.lexeme Byte.caret rest).size = 1 := by
      show (Lexeme.caret scanner.previous rest).size = 1
      rw [Lexeme.caret, hname, Bool.or_true, if_pos rfl]
    rw [hsize] at hinside
    obtain rfl := List.length_eq_zero_iff.1 hinside
    rw [List.nil_append] at hsplit ⊢
    exact beginsTypeName_blank (stands_next_kept hstands hrest) (hsplit ▸ hname)

/-- So a shadow hands out the same token, if that is no comment, and reports the same faults. -/
theorem Shadows.step (comments : Comments) :
    (other.next comments).1 = (scanner.next .kept).1 ∧
      (other.next comments).2.Shadows (scanner.next .kept).2 := by
  obtain ⟨hfile, hoffset, hskip⟩ := h.skipBlanks hstands hrest hcomment
  obtain ⟨inside, htaken, hinside, hsplit, -⟩ := taken_eq_cons hrest
  have hlexeme := h.lexeme hstands hrest hcomment hinside hsplit
  have hlength : (scanner.taken first rest).length =
      (scanner.skipBlanks.lexeme first rest).size := length_taken ..
  have hnext : other.next comments =
      other.skipBlanks.accept (scanner.skipBlanks.lexeme first rest) := by
    rw [← hlexeme]
    rw [htaken, List.cons_append] at hskip
    refine next_of_cons hskip fun htoken => absurd ?_ hcomment
    rw [hlexeme] at htoken
    rw [next_kept_of_cons hrest]
    exact htoken
  have htake : other.skipBlanks.rest.take (scanner.skipBlanks.lexeme first rest).size =
      scanner.skipBlanks.rest.take (scanner.skipBlanks.lexeme first rest).size := by
    rw [hskip, ← hlength, List.take_left, hrest, hlength]
    rfl
  have hdrop : other.skipBlanks.rest.drop (scanner.skipBlanks.lexeme first rest).size =
      blank ((scanner.next .kept).2.run .kept) (scanner.next .kept).2.offset
        (scanner.next .kept).2.rest := by
    rw [hskip, ← hlength, List.drop_left]
  rw [hnext]
  refine ⟨?_, ?_, ?_, ?_, hdrop⟩
  · rw [next_kept_of_cons hrest]
    simp only [accept, advance, hfile, hoffset, htake]
  · rw [next_kept_of_cons hrest]
    simp only [accept, advance, hfile, hoffset, htake]
  · rw [next_kept_of_cons hrest]
    simp only [accept, advance, hoffset]
  · rw [next_kept_of_cons hrest]
    show (if _ then other.previous else _) = if _ then scanner.previous else _
    rw [h.previous_eq]

end Shadow

/-- At the end of the text there is no comment left, so that a shadow meets the end as well. -/
theorem Shadows.stop (h : other.Shadows scanner) (hnil : scanner.skipBlanks.rest = [])
    (comments : Comments) :
    (other.next comments).1 = (scanner.next .kept).1 ∧
      (other.next comments).2.file = (scanner.next .kept).2.file := by
  have hnext : scanner.next .kept = _ := next_of_nil hnil
  have heof : (scanner.next .kept).1.token = .eof := by rw [hnext]
  have hnone : ∀ index, ¬InComment (scanner.run .kept) index := by
    rintro index ⟨found, hfound, hcomment, -⟩
    rw [← map_fst_trace, trace_of_eof heof, List.map_singleton, List.mem_singleton] at hfound
    rw [hfound, heof] at hcomment
    cases hcomment
  have hrest : other.rest = scanner.rest := by
    rw [h.rest_eq]
    exact blank_eq_self fun index _ _ => hnone index
  have hnilOther : other.skipBlanks.rest = [] := by
    simp only [Scanner.skipBlanks, advance, hrest] at hnil ⊢
    exact hnil
  rw [hnext, next_of_nil hnilOther]
  simp only [Scanner.skipBlanks, advance, hrest, h.file_eq, h.offset_eq, and_self]

/-- A shadow hands out all that the scanner hands out that keeps comments, but the comments. Lines
are found alike. -/
theorem trace_of_shadows (comments : Comments) (scanner : Scanner) :
    ∀ {source : Bytes} {other : Scanner}, scanner.StandsIn source → other.Shadows scanner →
      (other.trace comments).map (fun call => (call.1, call.2.file)) =
        ((scanner.trace .kept).filter (·.1.token ≠ .comment)).map
          fun call => (call.1, call.2.file) := by
  induction scanner using kept_induction with
  | eof scanner heof hnext =>
      intro source other hstands h
      cases hrest : scanner.skipBlanks.rest with
      | cons first rest => exact absurd heof (token_next_kept_ne_eof hrest)
      | nil =>
          obtain ⟨hfound, hfile⟩ := h.stop hrest comments
          rw [trace_of_eof heof, trace_of_eof (hfound ▸ heof)]
          simp [heof, hfound, hfile]
  | comment scanner hcomment ih =>
      intro source other hstands h
      cases hrest : scanner.skipBlanks.rest with
      | nil =>
          rw [next_of_nil hrest] at hcomment
          cases hcomment
      | cons first rest =>
          obtain ⟨ahead, hskip, hahead⟩ := h.pass hstands hrest hcomment
          rw [← trace_congr hskip, ih (stands_next_kept hstands hrest) hahead,
            trace_of_ne_eof (token_next_kept_ne_eof hrest),
            List.filter_cons_of_neg (by simp [hcomment])]
  | other scanner heof hcomment hnext ih =>
      intro source other hstands h
      cases hrest : scanner.skipBlanks.rest with
      | nil =>
          rw [next_of_nil hrest] at heof
          exact absurd rfl heof
      | cons first rest =>
          obtain ⟨hfound, hafter⟩ := h.step hstands hrest hcomment comments
          rw [trace_of_ne_eof heof, trace_of_ne_eof (hfound ▸ heof),
            List.filter_cons_of_pos (by simp [hcomment]), List.map_cons, List.map_cons,
            ih (stands_next_kept hstands hrest) hafter, hfound, hafter.file_eq]

end Scanner

end PascalUnits
