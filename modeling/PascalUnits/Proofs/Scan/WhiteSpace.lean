import PascalUnits.Proofs.Scan.Faults
import PascalUnits.Proofs.Scan.Shadow

/-!
# A comment is white space

The main statement is `blanked_comments_are_blanks`: a source with its comments blanked is scanned
like the source with its comments skipped, except that nobody can tell any more that a comment was
not closed. `start_shadows` takes care of the byte order mark, and `faults_filter_comments` of the
faults: it finds the place of a fault in the one token that begins there.
-/

namespace PascalUnits

/-- The fault that one of the tokens, a comment, is not closed. -/
def IsOpenComment (tokens : List Scanned) (diagnostic : Diagnostic) : Prop :=
  diagnostic.fault = .openComment ∧
    ∃ found ∈ tokens, found.token = .comment ∧ diagnostic.position.offset = found.offset

instance (tokens : List Scanned) (diagnostic : Diagnostic) :
    Decidable (IsOpenComment tokens diagnostic) :=
  inferInstanceAs (Decidable (_ ∧ _))

/-- Two tokens of a tiling that begin at one place are one. -/
theorem Tiles.eq_of_offset_eq {source : Bytes} {start : Nat} {tokens : List Scanned}
    (h : Tiles source start tokens) {found other : Scanned} (hfound : found ∈ tokens)
    (hother : other ∈ tokens) (hoffset : found.offset = other.offset) : found = other := by
  obtain ⟨index, hindex, rfl⟩ := List.getElem_of_mem hfound
  obtain ⟨place, hplace, rfl⟩ := List.getElem_of_mem hother
  have hordered := List.pairwise_iff_getElem.1 h.ordered
  rcases Nat.lt_trichotomy index place with hlt | rfl | hlt
  · have := (hordered index place hindex hplace hlt).1
    omega
  · rfl
  · have := (hordered place index hplace hindex hlt).1
    omega

/-- Bytes without a space begin a faded text only if they began the text. -/
theorem Lexeme.Fades.isPrefix {mark text other : Bytes} (hmark : Byte.space ∉ mark)
    (h : Fades 0 text other) (hother : mark <+: other) : mark <+: text := by
  induction mark generalizing text other with
  | nil => exact List.nil_prefix
  | cons byte mark ih =>
      rw [List.mem_cons, not_or] at hmark
      obtain ⟨hbyte, hmore⟩ := hmark
      cases h with
      | nil => exact hother
      | behind hshown hrest =>
          obtain ⟨rfl, hothers⟩ := List.cons_prefix_cons.1 hother
          rcases hshown with rfl | ⟨-, hspace⟩
          · exact List.cons_prefix_cons.2 ⟨rfl, ih hmore hrest hothers⟩
          · exact absurd hspace.symm hbyte

namespace Scanner

variable {scanner : Scanner} {source : Bytes} {file : SourceFile}

/-- No byte of the mark belongs to a comment, and blanking makes no mark. -/
theorem mark_isPrefix_blank (hstands : scanner.StandsIn source)
    (hoffset : scanner.offset = if byteOrderMark <+: source then byteOrderMark.length else 0) :
    byteOrderMark <+: blank (scanner.run .kept) 0 source ↔ byteOrderMark <+: source := by
  refine ⟨(fades_blank _ _ _).isPrefix (by decide), fun hmark => ?_⟩
  obtain ⟨text, rfl⟩ := hmark
  rw [if_pos (List.prefix_append _ _)] at hoffset
  have hself : blank (scanner.run .kept) 0 byteOrderMark = byteOrderMark := by
    refine blank_eq_self fun index _ hlt hcomment => ?_
    have := offset_le_of_inComment hstands hcomment
    omega
  rw [blank_append, hself]
  exact List.prefix_append _ _

/-- A scanner at the beginning of a blanked source shadows the one at the beginning of the
source. -/
theorem start_shadows (hsize : file.size = source.length) :
    ∃ scanner blanked, Scanner.start file source = .ok scanner ∧
      Scanner.start file (blank (scanner.run .kept) 0 source) = .ok blanked ∧
      scanner.StandsIn source ∧ scanner.file = file ∧ blanked.Shadows scanner := by
  obtain ⟨scanner, hstart, hstands, hoffset⟩ := start_stands hsize
  have hscanner := Except.ok.inj (hstart.symm.trans (start_eq_ok hsize))
  have hmark := mark_isPrefix_blank hstands hoffset
  have hblanked : file.size = (blank (scanner.run .kept) 0 source).length := by
    rw [length_blank, hsize]
  refine ⟨scanner, _, hstart, start_eq_ok hblanked, hstands, by rw [hscanner], ?_⟩
  simp only [hmark, ← hoffset]
  refine ⟨by rw [hscanner], rfl, by rw [hscanner], ?_⟩
  -- what lies before the scanner is passed over in both texts
  have hlength : (source.take scanner.offset).length = scanner.offset :=
    List.length_take_of_le hstands.offset_le
  show (blank (scanner.run .kept) 0 source).drop scanner.offset = _
  conv => lhs; rw [← List.take_append_drop scanner.offset source, blank_append, hlength]
  rw [List.drop_left' (by rw [length_blank, hlength]), Nat.zero_add, hstands.rest_eq]

/-- Of the faults of a token all are left if it is no comment, and none if it is one. -/
theorem filter_diagnostics (hstands : scanner.StandsIn source) (hstarts : 0 ∈ scanner.file.starts)
    {found : Scanned} (hfound : found ∈ scanner.run .kept) :
    found.diagnostics.filter (¬IsOpenComment (scanner.run .kept) ·) =
      if found.token = .comment then [] else found.diagnostics := by
  have hreports := reports_of_mem_run hstarts found hfound
  split
  · rename_i hcomment
    refine List.filter_eq_nil_iff.2 fun diagnostic hdiagnostic => ?_
    have hopen : IsOpenComment (scanner.run .kept) diagnostic :=
      ⟨hreports.openComment hcomment diagnostic hdiagnostic, found, hfound, hcomment,
        hreports.offset_eq diagnostic hdiagnostic⟩
    simpa using hopen
  · rename_i hcomment
    refine List.filter_eq_self.2 fun diagnostic hdiagnostic => ?_
    -- a comment that begins at the place of the fault would be this token
    have hclosed : ¬IsOpenComment (scanner.run .kept) diagnostic := by
      rintro ⟨-, other, hother, htoken, hoffset⟩
      rw [hreports.offset_eq diagnostic hdiagnostic] at hoffset
      obtain ⟨tokens, last, hrun, hlast, -, htiles⟩ := run_tiles hstands
      rw [hrun, List.mem_append, List.mem_singleton] at hfound hother
      rcases hfound with hfound | rfl
      · rcases hother with hother | rfl
        · exact hcomment (htiles.eq_of_offset_eq hfound hother hoffset ▸ htoken)
        · rw [hlast] at htoken
          cases htoken
      · rw [hreports.eof hlast] at hdiagnostic
        cases hdiagnostic
    simpa using hclosed

/-- Leaving out the comments leaves out that they are not closed, and no other fault. -/
theorem faults_filter_comments (hstands : scanner.StandsIn source)
    (hstarts : 0 ∈ scanner.file.starts) :
    faults ((scanner.trace .kept).filter (·.1.token ≠ .comment)) =
      (faults (scanner.trace .kept)).filter (¬IsOpenComment (scanner.run .kept) ·) := by
  have hcalls : ∀ call ∈ scanner.trace .kept,
      call.1.diagnostics.filter (¬IsOpenComment (scanner.run .kept) ·) =
        if call.1.token = .comment then [] else call.1.diagnostics := by
    intro call hcall
    refine filter_diagnostics hstands hstarts ?_
    rw [← map_fst_trace]
    exact List.mem_map_of_mem hcall
  rw [faults, faults, List.filter_flatMap]
  generalize scanner.trace .kept = calls at hcalls
  induction calls with
  | nil => rfl
  | cons call calls ih =>
      obtain ⟨hcall, hcalls⟩ := List.forall_mem_cons.1 hcalls
      rw [List.flatMap_cons, hcall, ← ih hcalls]
      by_cases hcomment : call.1.token = .comment
      · rw [List.filter_cons_of_neg (by simp [hcomment]), if_pos hcomment, List.nil_append]
      · rw [List.filter_cons_of_pos (by simp [hcomment]), if_neg hcomment, List.flatMap_cons]

/-- Where tokens are when they are handed out depends on the lines that are known by then. -/
theorem placedTokens_of_map_eq {calls others : List (Scanned × Scanner)}
    (h : calls.map (fun call => (call.1, call.2.file)) =
      others.map fun call => (call.1, call.2.file)) :
    placedTokens calls = placedTokens others := by
  have hplaced := congrArg (List.map fun found : Scanned × SourceFile =>
    (found.1.offset, placed { file := found.2, offset := 0, rest := [] } found.1)) h
  rw [List.map_map, List.map_map] at hplaced
  exact hplaced

end Scanner

/-- A comment is white space. For every source, let another one have spaces for all bytes of its
comments but the line feeds. A scan of that one up to the end meets no comment, whether or not it
would keep comments. It hands out the tokens of the source, scanned with its comments skipped, in
the same places, and it reports the same faults in the same order, except that it does not know of
comments that are not closed. -/
theorem blanked_comments_are_blanks (name : String) (base : Nat) (source : Bytes) :
    ∃ scanner blanked : Scanner,
      Scanner.start (.fresh name base source.length) source = .ok scanner ∧
      Scanner.start (.fresh name base source.length) (blank (scanner.run .kept) 0 source) =
        .ok blanked ∧
      ∀ comments : Comments,
        (∀ call ∈ blanked.trace comments, call.1.token ≠ .comment) ∧
        Scanner.placedTokens (blanked.trace comments) =
          Scanner.placedTokens (scanner.trace .skipped) ∧
        Scanner.faults (blanked.trace comments) =
          (Scanner.faults (scanner.trace .skipped)).filter
            (¬IsOpenComment (scanner.run .kept) ·) := by
  have hsize : (SourceFile.fresh name base source.length).size = source.length := rfl
  obtain ⟨scanner, blanked, hstart, hblanked, hstands, hfile, hshadows⟩ :=
    Scanner.start_shadows hsize
  have hstarts : 0 ∈ scanner.file.starts := by
    rw [hfile]
    exact List.mem_singleton.2 rfl
  refine ⟨scanner, blanked, hstart, hblanked, fun comments => ?_⟩
  have htrace := Scanner.trace_of_shadows comments scanner hstands hshadows
  have hfound := congrArg (List.map (·.1)) htrace
  simp only [List.map_map, Function.comp_def] at hfound
  refine ⟨?_, ?_, ?_⟩
  · intro call hcall
    have hmem : call.1 ∈ (blanked.trace comments).map (·.1) := List.mem_map_of_mem hcall
    rw [hfound] at hmem
    obtain ⟨other, hother, heq⟩ := List.mem_map.1 hmem
    rw [← heq]
    simpa using (List.mem_filter.1 hother).2
  · rw [Scanner.placedTokens_of_map_eq htrace, ← Scanner.placedTokens_map_quiet,
      ← Scanner.map_quiet_trace, Scanner.placedTokens_map_quiet]
  · rw [Scanner.faults_trace_skipped, ← Scanner.faults_filter_comments hstands hstarts]
    rw [Scanner.faults, Scanner.faults, ← List.flatMap_map, hfound, List.flatMap_map]

end PascalUnits
