import PascalUnits.Proofs.Index.Words
import PascalUnits.Proofs.Scan.Drain
import PascalUnits.Proofs.Scan.Faults

/-!
# Where a directive is handed out

A left brace that is not inside a comment, a directive, a string or a character begins a token
(`Scanner.exists_call_of_outside`), as no other token has one behind its first byte
(`Grammar.Lexes.leftBrace_not_mem_tail`). So a directive that stands there is handed out, whether
comments are kept or not, and before it no more faults are counted than are reported before its
place (`Scanner.exists_directive_tolerated`).
-/

namespace PascalUnits

namespace Grammar

variable {previous : Option Token} {token : Token} {text inside rest : Bytes}

theorem Maximal.not_mem {accept : UInt8 → Bool} {byte : UInt8} (h : Maximal accept text rest)
    (hbyte : accept byte = false) : byte ∉ text := by
  intro hmem
  rw [h.accepted byte hmem] at hbyte
  cases hbyte

theorem Fraction.leftBrace_not_mem (h : Fraction text rest) : Byte.leftBrace ∉ text := by
  cases h with
  | digits _ hrun => exact List.not_mem_cons_of_ne_of_not_mem (by decide) (hrun.not_mem (by decide))
  | none => exact List.not_mem_nil

theorem Exponent.leftBrace_not_mem (h : Exponent text rest) : Byte.leftBrace ∉ text := by
  cases h with
  | @mark mark sign digits _ hmark hsign hrun =>
      have hne : Byte.leftBrace ≠ mark := by
        rintro rfl
        exact absurd hmark (by decide)
      refine List.not_mem_cons_of_ne_of_not_mem hne
        (List.not_mem_append ?_ (hrun.not_mem (by decide)))
      cases hsign with
      | taken hbyte => rcases hbyte with rfl | rfl <;> decide
      | none => exact List.not_mem_nil
  | none => exact List.not_mem_nil

/-- A left brace stands behind the first byte of tokens of four kinds only. -/
theorem Lexes.leftBrace_not_mem_tail (h : Lexes previous token text rest)
    (htoken : token ∉ [.comment, .directive, .string, .char]) : Byte.leftBrace ∉ text.tail := by
  cases h with
  | word _ hrun | identifier _ hrun | hexadecimal hrun => exact hrun.not_mem (by decide)
  | decimal _ hdigits hfraction hexponent =>
      exact List.not_mem_append (hdigits.not_mem (by decide))
        (List.not_mem_append hfraction.leftBrace_not_mem hexponent.leftBrace_not_mem)
  | @operator op => cases op <;> decide
  | caret | illegal => exact List.not_mem_nil
  | string | braced => split at htoken <;> simp at htoken
  | _ => simp at htoken

/-- A directive goes through the first right brace. -/
theorem lexes_directive (previous : Option Token) (h : Byte.rightBrace ∉ inside) (rest : Bytes) :
    Lexes previous .directive
      (Byte.leftBrace :: Byte.dollar :: (inside ++ [Byte.rightBrace])) rest := by
  have hthrough : Through [Byte.rightBrace] (Byte.dollar :: inside ++ [Byte.rightBrace]) rest := by
    refine .closed ?_
    rw [List.singleton_infix_iff, List.mem_cons, not_or]
    exact ⟨by decide, h⟩
  exact .braced hthrough

end Grammar

namespace Scanner

/-- An offset that is not inside a comment, a directive, a string or a character. -/
def Outside (source : Bytes) (offset : Nat) : Prop :=
  ∀ scanner, Scanner.start (.fresh "" FileSet.empty.base source.length) source = .ok scanner →
    ∀ found ∈ scanner.run .kept, found.token ∈ [.comment, .directive, .string, .char] →
      ¬ (found.offset < offset ∧ offset < found.stop)

variable {scanner : Scanner} {source : Bytes} {offset : Nat}

theorem outside_iff
    (hstart : Scanner.start (.fresh "" FileSet.empty.base source.length) source = .ok scanner) :
    Outside source offset ↔
      ∀ found ∈ scanner.run .kept, found.token ∈ [.comment, .directive, .string, .char] →
        ¬ (found.offset < offset ∧ offset < found.stop) := by
  refine ⟨fun h => h scanner hstart, fun h other hother => ?_⟩
  obtain rfl := Except.ok.inj (hstart.symm.trans hother)
  exact h

instance (source : Bytes) (offset : Nat) : Decidable (Outside source offset) :=
  match hstart : Scanner.start (.fresh "" FileSet.empty.base source.length) source with
  | .error _ => isTrue fun _ hother => nomatch hstart.symm.trans hother
  | .ok _ => decidable_of_iff _ (outside_iff hstart).symm

/-- A scanner begins before every left brace. -/
theorem offset_start_le
    (hstart : Scanner.start (.fresh "" FileSet.empty.base source.length) source = .ok scanner)
    (hbrace : source[offset]? = some Byte.leftBrace) : scanner.offset ≤ offset := by
  obtain ⟨other, hother, -, hoffset⟩ := start_stands
    (show (SourceFile.fresh "" FileSet.empty.base source.length).size = source.length from rfl)
  obtain rfl := Except.ok.inj (hother.symm.trans hstart)
  rw [hoffset]
  split
  · rename_i hmark
    obtain ⟨rest, rfl⟩ := hmark
    -- no byte of the mark is a brace
    refine Nat.le_of_not_lt fun hlt => ?_
    rw [List.getElem?_append_left hlt] at hbrace
    exact absurd (List.mem_of_getElem? hbrace) (by decide)
  · exact Nat.zero_le _

/-- A byte inside a token is one of its lexeme, behind the first. -/
theorem mem_tail_lexeme {found : Scanned} {byte : UInt8}
    (hreads : found.lexeme = (source.drop found.offset).take found.lexeme.length)
    (hbyte : source[offset]? = some byte) (hlt : found.offset < offset)
    (hstop : offset < found.stop) : byte ∈ found.lexeme.tail := by
  have hstop' : offset < found.offset + found.lexeme.length := hstop
  have hindex : found.lexeme[offset - found.offset]? = some byte := by
    rw [hreads, List.getElem?_take_of_lt (by omega), List.getElem?_drop, ← hbyte]
    congr 1
    omega
  refine List.mem_of_getElem? (i := offset - found.offset - 1) ?_
  rw [List.getElem?_tail, ← hindex]
  congr 1
  omega

/-- A left brace outside begins a token. -/
theorem exists_call_of_outside
    (hstart : Scanner.start (.fresh "" FileSet.empty.base source.length) source = .ok scanner)
    (hbrace : source[offset]? = some Byte.leftBrace) (houtside : Outside source offset) :
    ∃ call ∈ scanner.trace .kept, call.1.token ≠ .eof ∧ call.1.offset = offset := by
  have hfollows := follows_of_start hstart
  obtain ⟨tokens, last, hrun, -, htokens, htiles⟩ := run_tiles hfollows.stands
  obtain ⟨found, hfound, hspans⟩ : ∃ found ∈ tokens, found.Spans offset := by
    by_contra hnone
    refine absurd (htiles.blank offset _ hbrace (offset_start_le hstart hbrace) ?_) (by decide)
    exact fun found hfound hspans => hnone ⟨found, hfound, hspans⟩
  have hmem : found ∈ scanner.run .kept := by
    rw [hrun]
    exact List.mem_append_left _ hfound
  obtain ⟨call, hcall, rfl⟩ : ∃ call ∈ scanner.trace .kept, call.1 = found := by
    rwa [← map_fst_trace, List.mem_map] at hmem
  refine ⟨call, hcall, htokens _ hfound, Nat.le_antisymm hspans.1 (Nat.le_of_not_lt fun hlt => ?_)⟩
  -- the brace is not the first byte of the token, so the token is of one of the four kinds
  obtain ⟨previous, rest, hlexes⟩ := hfollows.lexes_of_mem hcall (htokens _ hfound)
  have hinside := mem_tail_lexeme (htiles.reads _ hfound) hbrace hlt hspans.2
  by_cases hkind : call.1.token ∈ [.comment, .directive, .string, .char]
  · exact houtside scanner hstart _ hmem hkind ⟨hlt, hspans.2⟩
  · exact hlexes.leftBrace_not_mem_tail hkind hinside

/-- A directive outside is handed out, and every token before it begins before it. -/
theorem exists_directive {inside : Bytes}
    (hstart : Scanner.start (.fresh "" FileSet.empty.base source.length) source = .ok scanner)
    (hinside : Byte.rightBrace ∉ inside)
    (htext : Byte.leftBrace :: Byte.dollar :: (inside ++ [Byte.rightBrace]) <+: source.drop offset)
    (houtside : Outside source offset) :
    ∃ earlier call later, scanner.trace .kept = earlier ++ call :: later ∧
      call.1.offset = offset ∧ call.1.token = .directive ∧
      call.1.literal = Byte.leftBrace :: Byte.dollar :: (inside ++ [Byte.rightBrace]) ∧
      ∀ other ∈ earlier, other.1.offset < offset := by
  obtain ⟨rest, hrest⟩ := htext
  have hbrace : source[offset]? = some Byte.leftBrace := by
    rw [← List.head?_drop, ← hrest]
    rfl
  obtain ⟨call, hcall, heof, rfl⟩ := exists_call_of_outside hstart hbrace houtside
  have hfollows := follows_of_start hstart
  obtain ⟨calls, last, htrace, hlast, -, hcalls⟩ := hfollows.trace .kept
  obtain ⟨tokens, end', hrun, -, -, htiles⟩ := run_tiles hfollows.stands
  have hmem : call ∈ calls := by
    rw [htrace, List.mem_append, List.mem_singleton] at hcall
    exact hcall.resolve_right fun h => heof (h ▸ hlast)
  obtain ⟨-, -, _, hprescribed⟩ := hcalls.of_mem hmem
  obtain ⟨earlier, later, rfl⟩ := List.append_of_mem hmem
  obtain ⟨htoken, hlexeme⟩ :=
    (hprescribed.lexes_iff _ _ rest hrest).1 (Grammar.lexes_directive _ hinside rest)
  refine ⟨earlier, call, later ++ [last], by simp [htrace], rfl, htoken.symm, ?_, ?_⟩
  · have hliteral : call.1.literal.isEmpty = false := by
      refine Bool.eq_false_iff.2 fun hempty => ?_
      rw [Scanned.lexeme, if_pos hempty, ← htoken] at hlexeme
      have hhead : some Byte.leftBrace = Token.directive.bytes.head? :=
        congrArg List.head? hlexeme
      exact absurd hhead (by decide)
    rw [hlexeme, Scanned.lexeme, hliteral, if_neg Bool.false_ne_true]
  · have htokens : (earlier ++ call :: later).map (·.1) = tokens := by
      rw [← map_fst_trace, htrace, List.map_append] at hrun
      exact (List.append_inj' hrun rfl).1
    have hordered := htiles.ordered
    rw [← htokens, List.map_append, List.map_cons, List.pairwise_append] at hordered
    intro other hother
    exact (hordered.2.2 _ (List.mem_map_of_mem hother) _ List.mem_cons_self).1

/-- The number of faults in a source that are reported before an offset. -/
def faultsBefore (source : Bytes) (offset : Nat) : Nat :=
  match Scanner.start (.fresh "" FileSet.empty.base source.length) source with
  | .error _ => 0
  | .ok scanner => (faults (scanner.trace .kept)).countP (·.position.offset < offset)

/-- The faults that are counted after a call have been reported up to it. -/
theorem errorCount_le_faults {comments : Comments} {earlier later : List (Scanned × Scanner)}
    (h : scanner.trace comments = earlier ++ later) :
    ∀ call ∈ earlier, call.2.errorCount ≤ scanner.errorCount + (faults earlier).length := by
  induction earlier generalizing scanner with
  | nil => exact List.forall_mem_nil _
  | cons first earlier ih =>
      have hcount := errorCount_next comments scanner
      by_cases heof : (scanner.next comments).1.token = .eof
      · rw [trace_of_eof heof, List.cons_append, List.cons.injEq] at h
        obtain ⟨rfl, hnil⟩ := h
        rw [(List.append_eq_nil_iff.1 hnil.symm).1, faults_cons, List.length_append]
        exact List.forall_mem_singleton.2 (by omega)
      · rw [trace_of_ne_eof heof, List.cons_append, List.cons.injEq] at h
        obtain ⟨rfl, hrest⟩ := h
        rw [faults_cons, List.length_append, ← Nat.add_assoc, ← hcount]
        exact List.forall_mem_cons.2 ⟨Nat.le_add_right _ _, ih hrest⟩

/-- Faults of tokens that begin before an offset are reported before it. -/
theorem length_faults_le {earlier later : List (Scanned × Scanner)}
    (hstart : Scanner.start (.fresh "" FileSet.empty.base source.length) source = .ok scanner)
    (htrace : scanner.trace .kept = earlier ++ later)
    (hbefore : ∀ call ∈ earlier, call.1.offset < offset) :
    (faults earlier).length ≤ faultsBefore source offset := by
  have hstarts : 0 ∈ scanner.file.starts := by
    rw [(of_start_eq_ok hstart).1]
    exact List.mem_singleton_self 0
  have hall : ∀ diagnostic ∈ faults earlier, decide (diagnostic.position.offset < offset) := by
    intro diagnostic hdiagnostic
    obtain ⟨call, hcall, hmem⟩ := List.mem_flatMap.1 hdiagnostic
    have hrun : call.1 ∈ scanner.run .kept := by
      rw [← map_fst_trace, htrace]
      exact List.mem_map_of_mem (List.mem_append_left _ hcall)
    rw [(reports_of_mem_run hstarts _ hrun).offset_eq _ hmem, decide_eq_true_iff]
    exact hbefore call hcall
  have hfaults : faults (scanner.trace .kept) = faults earlier ++ faults later := by
    rw [htrace, faults, List.flatMap_append]
    rfl
  rw [faultsBefore, hstart]
  simp only [hfaults, List.countP_append, List.countP_eq_length.2 hall]
  exact Nat.le_add_right _ _

/-- Calls that differ in the faults that they report agree in all else. -/
theorem eq_of_quiet {call other : Scanned × Scanner} (h : quiet other = quiet call) :
    other.1.offset = call.1.offset ∧ other.1.token = call.1.token ∧
      other.1.literal = call.1.literal ∧ other.2 = call.2 := by
  obtain ⟨hfound, hafter⟩ := Prod.mk.inj h
  obtain ⟨hoffset, htoken, hliteral, -⟩ := Scanned.mk.inj hfound
  exact ⟨hoffset, htoken, hliteral, hafter⟩

/-- A scanner that passes over comments makes the other calls as well. -/
theorem exists_skipped {earlier later : List (Scanned × Scanner)} {call : Scanned × Scanner}
    (h : scanner.trace .kept = earlier ++ call :: later) (hcall : call.1.token ≠ .comment) :
    ∃ before found behind, scanner.trace .skipped = before ++ found :: behind ∧
      quiet found = quiet call ∧ ∀ other ∈ before, ∃ same ∈ earlier, quiet other = quiet same := by
  have hquiet := scanner.map_quiet_trace
  rw [h, List.filter_append, List.filter_cons_of_pos (by simpa using hcall), List.map_append,
    List.map_cons] at hquiet
  obtain ⟨before, others, htrace, hbefore, hothers⟩ := List.map_eq_append_iff.1 hquiet
  obtain ⟨found, behind, rfl, hfound, -⟩ := List.map_eq_cons_iff.1 hothers
  refine ⟨before, found, behind, htrace, hfound, fun other hother => ?_⟩
  have hmem : quiet other ∈ before.map quiet := List.mem_map_of_mem hother
  rw [hbefore] at hmem
  obtain ⟨same, hsame, heq⟩ := List.mem_map.1 hmem
  exact ⟨same, (List.mem_filter.1 hsame).1, heq.symm⟩

end Scanner

/-- The first call is always made. -/
theorem exists_tolerated_cons (call : Scanned × Scanner) (calls : List (Scanned × Scanner)) :
    ∃ more, tolerated (call :: calls) = call :: more :=
  ⟨_, by rw [tolerated, List.take_succ_cons]⟩

/-- Calls without too many faults are made before the others. -/
theorem tolerated_append {calls : List (Scanned × Scanner)}
    (h : ∀ call ∈ calls, call.2.errorCount ≤ maxErrors) (others : List (Scanned × Scanner)) :
    tolerated (calls ++ others) = calls ++ tolerated others := by
  induction calls with
  | nil => rfl
  | cons call rest ih =>
      obtain ⟨hcall, hrest⟩ := List.forall_mem_cons.1 h
      rw [List.cons_append, tolerated_cons, if_neg (Nat.not_lt.2 hcall), ih hrest, List.cons_append]

namespace Scanner

variable {scanner : Scanner} {source : Bytes} {offset : Nat}

/-- A directive outside is met by a scan without comments, if no more faults are reported before it
than a scan puts up with. -/
theorem exists_directive_tolerated {inside : Bytes}
    (hstart : Scanner.start (.fresh "" FileSet.empty.base source.length) source = .ok scanner)
    (hinside : Byte.rightBrace ∉ inside)
    (htext : Byte.leftBrace :: Byte.dollar :: (inside ++ [Byte.rightBrace]) <+: source.drop offset)
    (houtside : Outside source offset) (hfew : faultsBefore source offset ≤ maxErrors) :
    ∃ calls call later, tolerated (scanner.trace .skipped) = calls ++ call :: later ∧
      call.1.offset = offset ∧ call.1.token = .directive ∧
      call.1.literal = Byte.leftBrace :: Byte.dollar :: (inside ++ [Byte.rightBrace]) := by
  obtain ⟨earlier, call, later, htrace, hoffset, htoken, hliteral, hbefore⟩ :=
    exists_directive hstart hinside htext houtside
  obtain ⟨before, found, behind, hskipped, hfound, hothers⟩ :=
    exists_skipped htrace (by simp [htoken])
  have hcount : ∀ other ∈ before, other.2.errorCount ≤ maxErrors := by
    intro other hother
    obtain ⟨same, hsame, hquiet⟩ := hothers other hother
    have hsafe := errorCount_le_faults htrace same hsame
    rw [(of_start_eq_ok hstart).2.2, Nat.zero_add] at hsafe
    rw [(eq_of_quiet hquiet).2.2.2]
    exact Nat.le_trans hsafe (Nat.le_trans (length_faults_le hstart htrace hbefore) hfew)
  obtain ⟨hoffset', htoken', hliteral', -⟩ := eq_of_quiet hfound
  obtain ⟨more, hmore⟩ := exists_tolerated_cons found behind
  rw [hskipped, tolerated_append hcount, hmore]
  exact ⟨before, found, more, rfl, hoffset'.trans hoffset, htoken'.trans htoken,
    hliteral'.trans hliteral⟩

end Scanner

end PascalUnits
