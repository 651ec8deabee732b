import PascalUnits.Proofs.Scan.Call
import PascalUnits.Proofs.Scan.Comments
import PascalUnits.Proofs.Scan.Reading

/-!
# A scan hands out what the grammar prescribes

The tokens of a scan are those of the lexical grammar, whether comments are kept or not. The
invariant is `Follows`: a scanner stands in the source, and remembers the last token it has taken
that was neither a comment nor a directive. A call passes what the grammar allows to pass, and then
meets the end or hands out the one token that the grammar prescribes there and moves behind it
(`Follows.next`). So the scan gives the one reading that the source has (`Follows.trace`). The main
statement is `tokens_follow_grammar`.
-/

namespace PascalUnits

namespace Scanned

/-- The token with its text stands in the source, and the grammar prescribes it there and nothing
else. -/
structure Prescribed (source : Bytes) (previous : Option Token) (found : Scanned) : Prop where
  stands : found.lexeme <+: source.drop found.offset
  lexes_iff : ∀ token text rest, text ++ rest = source.drop found.offset →
    (Grammar.Lexes previous token text rest ↔ token = found.token ∧ text = found.lexeme)

/-- The token with its text, as a piece of the source. -/
def piece (found : Scanned) : Grammar.Piece :=
  { token := found.token, offset := found.offset, text := found.lexeme }

/-- What is prescribed stands there. -/
theorem Prescribed.exists_stands {source : Bytes} {comments : Comments} {previous : Option Token}
    {found : Scanned} (h : found.Prescribed source previous)
    (hkept : comments = .skipped → found.token ≠ .comment) :
    ∃ rest, Grammar.Stands source comments previous found.token found.offset found.lexeme rest := by
  obtain ⟨rest, hrest⟩ := h.stands
  exact ⟨rest, hrest, (h.lexes_iff _ _ _ hrest).2 ⟨rfl, rfl⟩, hkept⟩

end Scanned

namespace Scanner

/-- The last token handed out that was neither a comment nor a directive. -/
def lastSignificant (earlier : List (Scanned × Scanner)) : Option Token :=
  ((earlier.map (·.1.token)).filter fun token => !token.isTrivia).getLast?

/-- Where the text of the last token handed out ends. If there is none, this is `start`. -/
def reached (start : Nat) (earlier : List (Scanned × Scanner)) : Nat :=
  (earlier.getLast?.map (·.1.stop)).getD start

/-- A scanner in `source` whose last significant token was `previous`. -/
structure Follows (source : Bytes) (previous : Option Token) (scanner : Scanner) : Prop where
  stands : scanner.StandsIn source
  previous_eq : scanner.previous = previous.getD .illegal

/-- A call that passed what may be passed from `start` on, and then met the end of the source, or
handed out what the grammar prescribes and moved behind it. -/
inductive Scans (source : Bytes) (comments : Comments) (previous : Option Token) (start : Nat)
    (call : Scanned × Scanner) : Prop where
  | atEnd : call.1.token = .eof → call.1.offset = source.length →
      Grammar.Passes source comments previous start source.length →
      Scans source comments previous start call
  | found : call.1.token ≠ .eof → (comments = .skipped → call.1.token ≠ .comment) →
      Grammar.Passes source comments previous start call.1.offset →
      call.1.Prescribed source previous → call.2.offset = call.1.stop →
      call.2.Follows source (call.1.token.orPrevious previous) →
      Scans source comments previous start call

variable {scanner : Scanner} {source : Bytes} {comments : Comments} {previous : Option Token}
  {start : Nat}

theorem lastSignificant_cons (call : Scanned × Scanner) (earlier : List (Scanned × Scanner))
    (previous : Option Token) :
    (lastSignificant (call :: earlier)).or previous =
      (lastSignificant earlier).or (call.1.token.orPrevious previous) := by
  unfold lastSignificant Token.orPrevious
  by_cases htrivia : call.1.token.isTrivia
  · simp [htrivia]
  · simp [htrivia, List.getLast?_cons]

theorem reached_cons (call : Scanned × Scanner) (earlier : List (Scanned × Scanner)) :
    reached start (call :: earlier) = reached call.1.stop earlier := by
  unfold reached
  cases earlier with
  | nil => rfl
  | cons next earlier => simp [List.getLast?_cons]

/-- A call that hands out no comment does the same where comments are skipped. -/
theorem Scans.of_kept {call : Scanned × Scanner} (h : Scans source .kept previous start call)
    (hother : call.1.token ≠ .comment) : Scans source comments previous start call := by
  cases h with
  | atEnd heof hoffset hpasses => exact .atEnd heof hoffset hpasses.of_kept
  | found heof _ hpasses hprescribed hstop hafter =>
      exact .found heof (fun _ => hother) hpasses.of_kept hprescribed hstop hafter

/-- The blanks before the next token may be passed. -/
theorem StandsIn.passes (h : scanner.StandsIn source) :
    Grammar.Passes source comments previous scanner.offset scanner.skipBlanks.offset :=
  .of_blanks (Nat.le_add_right _ _) h.skipBlanks.offset_le fun _ _ hbyte hle hlt =>
    h.blank hbyte hle hlt

/-- A token that is read where it stands is the one that the grammar prescribes. -/
theorem prescribed_of_read {found : Scanned} {first : UInt8} {rest : Bytes}
    (hblank : Byte.isBlank first = false) (hdrop : source.drop found.offset = first :: rest)
    (htoken : found.token = (Lexeme.read (previous.getD .illegal) first rest).token)
    (hlexeme : found.lexeme =
      (first :: rest).take (Lexeme.read (previous.getD .illegal) first rest).size) :
    found.Prescribed source previous := by
  have hsize := Lexeme.read_size_le (previous.getD .illegal) first rest
  refine ⟨?_, fun token text others htext => ?_⟩
  · rw [hlexeme, hdrop]
    exact List.take_prefix _ _
  · rw [hdrop] at htext
    rw [Grammar.lexes_iff hblank htext, htoken, hlexeme]
    -- a text at the beginning is given by its length
    refine and_congr_right fun _ => ⟨fun hlength => ?_, fun htaken => ?_⟩
    · rw [← hlength, ← htext, List.take_left]
    · rw [htaken, List.length_take_of_le hsize]

/-- A call that keeps comments scans what stands behind the blanks. -/
theorem Follows.next_kept (h : scanner.Follows source previous) :
    Scans source .kept previous scanner.offset (scanner.next .kept) := by
  have hskip := h.stands.skipBlanks
  cases hrest : scanner.skipBlanks.rest with
  | nil =>
      rw [next_of_nil hrest]
      have hend := hskip.offset_eq hrest
      exact .atEnd rfl hend (hend ▸ h.stands.passes)
  | cons first rest =>
      have hread : scanner.skipBlanks.lexeme first rest =
          Lexeme.read (previous.getD .illegal) first rest := by
        rw [← h.previous_eq]
        rfl
      have hdrop : source.drop scanner.skipBlanks.offset = first :: rest := by
        rw [← hskip.rest_eq, hrest]
      have hlexeme := lexeme_accept hrest (Lexeme.read_spelled _ _ _)
        (Lexeme.read_size_pos (previous.getD .illegal) first rest)
      have hstop := stop_accept (hrest ▸ Lexeme.read_size_le _ _ _) hlexeme
      have heof := token_next_kept_ne_eof hrest
      have hstands := stands_next_kept h.stands hrest
      obtain ⟨-, -, -, -, hblank⟩ := taken_eq_cons hrest
      rw [next_kept_of_cons hrest, hread] at heof hstands ⊢
      rw [hrest] at hlexeme
      refine .found heof nofun h.stands.passes (prescribed_of_read hblank hdrop rfl hlexeme)
        hstop.symm ⟨hstands, ?_⟩
      rw [Token.getD_orPrevious, ← h.previous_eq]
      rfl

/-- One that passes over comments scans what stands behind them as well. -/
theorem Follows.next_skipped {scanner : Scanner} (h : scanner.Follows source previous) :
    Scans source .skipped previous scanner.offset (scanner.next .skipped) := by
  induction scanner using kept_induction with
  | eof scanner heof hnext => exact hnext ▸ h.next_kept.of_kept (by simp [heof])
  | comment scanner hcomment ih =>
      rw [next_skipped_of_comment hcomment]
      cases h.next_kept with
      | atEnd heof _ _ =>
          rw [hcomment] at heof
          cases heof
      | found _ _ hpasses hprescribed hstop hbehind =>
          rw [hcomment] at hbehind
          obtain ⟨rest, htext⟩ := hprescribed.stands
          have hlexes := (hprescribed.lexes_iff _ _ _ htext).2 ⟨hcomment.symm, rfl⟩
          -- the comment is passed, and then what is passed behind it
          have hover : ∀ {stop}, Grammar.Passes source .skipped previous
              (scanner.next .kept).2.offset stop →
              Grammar.Passes source .skipped previous scanner.offset stop := by
            intro stop hrest
            rw [hstop] at hrest
            exact hpasses.of_kept.trans (.comment rfl htext hlexes hrest)
          -- the faults of the comment are reported, and nothing else changes
          cases ih hbehind with
          | atEnd heof hoffset hend => exact .atEnd heof hoffset (hover hend)
          | found heof hother hfar hfound hbound hafter =>
              exact .found heof hother (hover hfar) ⟨hfound.stands, hfound.lexes_iff⟩ hbound
                hafter
  | other scanner _ hcomment hnext _ => exact hnext ▸ h.next_kept.of_kept hcomment

/-- The step: a call meets the end of the source, or hands out what the grammar prescribes. -/
theorem Follows.next (h : scanner.Follows source previous) (comments : Comments) :
    Scans source comments previous scanner.offset (scanner.next comments) := by
  cases comments with
  | kept => exact h.next_kept
  | skipped => exact h.next_skipped

/-- Calls that passed what may be passed from `start` on, with nothing left behind them, and handed
out what the grammar prescribes behind the tokens before. -/
structure ScansAll (source : Bytes) (comments : Comments) (previous : Option Token) (start : Nat)
    (calls : List (Scanned × Scanner)) : Prop where
  found : ∀ earlier call later, calls = earlier ++ call :: later →
    call.1.token ≠ .eof ∧ (comments = .skipped → call.1.token ≠ .comment) ∧
    call.2.offset = call.1.stop ∧
    Grammar.Passes source comments ((lastSignificant earlier).or previous) (reached start earlier)
      call.1.offset ∧
    call.1.Prescribed source ((lastSignificant earlier).or previous)
  rest : Grammar.Passes source comments ((lastSignificant calls).or previous) (reached start calls)
    source.length
  reads : Grammar.Reading source comments previous start (calls.map (·.1.piece))

/-- Each of the calls moved behind a token that the grammar prescribes. -/
theorem ScansAll.of_mem {call : Scanned × Scanner} {calls : List (Scanned × Scanner)}
    (h : ScansAll source comments previous start calls) (hcall : call ∈ calls) :
    call.1.token ≠ .eof ∧ call.2.offset = call.1.stop ∧
      ∃ before, call.1.Prescribed source before := by
  obtain ⟨earlier, later, hcut⟩ := List.append_of_mem hcall
  obtain ⟨heof, -, hstop, -, hprescribed⟩ := h.found earlier call later hcut
  exact ⟨heof, hstop, _, hprescribed⟩

/-- Where nothing is left there are no calls. -/
theorem ScansAll.nil (h : Grammar.Passes source comments previous start source.length) :
    ScansAll source comments previous start [] := by
  refine ⟨fun earlier call later hcut => ?_, h, .done h⟩
  exact absurd hcut (by simp)

/-- One more call in front. -/
theorem ScansAll.cons {call : Scanned × Scanner} {calls : List (Scanned × Scanner)}
    (heof : call.1.token ≠ .eof) (hother : comments = .skipped → call.1.token ≠ .comment)
    (hpasses : Grammar.Passes source comments previous start call.1.offset)
    (hprescribed : call.1.Prescribed source previous) (hstop : call.2.offset = call.1.stop)
    (h : ScansAll source comments (call.1.token.orPrevious previous) call.1.stop calls) :
    ScansAll source comments previous start (call :: calls) := by
  obtain ⟨rest, hstands⟩ := hprescribed.exists_stands hother
  refine ⟨fun earlier other later hcut => ?_, ?_, .piece hpasses hstands h.reads⟩
  · cases earlier with
    | nil =>
        obtain ⟨rfl, -⟩ := List.cons.inj hcut
        exact ⟨heof, hother, hstop, hpasses, hprescribed⟩
    | cons first earlier =>
        obtain ⟨rfl, htail⟩ := List.cons.inj hcut
        rw [lastSignificant_cons, reached_cons]
        exact h.found earlier other later htail
  · rw [lastSignificant_cons, reached_cons]
    exact h.rest

/-- The run: up to the end, every call hands out what the grammar prescribes behind the tokens
before, and no byte is left out that may not be passed. -/
theorem Follows.trace {scanner : Scanner} {previous : Option Token}
    (h : scanner.Follows source previous) (comments : Comments) :
    ∃ calls last, scanner.trace comments = calls ++ [last] ∧ last.1.token = .eof ∧
      last.1.offset = source.length ∧
      ScansAll source comments previous scanner.offset calls := by
  cases h.next comments with
  | atEnd heof hoffset hpasses =>
      rw [trace_of_eof heof]
      exact ⟨[], _, rfl, heof, hoffset, .nil hpasses⟩
  | found heof hother hpasses hprescribed hstop hafter =>
      obtain ⟨calls, last, htrace, hlast, hoffset, hcalls⟩ := hafter.trace comments
      rw [hstop] at hcalls
      rw [trace_of_ne_eof heof, htrace]
      exact ⟨_ :: calls, last, rfl, hlast, hoffset,
        .cons heof hother hpasses hprescribed hstop hcalls⟩
termination_by scanner.rest.length
decreasing_by exact rest_length_lt comments scanner heof

end Scanner

/-- A scan cuts a source as the lexical grammar does, with comments or without them. From the
beginning of the source, or from behind a byte order mark, it comes to the end. Each token before
that is the one, and the only one, that the grammar prescribes where it stands, behind the last one
before it that was neither a comment nor a directive, and the scanner moves to where its text ends.
Between a token and the next one, and behind the last one, there are only blanks, and comments of
the grammar if comments are skipped. So the tokens are those of the one reading that the source
has. A word is one of 118. -/
theorem tokens_follow_grammar (name : String) (base : Nat) (source : Bytes)
    (comments : Comments) :
    let start := if [0xEF, 0xBB, 0xBF] <+: source then 3 else 0
    Word.spellings.length = 118 ∧ Word.spellings.Nodup ∧
    ∃ scanner calls last,
      Scanner.start (.fresh name base source.length) source = .ok scanner ∧
      scanner.trace comments = calls ++ [last] ∧ last.1.token = .eof ∧
      last.1.offset = source.length ∧
      (∀ earlier call later, calls = earlier ++ call :: later →
        call.1.token ≠ .eof ∧ (comments = .skipped → call.1.token ≠ .comment) ∧
        call.2.offset = call.1.stop ∧
        Grammar.Passes source comments (Scanner.lastSignificant earlier)
          (Scanner.reached start earlier) call.1.offset ∧
        call.1.Prescribed source (Scanner.lastSignificant earlier)) ∧
      Grammar.Passes source comments (Scanner.lastSignificant calls)
        (Scanner.reached start calls) source.length ∧
      ∀ pieces, Grammar.Reading source comments none start pieces ↔
        pieces = calls.map (·.1.piece) := by
  intro start
  have hsize : (SourceFile.fresh name base source.length).size = source.length := rfl
  obtain ⟨scanner, hstart, hstands, hoffset⟩ := Scanner.start_stands hsize
  have hbegin : scanner.offset = start := hoffset
  have hprevious : scanner.previous = .illegal := by
    rw [Except.ok.inj (hstart.symm.trans (Scanner.start_eq_ok hsize))]
  have hfollows : scanner.Follows source none := ⟨hstands, hprevious⟩
  obtain ⟨calls, last, htrace, hlast, hend, hfound, hrest, hreads⟩ := hfollows.trace comments
  simp only [Option.or_none, hbegin] at hfound hrest hreads
  refine ⟨by decide, by decide +kernel, scanner, calls, last, hstart, htrace, hlast, hend, hfound,
    hrest, fun pieces => ⟨fun hother => hother.unique hreads, ?_⟩⟩
  rintro rfl
  exact hreads

/-- A caret behind a name stands alone, for instance. One behind dots makes a character of the byte
behind it. Neither the mark at the beginning nor the comment is a piece. -/
theorem reading_with_carets :
    let source := Bytes.ofText "\uFEFFa^ \x7bb\x7d0..^z"
    let pieces : List Grammar.Piece :=
      [⟨.identifier, 3, [0x61]⟩, ⟨.operator .caret, 4, [0x5E]⟩, ⟨.integer, 9, [0x30]⟩,
        ⟨.operator .ellipsis, 10, [0x2E, 0x2E]⟩, ⟨.char, 12, [0x5E, 0x7A]⟩]
    Grammar.Reading source .skipped none 3 pieces ∧
    ∃ scanner calls last,
      Scanner.start (.fresh "m.pas" 1 source.length) source = .ok scanner ∧
      scanner.trace .skipped = calls ++ [last] ∧ last.1.token = .eof ∧
      calls.map (·.1.piece) = pieces := by
  intro source pieces
  obtain ⟨-, -, scanner, calls, last, hstart, htrace, hlast, -, -, -, hreading⟩ :=
    tokens_follow_grammar "m.pas" 1 source .skipped
  have hmark : [0xEF, 0xBB, 0xBF] <+: source := by decide +kernel
  have hpieces : ((scanner.trace .skipped).map (·.1.piece)).dropLast = pieces := by
    rw [Except.ok.inj (hstart.symm.trans (Scanner.start_eq_ok rfl))]
    decide +kernel
  rw [htrace, List.map_append, List.map_singleton, List.dropLast_concat] at hpieces
  simp only [if_pos hmark] at hreading
  exact ⟨(hreading pieces).2 hpieces.symm, scanner, calls, last, hstart, htrace, hlast, hpieces⟩

end PascalUnits
