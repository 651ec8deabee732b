import PascalUnits.Proofs.Reader.Token
import PascalUnits.Proofs.Scan.GrammaticalRun
import PascalUnits.Proofs.Scan.Rescan

/-!
# The calls of a reader

In the place of a scanner, a call of a reader does what the call of the scanner does: it passes the
blanks, takes the lexeme behind them, and goes on behind a comment that is not handed out
(`scan_of_cons`). So by the recursion of the scanner the whole call agrees (`scan_beside`), and with
it any number of calls (`calls_beside`). Both start in the same place (`start_beside`).
-/

namespace PascalUnits

namespace Reader

variable {reader : Reader} {scanner : Scanner} {source : Bytes}

/-- A scanner that accepts a lexeme remembers its token besides. -/
theorem settled_taking (h : scanner.InFile reader.source) (lexeme : Lexeme) :
    (reader.taking scanner scanner.offset lexeme).settled =
      { token := (scanner.accept lexeme).1.token
        literal := (scanner.accept lexeme).1.literal
        after := (reader.telling (scanner.accept lexeme).1.diagnostics).beside
          (scanner.accept lexeme).2 } := by
  have hsize : scanner.offset + lexeme.size - scanner.offset = lexeme.size :=
    Nat.add_sub_cancel_left _ _
  have htext : (reader.source.take (scanner.advance lexeme.size).offset).drop scanner.offset =
      scanner.rest.take lexeme.size := drop_take_source h lexeme.size
  rw [taking, hsize, htext]
  by_cases htrivia : lexeme.token.isTrivia
  · simp [Taken.settled, Scanner.accept, htrivia, beside, Scanner.counting, Scanner.advance]
  · simp [Taken.settled, Scanner.accept, htrivia, beside, Scanner.counting, Scanner.advance]

theorem settled_of_trivia {taken : Taken} (h : taken.token.isTrivia) :
    taken.settled = taken :=
  if_pos h

/-- One round of a call: blanks, and what stands behind them. -/
theorem scan_eq (comments : Comments) (reader : Reader) :
    reader.scan comments = (do
      let begun := reader.passWhile Byte.isBlank
      let pos ← Checked.pos begun.file begun.offset
      match begun.current with
      | none =>
        return (pos, { token := .eof, literal := [], after := { begun with previous := .eof } })
      | some first =>
        match opens first begun.next.current with
        | none => return (pos, (← begun.lexeme first).settled)
        | some token => do
          let taken ← begun.next.comment token first
          if token = .comment ∧ comments = .skipped then taken.after.scan comments
          else return (pos, taken.settled)) := by
  rw [scan]
  refine bind_congr fun pos => ?_
  split
  · rename_i hnone
    simp only [hnone]
  · rename_i first hfirst
    simp only [hfirst]
    cases opens first (reader.passWhile Byte.isBlank).next.current with
    | none => rfl
    | some token =>
        dsimp only
        split
        · rename_i mishap hmishap
          rw [hmishap]
          rfl
        · rename_i taken htaken
          rw [htaken]
          rfl

section Steps

variable (h : scanner.InFile reader.source)

include h

theorem pos_beside :
    Checked.pos (reader.beside scanner).file (reader.beside scanner).offset =
      .ok (scanner.file.base + scanner.offset) :=
  Checked.pos_eq_ok (h.size_eq ▸ h.stands.offset_le)

/-- Blanks are passed first. -/
theorem passBlanks_beside :
    (reader.beside scanner).passWhile Byte.isBlank = reader.beside scanner.skipBlanks :=
  passWhile_beside h Byte.isBlank

/-- At the end of the source there is nothing but its end. -/
theorem scan_of_nil (comments : Comments) (hrest : scanner.skipBlanks.rest = []) :
    (reader.beside scanner).scan comments =
      .ok (scanner.skipBlanks.file.base + scanner.skipBlanks.offset,
        { token := .eof, literal := [],
          after := reader.beside { scanner.skipBlanks with previous := .eof } }) := by
  have hskip := h.skipBlanks
  have hnone : (reader.beside scanner.skipBlanks).current = none := congrArg List.head? hrest
  rw [scan_eq, passBlanks_beside h]
  simp only [pos_beside hskip, hnone]
  simp [beside, hrest, bind, Except.bind, pure, Except.pure]

section Cons

variable {first : UInt8} {rest : Bytes} (hrest : scanner.skipBlanks.rest = first :: rest)

include hrest

/-- A token of the language is handed out. -/
theorem scan_of_lexeme (comments : Comments) (hopens : opens first rest.head? = none) :
    (reader.beside scanner).scan comments =
      .ok (scanner.skipBlanks.file.base + scanner.skipBlanks.offset,
        (reader.taking scanner.skipBlanks scanner.skipBlanks.offset
          (scanner.skipBlanks.lexeme first rest)).settled) := by
  have hskip := h.skipBlanks
  have hlexeme := lexeme_beside hskip hrest hopens
  have hsecond := current_next_of_cons hskip hrest
  rw [scan_eq, passBlanks_beside h]
  simp only [pos_beside hskip, current_of_cons hrest, hsecond, hopens, hlexeme]
  rfl

/-- A comment or directive is handed out, or passed over. -/
theorem scan_of_opens (comments : Comments) {token : Token}
    (hopens : opens first rest.head? = some token) :
    (reader.beside scanner).scan comments =
      if token = .comment ∧ comments = .skipped then
        (reader.taking scanner.skipBlanks scanner.skipBlanks.offset
          (scanner.skipBlanks.lexeme first rest)).after.scan comments
      else
        .ok (scanner.skipBlanks.file.base + scanner.skipBlanks.offset,
          (reader.taking scanner.skipBlanks scanner.skipBlanks.offset
            (scanner.skipBlanks.lexeme first rest)).settled) := by
  have hskip := h.skipBlanks
  obtain ⟨-, -, hcomment⟩ := comment_beside_of_opens hskip hrest hopens
  have hsecond := current_next_of_cons hskip hrest
  rw [scan_eq, passBlanks_beside h]
  simp only [pos_beside hskip, current_of_cons hrest, hsecond, hopens, hcomment]
  rfl

end Cons

end Steps

/-- Reports add up. -/
theorem telling_telling (reader : Reader) (first second : List Diagnostic) :
    (reader.telling first).telling second = reader.telling (first ++ second) := by
  unfold telling
  cases hreports : reader.reports <;> simp

/-- A call of a scanner as the call of a reader that is in its place. -/
def handing (reader : Reader) (call : Scanned × Scanner) : Nat × Taken :=
  (call.2.file.base + call.1.offset,
    { token := call.1.token
      literal := call.1.literal
      after := (reader.telling call.1.diagnostics).beside call.2 })

/-- Faults that are met before a call are reported before those of the call. -/
theorem handing_telling (reader : Reader) (before : List Diagnostic) (call : Scanned × Scanner) :
    (reader.telling before).handing call = reader.handing (Scanner.reporting before call) := by
  rw [handing, telling_telling]
  rfl

/-- A reader goes on behind a comment that is passed over, and hands out everything else. -/
theorem scan_of_cons {first : UInt8} {rest : Bytes} (h : scanner.InFile reader.source)
    (hrest : scanner.skipBlanks.rest = first :: rest) (comments : Comments) :
    (reader.beside scanner).scan comments =
      let found := scanner.skipBlanks.accept (scanner.skipBlanks.lexeme first rest)
      if found.1.token = .comment ∧ comments = .skipped then
        ((reader.telling found.1.diagnostics).beside found.2).scan comments
      else .ok (reader.handing found) := by
  have hskip := h.skipBlanks
  have hsettled := settled_taking hskip (scanner.skipBlanks.lexeme first rest)
  have hbase : (scanner.skipBlanks.accept (scanner.skipBlanks.lexeme first rest)).2.file.base =
      scanner.skipBlanks.file.base := SourceFile.base_addLines _ _ _
  have hhanding : .ok (reader.handing
      (scanner.skipBlanks.accept (scanner.skipBlanks.lexeme first rest))) =
        (.ok (scanner.skipBlanks.file.base + scanner.skipBlanks.offset,
          (reader.taking scanner.skipBlanks scanner.skipBlanks.offset
            (scanner.skipBlanks.lexeme first rest)).settled) : Except Mishap (Nat × Taken)) := by
    rw [handing, hbase, hsettled]
    rfl
  simp only [hhanding]
  cases hopens : opens first rest.head? with
  | none =>
      rw [scan_of_lexeme h hrest comments hopens, if_neg]
      exact fun hcomment => Lexeme.token_ne_comment hopens _ hcomment.1
  | some token =>
      obtain ⟨htoken, htrivia, -⟩ := comment_beside_of_opens hskip hrest hopens
      have htoken' : (scanner.skipBlanks.accept (scanner.skipBlanks.lexeme first rest)).1.token =
        token := htoken
      rw [scan_of_opens h hrest comments hopens, htoken', hsettled]
      have hafter := congrArg Taken.after hsettled
      rw [settled_of_trivia (show (Lexeme.read _ _ _).token.isTrivia by rw [htoken]; exact htrivia)]
        at hafter
      rw [hafter]

/-- A call gives what the call of a scanner gives, and leads to the place of the scanner after
it. -/
theorem scan_beside (h : scanner.InFile reader.source) (comments : Comments) :
    (reader.beside scanner).scan comments = .ok (reader.handing (scanner.next comments)) := by
  fun_induction Scanner.next comments scanner generalizing reader with
  | case1 scanner hrest =>
      rw [scan_of_nil h comments hrest, handing, telling_nil]
  | case2 scanner first rest hrest found hskipped following =>
      rename_i ih
      have hfound : found.2.InFile reader.source :=
        h.skipBlanks.accept (hrest ▸ Lexeme.read_size_le _ _ _)
      have hbehind : ((reader.telling found.1.diagnostics).beside found.2).scan comments =
          .ok ((reader.telling found.1.diagnostics).handing following) := ih hfound
      rw [scan_of_cons h hrest]
      refine (if_pos hskipped).trans (hbehind.trans ?_)
      rw [handing_telling]
      rfl
  | case3 scanner first rest hrest found =>
      rename_i hkept
      rw [scan_of_cons h hrest]
      exact if_neg hkept

/-- A file stays where it is in the address space. -/
theorem base_next (comments : Comments) (scanner : Scanner) :
    (scanner.next comments).2.file.base = scanner.file.base := by
  fun_induction Scanner.next comments scanner with
  | case1 scanner hrest => exact SourceFile.base_addLines _ _ _
  | case2 scanner first rest hrest found hskipped following ih =>
      exact ih.trans ((SourceFile.base_addLines _ _ _).trans (SourceFile.base_addLines _ _ _))
  | case3 scanner first rest hrest found hkept =>
      exact (SourceFile.base_addLines _ _ _).trans (SourceFile.base_addLines _ _ _)

/-- So do any number of calls. -/
theorem calls_beside (h : scanner.InFile reader.source) (comments : Comments) (count : Nat) :
    (reader.beside scanner).calls comments count =
      .ok ((scanner.calls comments count).1.map fun call =>
          (scanner.file.base + call.1.offset, call.1.token, call.1.literal),
        (reader.telling (Scanner.faults (scanner.calls comments count).1)).beside
          (scanner.calls comments count).2) := by
  induction count generalizing reader scanner with
  | zero =>
      rw [Scanner.calls, Scanner.faults, List.flatMap_nil, telling_nil]
      rfl
  | succ count ih =>
      have hcall := scan_beside h comments
      have hbase : (scanner.next comments).2.file.base = scanner.file.base := base_next _ _
      have hlater : ((reader.telling (scanner.next comments).1.diagnostics).beside
          (scanner.next comments).2).calls comments count = _ := ih (h.next comments)
      rw [telling_telling, hbase] at hlater
      rw [calls, hcall]
      show (calls comments count ((reader.telling _).beside _) >>= _) = _
      rw [hlater, Scanner.calls]
      show Except.ok (_ :: _, _) = _
      rw [hbase]
      rfl

/-- The first step leads to the beginning of the source. -/
theorem outside_next (file : SourceFile) (source : Bytes) (reports : Bool) :
    (outside file source reports).next =
      (outside file source reports).beside { file, offset := 0, rest := source } := by
  have hspace : Byte.space ≠ Byte.lineFeed := by decide
  cases source <;> simp [outside, next, lined, beside, hspace]

/-- Three bytes are passed one by one. -/
theorem next_next_next_beside (h : scanner.InFile reader.source) {first second third : UInt8}
    {rest : Bytes} (hrest : scanner.rest = first :: second :: third :: rest) :
    (reader.beside scanner).next.next.next = reader.beside (scanner.advance 3) := by
  have hone := rest_advance_one hrest
  have htwo := rest_advance_one hone
  have hinFile := inFile_advance_one h hrest
  rw [next_of_cons h hrest, next_of_cons hinFile hone,
    next_of_cons (inFile_advance_one hinFile hone) htwo, advance_one_advance hone,
    advance_one_advance hrest]

/-- A reader starts where a scanner does. -/
theorem start_beside {file : SourceFile} (hsize : file.size = source.length) (htabled : file.Tabled)
    (reports : Bool) :
    ∃ scanner, Scanner.start file source = .ok scanner ∧ scanner.InFile source ∧
      start file source reports = .ok ((outside file source reports).beside scanner) := by
  have hfirst : ({ file, offset := 0, rest := source } : Scanner).InFile source :=
    ⟨⟨Nat.zero_le _, rfl⟩, hsize, htabled⟩
  rw [Scanner.start, if_pos hsize, start, if_pos hsize]
  simp only [outside_next]
  by_cases hmark : Scanner.byteOrderMark.isPrefixOf source
  · rw [if_pos hmark, if_pos hmark]
    obtain ⟨rest, hsource⟩ := List.isPrefixOf_iff_prefix.1 hmark
    have hthree : 3 ≤ source.length := (List.isPrefixOf_iff_prefix.1 hmark).length_le
    have hnext := @next_next_next_beside (outside file source reports) _ hfirst _ _ _ rest
      hsource.symm
    -- the mark has no line feed in it
    have hlines : file.addLines 0 (source.take 3) = file := by
      rw [← hsource]
      rfl
    have hmoved : ({ file, offset := 0, rest := source } : Scanner).advance 3 =
        { file, offset := 3, rest := source.drop 3 } := by
      rw [Scanner.advance, hlines]
    rw [hmoved] at hnext
    exact ⟨_, rfl, hmoved ▸ hfirst.advance hthree, congrArg _ hnext⟩
  · rw [if_neg hmark, if_neg hmark]
    exact ⟨_, rfl, hfirst, rfl⟩

end Reader

end PascalUnits
