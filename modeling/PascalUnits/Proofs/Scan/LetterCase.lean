import PascalUnits.Proofs.Scan.Lookahead
import PascalUnits.Proofs.Scan.View
import PascalUnits.Proofs.Scan.Call
import PascalUnits.Proofs.Text.LetterCase

/-!
# Letter case in a scan

A lexeme has the same token, size and fault in lower case (`Lexeme.read_lower`). So scanners in a
text in lower case hand out the same tokens and faults in the same places, with their text in lower
case (`Scanner.inLowerCase_lawful`), and a scan delivers the tokens in lower case
(`delivered_lower`). Two sources that are the same in lower case have one scanner there, so their
scans differ in the text alone. The main statement is `trace_ignores_letter_case`.
-/

namespace PascalUnits

namespace Lexeme

variable {accept : UInt8 → Bool}

theorem takeWhile_lower (haccept : ∀ byte, accept (Byte.lower byte) = accept byte)
    (bytes : Bytes) :
    (Bytes.lower bytes).takeWhile accept = Bytes.lower (bytes.takeWhile accept) := by
  have hcomp : accept ∘ Byte.lower = accept := funext haccept
  rw [show Bytes.lower bytes = bytes.map Byte.lower from rfl, List.takeWhile_map, hcomp]
  rfl

theorem run_lower (haccept : ∀ byte, accept (Byte.lower byte) = accept byte) (bytes : Bytes) :
    run accept (Bytes.lower bytes) = run accept bytes := by
  rw [run, run, takeWhile_lower haccept, Bytes.length_lower]

/-- A word is the same one in lower case. -/
theorem word_lower (first : UInt8) (rest : Bytes) :
    word (Byte.lower first) (Bytes.lower rest) = word first rest := by
  have hname : ∀ bytes, Token.ofName (Bytes.latin (Bytes.lower bytes)) =
      Token.ofName (Bytes.latin bytes) := by
    intro bytes
    rw [Token.ofName, Token.ofName, Word.ofName?, Word.ofName?, Bytes.latin_lower]
    simp only [Text.lower_lower]
  simp only [word, takeWhile_lower Byte.isWordByte_lower, ← Bytes.lower_cons, Bytes.length_lower,
    hname]

theorem fraction_lower (bytes : Bytes) : fraction (Bytes.lower bytes) = fraction bytes := by
  cases bytes with
  | nil => rfl
  | cons byte bytes =>
      have hperiod : Byte.lower byte = Byte.period ↔ byte = Byte.period :=
        Byte.lower_eq_iff (by decide)
      rw [Bytes.lower_cons, fraction_cons, fraction_cons, run_lower Byte.isDigit_lower]
      simp only [hperiod]

theorem sign_lower (bytes : Bytes) : sign (Bytes.lower bytes) = sign bytes := by
  cases bytes with
  | nil => rfl
  | cons byte bytes =>
      have hplus : Byte.lower byte = Byte.plus ↔ byte = Byte.plus := Byte.lower_eq_iff (by decide)
      have hminus : Byte.lower byte = Byte.minus ↔ byte = Byte.minus :=
        Byte.lower_eq_iff (by decide)
      simp only [Bytes.lower_cons, sign, hplus, hminus]

theorem exponent_lower (bytes : Bytes) : exponent (Bytes.lower bytes) = exponent bytes := by
  cases bytes with
  | nil => rfl
  | cons byte bytes =>
      simp only [Bytes.lower_cons, exponent, Byte.isExponentMark_lower, sign_lower,
        Bytes.drop_lower, run_lower Byte.isDigit_lower]

theorem decimal_lower (rest : Bytes) : decimal (Bytes.lower rest) = decimal rest := by
  simp only [decimal, run_lower Byte.isDigit_lower, Bytes.drop_lower, fraction_lower,
    exponent_lower]

theorem quotation_lower (bytes : Bytes) : quotation (Bytes.lower bytes) = quotation bytes := by
  fun_induction quotation bytes with
  | case1 => rfl
  | case2 rest inside ih =>
      simp only [inside, ← ih]
      rfl
  | case3 rest hsingle =>
      refine quotation_quote fun hlower => ?_
      have hquote := (Bytes.head?_lower_eq_iff (by decide) rest).1 hlower
      obtain ⟨after, rfl⟩ := List.head?_eq_some_iff.1 hquote
      exact hsingle after rfl
  | case4 rest _ _ => rfl
  | case5 byte rest hdouble hquote hfeed inside ih =>
      have hquoteLower : Byte.lower byte ≠ Byte.quote :=
        mt (Byte.lower_eq_iff (by decide)).1 hquote
      have hfeedLower : Byte.lower byte ≠ Byte.lineFeed :=
        mt (Byte.lower_eq_iff (by decide)).1 hfeed
      rw [Bytes.lower_cons, quotation_cons hquoteLower hfeedLower, ih]

theorem numbered_lower (rest : Bytes) : numbered (Bytes.lower rest) = numbered rest := by
  by_cases hdollar : rest.head? = some Byte.dollar
  · obtain ⟨digits, rfl⟩ := List.head?_eq_some_iff.1 hdollar
    rw [show Bytes.lower (Byte.dollar :: digits) = Byte.dollar :: Bytes.lower digits from rfl,
      numbered_dollar, numbered_dollar, run_lower Byte.isHexDigit_lower]
  · have hlower : (Bytes.lower rest).head? ≠ some Byte.dollar :=
      mt (Bytes.head?_lower_eq_iff (by decide) rest).1 hdollar
    rw [numbered_of_ne hdollar, numbered_of_ne hlower, run_lower Byte.isDigit_lower]

theorem beginsTypeName_lower (bytes : Bytes) :
    beginsTypeName (Bytes.lower bytes) = beginsTypeName bytes := by
  match bytes with
  | [] | [_] => rfl
  | first :: second :: _ =>
      simp only [Bytes.lower_cons, beginsTypeName, Byte.isLetter_lower, Byte.isWordByte_lower]

theorem caret_lower (previous : Token) (rest : Bytes) :
    caret previous (Bytes.lower rest) = caret previous rest := by
  simp only [caret, beginsTypeName_lower, Bytes.take_lower, Bytes.length_lower]

theorem pastBrace?_lower (bytes : Bytes) : pastBrace? (Bytes.lower bytes) = pastBrace? bytes := by
  induction bytes with
  | nil => rfl
  | cons byte bytes ih =>
      have hbrace : Byte.lower byte = Byte.rightBrace ↔ byte = Byte.rightBrace :=
        Byte.lower_eq_iff (by decide)
      simp only [Bytes.lower_cons, pastBrace?, hbrace, ih]

theorem pastStar?_lower (bytes : Bytes) : pastStar? (Bytes.lower bytes) = pastStar? bytes := by
  fun_induction pastStar? bytes with
  | case1 => rfl
  | case2 => rfl
  | case3 byte rest hopen ih =>
      rw [Bytes.lower_cons, pastStar?, ih]
      intro after hstar hparen
      have hhead := (Bytes.head?_lower_eq_iff (by decide) rest).1 (congrArg List.head? hparen)
      obtain ⟨tail, htail⟩ := List.head?_eq_some_iff.1 hhead
      exact hopen tail ((Byte.lower_eq_iff (by decide)).1 hstar) htail

theorem braced_lower (rest : Bytes) : braced (Bytes.lower rest) = braced rest := by
  simp only [braced, Bytes.head?_lower_eq_iff (show Byte.isLetter Byte.dollar = false by decide),
    block, pastBrace?_lower, Bytes.length_lower]

theorem parenthesis_lower (rest : Bytes) : parenthesis (Bytes.lower rest) = parenthesis rest := by
  by_cases hstar : rest.head? = some Byte.star
  · obtain ⟨inside, rfl⟩ := List.head?_eq_some_iff.1 hstar
    show block .comment 2 (Bytes.lower inside) (pastStar? (Bytes.lower inside)) =
      block .comment 2 inside (pastStar? inside)
    simp only [block, pastStar?_lower, Bytes.length_lower]
  · rw [parenthesis_of_ne hstar,
      parenthesis_of_ne (mt (Bytes.head?_lower_eq_iff (by decide) rest).1 hstar)]

theorem slash_lower (rest : Bytes) : slash (Bytes.lower rest) = slash rest := by
  by_cases hslash : rest.head? = some Byte.slash
  · obtain ⟨inside, rfl⟩ := List.head?_eq_some_iff.1 hslash
    have hfeed : ∀ byte, (Byte.lower byte != Byte.lineFeed) = (byte != Byte.lineFeed) := by
      intro byte
      simp only [bne, Bool.beq_eq_decide_eq,
        Byte.lower_eq_iff (show Byte.isLetter Byte.lineFeed = false by decide)]
    show { token := .comment, size := 2 + run (· != Byte.lineFeed) (Bytes.lower inside) } =
      ({ token := .comment, size := 2 + run (· != Byte.lineFeed) inside } : Lexeme)
    rw [run_lower hfeed]
  · rw [slash_of_ne hslash, slash_of_ne (mt (Bytes.head?_lower_eq_iff (by decide) rest).1 hslash)]

/-- No operator has a letter as its second byte. -/
theorem lookup_lower {first : UInt8} {alone : Operator} {longer : List (UInt8 × Operator)}
    (h : operators first = some (alone, longer)) (second : UInt8) :
    longer.lookup (Byte.lower second) = longer.lookup second := by
  have hentries : ∀ entry ∈ longer, Byte.isLetter entry.1 = false := by
    unfold operators at h
    split at h <;> cases h <;> decide
  clear h
  induction longer with
  | nil => rfl
  | cons entry longer ih =>
      obtain ⟨hentry, hlonger⟩ := List.forall_mem_cons.1 hentries
      have hsecond : (Byte.lower second == entry.1) = (second == entry.1) := by
        simp only [Bool.beq_eq_decide_eq, Byte.lower_eq_iff hentry]
      rw [List.lookup_cons, List.lookup_cons, hsecond, ih hlonger]

theorem operator_lower (first : UInt8) (rest : Bytes) :
    operator first (Bytes.lower rest) = operator first rest := by
  cases hoperators : operators first with
  | none => simp only [operator, hoperators]
  | some found =>
      obtain ⟨alone, longer⟩ := found
      cases rest with
      | nil => rfl
      | cons second rest =>
          simp only [operator, hoperators, Bytes.lower_cons, List.head?_cons, Option.bind_some,
            lookup_lower hoperators]

/-- A lexeme that begins with neither a letter nor a digit is the same in lower case. -/
theorem symbol_lower (previous : Token) (first : UInt8) (rest : Bytes) :
    symbol previous first (Bytes.lower rest) = symbol previous first rest := by
  unfold symbol
  split
  · simp only [hexadecimal, run_lower Byte.isHexDigit_lower]
  · simp only [string, quotation_lower]
  · exact numbered_lower rest
  · exact caret_lower previous rest
  · exact braced_lower rest
  · exact parenthesis_lower rest
  · exact slash_lower rest
  · exact operator_lower _ rest

/-- A lexeme is the same in lower case. -/
theorem read_lower (previous : Token) (first : UInt8) (rest : Bytes) :
    read previous (Byte.lower first) (Bytes.lower rest) = read previous first rest := by
  rw [read, read, Byte.isLetter_lower, Byte.isDigit_lower, word_lower, decimal_lower,
    symbol_lower]
  split
  · rfl
  · rename_i hletter
    rw [Byte.lower_of_isLetter_eq_false first (Bool.eq_false_iff.2 hletter)]

end Lexeme

/-- Lines begin in the same places in lower case. -/
theorem SourceFile.addLines_lower (file : SourceFile) (offset : Nat) (text : Bytes) :
    file.addLines offset (Bytes.lower text) = file.addLines offset text := by
  induction text generalizing file offset with
  | nil => rfl
  | cons byte text ih =>
      have hfeed : Byte.lower byte = Byte.lineFeed ↔ byte = Byte.lineFeed :=
        Byte.lower_eq_iff (by decide)
      simp only [Bytes.lower_cons, addLines, hfeed, ih]

namespace Scanner

/-- A scanner in the same place, where the text is in lower case. -/
def lowered (scanner : Scanner) : Scanner :=
  { scanner with rest := Bytes.lower scanner.rest }

/-- Scanners where the text is in lower case. -/
def inLowerCase : View :=
  { scanner := lowered, literal := Bytes.lower }

theorem advance_lowered (scanner : Scanner) (size : Nat) :
    scanner.lowered.advance size = (scanner.advance size).lowered := by
  simp only [advance, lowered, Bytes.take_lower, Bytes.drop_lower, SourceFile.addLines_lower]

theorem skipBlanks_lowered (scanner : Scanner) :
    scanner.lowered.skipBlanks = scanner.skipBlanks.lowered := by
  rw [skipBlanks, advance_lowered]
  show (scanner.advance (Lexeme.run Byte.isBlank (Bytes.lower scanner.rest))).lowered = _
  rw [Lexeme.run_lower Byte.isBlank_lower]
  rfl

theorem accept_lowered (scanner : Scanner) (lexeme : Lexeme) :
    scanner.lowered.accept lexeme = inLowerCase.call (scanner.accept lexeme) := by
  have hliteral : lexeme.token.literal ((Bytes.lower scanner.rest).take lexeme.size) =
      Bytes.lower (lexeme.token.literal (scanner.rest.take lexeme.size)) := by
    rw [Bytes.take_lower]
    unfold Token.literal
    split <;> rfl
  simp only [accept, advance_lowered, View.call, inLowerCase, List.map_id]
  rw [show scanner.lowered.rest = Bytes.lower scanner.rest from rfl, hliteral]
  rfl

/-- The same is handed out in lower case. -/
theorem inLowerCase_lawful : inLowerCase.Lawful where
  next_kept scanner := by
    show scanner.lowered.next .kept = inLowerCase.call (scanner.next .kept)
    cases hrest : scanner.skipBlanks.rest with
    | nil =>
        have hlowered : scanner.lowered.skipBlanks.rest = [] := by
          rw [skipBlanks_lowered, lowered, hrest]
          rfl
        rw [next_of_nil hrest, next_of_nil hlowered, skipBlanks_lowered]
        rfl
    | cons first rest =>
        have hlowered : scanner.lowered.skipBlanks.rest = Byte.lower first :: Bytes.lower rest := by
          rw [skipBlanks_lowered, lowered, hrest]
          rfl
        rw [next_kept_of_cons hrest, next_kept_of_cons hlowered, skipBlanks_lowered,
          accept_lowered]
        show inLowerCase.call (scanner.skipBlanks.accept
          (Lexeme.read scanner.skipBlanks.previous (Byte.lower first) (Bytes.lower rest))) = _
        rw [Lexeme.read_lower]
        rfl
  errorCount_eq _ := rfl

/-- A scan begins in the same place in lower case. -/
theorem start_lower {scanner : Scanner} {file : SourceFile} {source : Bytes}
    (h : Scanner.start file source = .ok scanner) :
    Scanner.start file (Bytes.lower source) = .ok scanner.lowered := by
  have hmark : byteOrderMark <+: Bytes.lower source ↔ byteOrderMark <+: source :=
    Bytes.prefix_lower_iff (by decide +kernel) source
  have hsize : file.size = source.length := by
    by_contra hsize
    simp [Scanner.start, hsize] at h
  rw [start_eq_ok hsize] at h
  rw [start_eq_ok (hsize.trans (Bytes.length_lower source).symm), ← Except.ok.inj h]
  simp only [hmark, lowered, Bytes.drop_lower]

end Scanner

/-- A scan delivers the same tokens in lower case. -/
theorem delivered_lower (source : Bytes) :
    delivered (Bytes.lower source) =
      (delivered source).map fun found => (found.1, Bytes.lower found.2) := by
  obtain ⟨scanner, hstart, hdelivered⟩ := delivered_eq source
  obtain ⟨other, hother, hlower⟩ := delivered_eq (Bytes.lower source)
  rw [Bytes.length_lower, Scanner.start_lower hstart] at hother
  obtain rfl := Except.ok.inj hother
  have hcalls : tolerated (scanner.lowered.trace .skipped) =
      (tolerated (scanner.trace .skipped)).map Scanner.inLowerCase.call :=
    Scanner.inLowerCase_lawful.tolerated .skipped scanner
  rw [hlower, hdelivered, hcalls, List.map_map, List.map_map]
  rfl

namespace Scanner

/-- Two calls hand out the same in the same place, but for the letter case of the text. -/
structure SameIgnoringCase (call other : Scanned × Scanner) : Prop where
  offset_eq : call.1.offset = other.1.offset
  position_eq : (call.2.placed call.1).position = (other.2.placed other.1).position
  token_eq : call.1.token = other.1.token
  literal_eq : Bytes.lower call.1.literal = Bytes.lower other.1.literal
  diagnostics_eq : call.1.diagnostics = other.1.diagnostics

/-- Calls that are the same where the text is in lower case. -/
theorem SameIgnoringCase.of_inLowerCase {call other : Scanned × Scanner}
    (h : inLowerCase.call call = inLowerCase.call other) : SameIgnoringCase call other := by
  have hfile : call.2.file = other.2.file := congrArg (fun call => call.2.file) h
  have hoffset : call.1.offset = other.1.offset := congrArg (fun call => call.1.offset) h
  refine ⟨hoffset, ?_, congrArg (fun call => call.1.token) h,
    congrArg (fun call => call.1.literal) h, ?_⟩
  · simp only [placed, hfile, hoffset]
  · simpa [View.call, inLowerCase] using congrArg (fun call => call.1.diagnostics) h

/-- Such calls report the same faults, one after the other. -/
theorem faults_eq_of_sameIgnoringCase {calls others : List (Scanned × Scanner)}
    (h : List.Forall₂ SameIgnoringCase calls others) : faults calls = faults others := by
  induction h with
  | nil => rfl
  | cons hcall _ ih =>
      simp only [faults, List.flatMap_cons, hcall.diagnostics_eq] at ih ⊢
      rw [ih]

end Scanner

/-- Letter case does not matter to a scan but in the text that it hands out. For any two sources
that are the same in lower case, with comments or without them, the scans up to the end hand out as
many tokens, one by one of the same kind in the same place and with the same text in lower case;
they report the same faults, count as many of them, and find the same lines. -/
theorem trace_ignores_letter_case (name : String) (base : Nat) {source other : Bytes}
    (h : Bytes.lower source = Bytes.lower other) (comments : Comments) :
    ∃ scanner counterpart : Scanner,
      Scanner.start (.fresh name base source.length) source = .ok scanner ∧
      Scanner.start (.fresh name base other.length) other = .ok counterpart ∧
      List.Forall₂ Scanner.SameIgnoringCase (scanner.trace comments)
        (counterpart.trace comments) ∧
      Scanner.faults (scanner.trace comments) = Scanner.faults (counterpart.trace comments) ∧
      (scanner.atEnd comments).errorCount = (counterpart.atEnd comments).errorCount ∧
      (scanner.atEnd comments).file.lineTable = (counterpart.atEnd comments).file.lineTable := by
  have hlength : source.length = other.length := by
    rw [← Bytes.length_lower source, h, Bytes.length_lower]
  obtain ⟨scanner, hstart, -⟩ :=
    Scanner.start_stands (show (SourceFile.fresh name base source.length).size = source.length
      from rfl)
  obtain ⟨counterpart, hcounterpart, -⟩ :=
    Scanner.start_stands (show (SourceFile.fresh name base other.length).size = other.length
      from rfl)
  -- in lower case they are one scanner
  have hsame : Scanner.inLowerCase.scanner scanner = Scanner.inLowerCase.scanner counterpart := by
    have hlower := Scanner.start_lower hstart
    have hlower' := Scanner.start_lower hcounterpart
    rw [h, hlength, hlower'] at hlower
    exact (Except.ok.inj hlower).symm
  have htrace : (scanner.trace comments).map Scanner.inLowerCase.call =
      (counterpart.trace comments).map Scanner.inLowerCase.call := by
    rw [← Scanner.inLowerCase_lawful.trace, hsame, Scanner.inLowerCase_lawful.trace]
  have hend : Scanner.inLowerCase.scanner (scanner.atEnd comments) =
      Scanner.inLowerCase.scanner (counterpart.atEnd comments) := by
    rw [← Scanner.inLowerCase_lawful.atEnd, hsame, Scanner.inLowerCase_lawful.atEnd]
  have hcalls : List.Forall₂ Scanner.SameIgnoringCase (scanner.trace comments)
      (counterpart.trace comments) := by
    rw [← List.forall₂_eq_eq_eq, List.forall₂_map_left_iff, List.forall₂_map_right_iff] at htrace
    exact htrace.imp fun _ _ => Scanner.SameIgnoringCase.of_inLowerCase
  exact ⟨scanner, counterpart, hstart, hcounterpart, hcalls,
    Scanner.faults_eq_of_sameIgnoringCase hcalls,
    congrArg (fun scanner => scanner.errorCount) hend,
    congrArg (fun scanner => scanner.file.lineTable) hend⟩

/-- A source with words, numbers, a control character, a directive and faults in upper case, for
instance. -/
theorem trace_of_upper_case :
    let source := Bytes.ofText "begin x := $fF + 1e5; y := ^c; \x7b$i a.inc\x7d ! #$q"
    let other := Bytes.ofText "BEGIN X := $Ff + 1E5; Y := ^C; \x7b$I A.INC\x7d ! #$Q"
    Bytes.lower source = Bytes.lower other ∧ source ≠ other ∧
    ∃ scanner counterpart : Scanner,
      Scanner.start (.fresh "a.pas" 1 source.length) source = .ok scanner ∧
      Scanner.start (.fresh "a.pas" 1 other.length) other = .ok counterpart ∧
      List.Forall₂ Scanner.SameIgnoringCase (scanner.trace .kept) (counterpart.trace .kept) ∧
      Scanner.faults (scanner.trace .kept) = Scanner.faults (counterpart.trace .kept) ∧
      (scanner.atEnd .kept).errorCount = (counterpart.atEnd .kept).errorCount ∧
      (scanner.atEnd .kept).file.lineTable = (counterpart.atEnd .kept).file.lineTable := by
  intro source other
  have hlower : Bytes.lower source = Bytes.lower other := by decide +kernel
  exact ⟨hlower, by decide +kernel, trace_ignores_letter_case "a.pas" 1 hlower .kept⟩

end PascalUnits
