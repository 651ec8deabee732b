import PascalUnits.Proofs.Literal
import PascalUnits.Proofs.Scan.Comments

/-!
# String literals encode and decode exactly

`Grammar.quoted characters` is how a string literal is written: its characters between quotes, with
every quote doubled. No two sequences of characters are written alike (`Grammar.quoted_injective`).
What a scanner reads before such a literal is the literal, whatever follows it
(`Scanner.next_of_quoted`). Conversely, a quotation that is closed is behind the characters of a
literal (`Lexeme.exists_of_closed`), so a call that hands out a token with a quote in front, and has
nothing to report, hands out a literal (`Scanner.encodes_next`). The main statement is
`string_literals_encode`.
-/

namespace PascalUnits

namespace Grammar

/-- A string literal: its characters between quotes, with every quote doubled. -/
def quoted (characters : Bytes) : Bytes :=
  Byte.quote :: (doubled characters ++ [Byte.quote])

example : quoted [0x49, 0x74, Byte.quote, 0x73] =
    [Byte.quote, 0x49, 0x74, Byte.quote, Byte.quote, 0x73, Byte.quote] := by decide

/-- No two sequences of characters are written alike. -/
theorem quoted_injective : Function.Injective quoted := by
  intro characters other h
  have hinside := congrArg Literal.quoted? (List.cons.inj h).2
  rw [Literal.quoted?_doubled, Literal.quoted?_doubled] at hinside
  exact Option.some.inj hinside

end Grammar

/-- A quotation that is closed is behind characters of one line. No quote follows it. -/
theorem Lexeme.exists_of_closed {bytes : Bytes} (h : (quotation bytes).closed) :
    ∃ characters rest, bytes = Grammar.doubled characters ++ [Byte.quote] ++ rest ∧
      Byte.lineFeed ∉ characters ∧ rest.head? ≠ some Byte.quote := by
  obtain ⟨characters, inside, rest, rfl, hquoted⟩ := Grammar.exists_quoted bytes
  cases hquoted with
  | closed hfeed hrest => exact ⟨characters, rest, rfl, hfeed, hrest⟩
  | unclosed hfeed hrest =>
      rw [Grammar.quotation_doubled hfeed, Grammar.quotation_of_lineEnd hrest] at h
      cases h

/-- A lexeme that begins with a quote and has nothing wrong is the literal of its characters. -/
theorem Lexeme.exists_of_faultless {previous : Token} {rest : Bytes}
    (h : (read previous Byte.quote rest).fault = none) :
    ∃ characters, Byte.lineFeed ∉ characters ∧
      (read previous Byte.quote rest).token =
        (if characters.length = 1 then .char else .string) ∧
      (Byte.quote :: rest).take (read previous Byte.quote rest).size =
        Grammar.quoted characters := by
  have hclosed : (quotation rest).closed := by
    by_contra hopen
    have hfault : (read previous Byte.quote rest).fault = some .openString := if_neg hopen
    rw [hfault] at h
    cases h
  obtain ⟨characters, behind, rfl, hfeed, hbehind⟩ := exists_of_closed hclosed
  refine ⟨characters, hfeed, ?_⟩
  rw [read_quoted previous hfeed hbehind]
  exact ⟨rfl, by rw [List.take_succ_cons, List.take_left, Grammar.quoted]⟩

/-- The text that goes with a token begins with the first byte of its lexeme. -/
theorem Token.head?_of_literal {token : Token} {text : Bytes} {byte : UInt8}
    (h : (token.literal text).head? = some byte) : text.head? = some byte := by
  cases token with
  | operator op => cases h
  | illegal | eof | comment | directive | identifier | integer | float | char | string | word =>
      exact h

/-- A token is the literal of these characters, which are all on one line. The literal of a single
one is a character. -/
structure Scanned.Encodes (found : Scanned) (characters : Bytes) : Prop where
  onLine : Byte.lineFeed ∉ characters
  literal : found.literal = Grammar.quoted characters
  kind : found.token = if characters.length = 1 then .char else .string

namespace Scanner

variable {scanner : Scanner}

/-- A literal is handed out whole and without a fault, unless a quote follows it. -/
theorem next_of_quoted (comments : Comments) {characters rest : Bytes}
    (hfeed : Byte.lineFeed ∉ characters) (hquote : rest.head? ≠ some Byte.quote)
    (hrest : scanner.rest = Grammar.quoted characters ++ rest) :
    (scanner.next comments).1.offset = scanner.offset ∧
      (scanner.next comments).1.diagnostics = [] ∧
      (scanner.next comments).1.Encodes characters := by
  obtain ⟨after, hnext, -⟩ :=
    next_of_read comments hrest (by decide) (by split <;> simp)
      (Lexeme.read_quoted scanner.previous hfeed hquote)
  rw [hnext]
  refine ⟨rfl, rfl, hfeed, ?_, rfl⟩
  show Token.literal _ _ = _
  split <;> rfl

/-- A quote in front of a token opens a string literal, which is closed if nothing is reported. -/
theorem encodes_next_kept (hquote : (scanner.next .kept).1.literal.head? = some Byte.quote)
    (hfaultless : (scanner.next .kept).1.diagnostics = []) :
    ∃ characters, (scanner.next .kept).1.Encodes characters := by
  cases hrest : scanner.skipBlanks.rest with
  | nil =>
      rw [next_of_nil hrest] at hquote
      cases hquote
  | cons first rest =>
      rw [next_kept_of_cons hrest] at hquote hfaultless ⊢
      obtain ⟨inside, htaken, -⟩ := taken_eq_cons hrest
      obtain rfl : first = Byte.quote := by
        have hhead := Token.head?_of_literal hquote
        rw [hrest] at hhead
        exact Option.some.inj ((congrArg List.head? htaken).symm.trans hhead)
      have hfault : (scanner.skipBlanks.lexeme Byte.quote rest).fault = none := by
        simpa [accept] using hfaultless
      obtain ⟨characters, hfeed, hkind, htake⟩ := Lexeme.exists_of_faultless hfault
      refine ⟨characters, hfeed, ?_, hkind⟩
      show (Lexeme.read _ _ _).token.literal (scanner.skipBlanks.rest.take _) = _
      rw [hrest, lexeme, htake, hkind]
      split <;> rfl

/-- Whether comments are kept or not, since a comment that is passed over reports nothing here. -/
theorem encodes_next (comments : Comments) (scanner : Scanner)
    (hquote : (scanner.next comments).1.literal.head? = some Byte.quote)
    (hfaultless : (scanner.next comments).1.diagnostics = []) :
    ∃ characters, (scanner.next comments).1.Encodes characters := by
  cases comments with
  | kept => exact encodes_next_kept hquote hfaultless
  | skipped =>
      induction scanner using kept_induction with
      | eof scanner heof hnext =>
          rw [hnext] at hquote hfaultless ⊢
          exact encodes_next_kept hquote hfaultless
      | comment scanner hcomment ih =>
          rw [next_skipped_of_comment hcomment] at hquote hfaultless ⊢
          obtain ⟨characters, h⟩ := ih hquote (List.append_eq_nil_iff.1 hfaultless).2
          exact ⟨characters, h.onLine, h.literal, h.kind⟩
      | other scanner heof hcomment hnext ih =>
          rw [hnext] at hquote hfaultless ⊢
          exact encodes_next_kept hquote hfaultless

end Scanner

/-- String literals encode and decode exactly, with comments or without them. A source that begins
with the literal of some characters of one line, and goes on with anything but a quote, has that
literal as its first token, whole and without a fault. Conversely, every token of a scan up to the
end of any source that begins with a quote, with nothing to report, is the literal of some
characters of one line, and of no others. The literal of a single one is a character, and that of
any other number is a string. -/
theorem string_literals_encode (name : String) (base : Nat) (comments : Comments) :
    (∀ characters text : Bytes, Byte.lineFeed ∉ characters → text.head? ≠ some Byte.quote →
      ∃ scanner, Scanner.start (.fresh name base (Grammar.quoted characters ++ text).length)
          (Grammar.quoted characters ++ text) = .ok scanner ∧
        (scanner.next comments).1.offset = 0 ∧ (scanner.next comments).1.diagnostics = [] ∧
        (scanner.next comments).1.Encodes characters) ∧
    ∀ source : Bytes, ∃ scanner,
      Scanner.start (.fresh name base source.length) source = .ok scanner ∧
      ∀ call ∈ scanner.trace comments, call.1.literal.head? = some Byte.quote →
        call.1.diagnostics = [] → ∃ characters, call.1.Encodes characters ∧
          ∀ other, call.1.literal = Grammar.quoted other → other = characters := by
  refine ⟨fun characters text hfeed hquote => ?_, fun source => ?_⟩
  · obtain ⟨scanner, hstart, hoffset, hrest⟩ :=
      Scanner.start_of_quote (show (SourceFile.fresh name base _).size = _ from rfl)
    have hnext := Scanner.next_of_quoted comments hfeed hquote hrest
    exact ⟨scanner, hstart, hoffset ▸ hnext⟩
  · obtain ⟨scanner, hstart, -⟩ := Scanner.start_stands
      (show (SourceFile.fresh name base source.length).size = source.length from rfl)
    refine ⟨scanner, hstart, fun call hcall hquote hfaultless => ?_⟩
    have hencodes : ∀ call ∈ scanner.trace comments, call.1.literal.head? = some Byte.quote →
        call.1.diagnostics = [] → ∃ characters, call.1.Encodes characters :=
      Scanner.forall_mem_trace (Scanner.encodes_next comments) scanner
    obtain ⟨characters, h⟩ := hencodes call hcall hquote hfaultless
    exact ⟨characters, h, fun other hother =>
      Grammar.quoted_injective (hother.symm.trans h.literal)⟩

/-- The characters `It's` before a semicolon, with comments passed over. -/
theorem string_literal_with_quote_encodes :
    Byte.lineFeed ∉ ([0x49, 0x74, Byte.quote, 0x73] : Bytes) ∧
    ([Byte.semicolon] : Bytes).head? ≠ some Byte.quote ∧
    ∃ scanner, Scanner.start (.fresh "a.pas" 0 8)
        (Grammar.quoted [0x49, 0x74, Byte.quote, 0x73] ++ [Byte.semicolon]) = .ok scanner ∧
      (scanner.next .skipped).1.offset = 0 ∧ (scanner.next .skipped).1.diagnostics = [] ∧
      (scanner.next .skipped).1.Encodes [0x49, 0x74, Byte.quote, 0x73] :=
  ⟨by decide, by decide, (string_literals_encode "a.pas" 0 .skipped).1
    [0x49, 0x74, Byte.quote, 0x73] [Byte.semicolon] (by decide) (by decide)⟩

end PascalUnits
