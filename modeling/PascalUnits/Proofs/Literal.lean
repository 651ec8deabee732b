import PascalUnits.Literal
import PascalUnits.Proofs.Scan.Call
import PascalUnits.Proofs.Scan.LongestMatch
import PascalUnits.Proofs.Text.Bytes

/-!
# A literal reads back as its text

`Literal.denoted?` says which bytes a token of a string literal stands for, independently of how the
literal was written. A scanner before `Literal.ofText text` reads a quotation up to the first byte
that is written by its number, then that number, and is before a literal for the bytes behind it
(`Scanner.next_plain`, `Scanner.next_number`). So the induction goes over the bytes that are written
by their numbers (`Scanner.trace_spelled`). The main statement is `literal_reads_back`.
-/

namespace PascalUnits

namespace Literal

/-- The characters of a quotation behind its opening quote, each doubled quote halved. -/
def quoted? : Bytes → Option Bytes
  | [Byte.quote] => some []
  | Byte.quote :: Byte.quote :: rest => (quoted? rest).map (Byte.quote :: ·)
  | byte :: rest => if byte = Byte.quote then none else (quoted? rest).map (byte :: ·)
  | [] => none

/-- The value of a hexadecimal digit. -/
def digitValue? (digit : UInt8) : Option UInt8 :=
  if 0x30 ≤ digit ∧ digit ≤ 0x39 then some (digit - 0x30)
  else if 0x41 ≤ digit ∧ digit ≤ 0x46 then some (digit - 0x37)
  else if 0x61 ≤ digit ∧ digit ≤ 0x66 then some (digit - 0x57)
  else none

/-- The bytes that a token of a literal stands for: what is between its quotes, or the byte with the
two digits of its number. -/
def denoted? : Bytes → Option Bytes
  | Byte.quote :: inside => quoted? inside
  | [Byte.hash, Byte.dollar, high, low] => do
    return [16 * (← digitValue? high) + (← digitValue? low)]
  | _ => none

/-- Calls that hand out strings and characters without a fault, which stand for `bytes` together. -/
structure Denotes (calls : List (Scanned × Scanner)) (bytes : Bytes) : Prop where
  literal : ∀ call ∈ calls, call.1.token = .string ∨ call.1.token = .char
  faultless : ∀ call ∈ calls, call.1.diagnostics = []
  denoted : (calls.mapM fun call => denoted? call.1.literal).map List.flatten = some bytes

/-- The digit for the low four bits as a byte. -/
def digit (value : UInt8) : UInt8 :=
  (Byte.hexDigit value).toUInt8

/-- How a byte is written inside a literal. -/
def spelledByte (byte : UInt8) : Bytes :=
  if needsNumber byte then
    [Byte.quote, Byte.hash, Byte.dollar, digit (byte / 16), digit byte, Byte.quote]
  else
    [byte]

/-- What follows the opening quote of a literal. -/
def spelled (bytes : Bytes) : Bytes :=
  bytes.flatMap spelledByte ++ [Byte.quote]

theorem mem_hexDigits (value : UInt8) :
    Byte.hexDigit value ∈ "0123456789ABCDEF".toList := by
  have hall : ∀ low < 16, (Nat.digitChar low).toUpper ∈ "0123456789ABCDEF".toList := by decide
  exact hall _ (Nat.mod_lt _ (by decide))

theorem utf8_hexDigit (value : UInt8) :
    String.utf8EncodeChar (Byte.hexDigit value) = [digit value] := by
  have hall : "0123456789ABCDEF".toList.all fun char =>
      String.utf8EncodeChar char == [char.toUInt8] := by decide
  exact beq_iff_eq.1 (List.all_eq_true.1 hall _ (mem_hexDigits value))

theorem isHexDigit_digit (value : UInt8) : Byte.isHexDigit (digit value) := by
  have hall : "0123456789ABCDEF".toList.all fun char => Byte.isHexDigit char.toUInt8 := by decide
  exact List.all_eq_true.1 hall _ (mem_hexDigits value)

/-- A digit has the value of the low four bits that it was made of. -/
theorem digitValue?_digit (value : UInt8) : digitValue? (digit value) = some (value % 16) := by
  have hall : ∀ low < 16,
      digitValue? (Nat.digitChar low).toUpper.toUInt8 = some (UInt8.ofNat low) := by decide
  rw [digit, Byte.hexDigit, hall _ (Nat.mod_lt _ (by decide))]
  exact congrArg some (UInt8.toNat.inj (by simp; omega))

/-- Two digits stand for the byte they were made of. -/
theorem denoted?_number (byte : UInt8) :
    denoted? [Byte.hash, Byte.dollar, digit (byte / 16), digit byte] = some [byte] := by
  have hbyte : 16 * (byte / 16 % 16) + byte % 16 = byte := by
    apply UInt8.toNat.inj
    have hlt := byte.toNat_lt
    simp only [UInt8.toNat_add, UInt8.toNat_mul, UInt8.toNat_mod, UInt8.toNat_div,
      UInt8.reduceToNat]
    omega
  show (digitValue? (digit (byte / 16))).bind (fun high =>
    (digitValue? (digit byte)).bind fun low => some [16 * high + low]) = some [byte]
  rw [digitValue?_digit, digitValue?_digit, Option.bind_some, Option.bind_some, hbyte]

/-- A byte that is not written by its number is in ASCII and no quote, nor does it end the line. -/
theorem plain_of_needsNumber {byte : UInt8} (h : needsNumber byte = false) :
    byte < 0x80 ∧ byte ≠ Byte.quote ∧ byte ≠ Byte.lineFeed := by
  simp only [needsNumber, Bool.or_eq_false_iff, decide_eq_false_iff_not, beq_eq_false_iff_ne] at h
  obtain ⟨⟨hlow, hhigh⟩, hquote⟩ := h
  refine ⟨?_, hquote, ?_⟩
  · rw [UInt8.lt_iff_toNat_lt] at hhigh ⊢
    simp only [UInt8.reduceToNat] at hhigh ⊢
    omega
  · rintro rfl
    exact hlow (by decide)

theorem utf8_encodeByte (byte : UInt8) :
    (encodeByte byte).flatMap String.utf8EncodeChar = spelledByte byte := by
  have hquote : String.utf8EncodeChar '\x27' = [Byte.quote] := by decide
  have hhash : String.utf8EncodeChar '#' = [Byte.hash] := by decide
  have hdollar : String.utf8EncodeChar '$' = [Byte.dollar] := by decide
  unfold encodeByte spelledByte
  split
  · simp only [List.flatMap_cons, List.flatMap_nil, utf8_hexDigit, hquote, hhash, hdollar,
      List.cons_append, List.nil_append]
  · rename_i hplain
    rw [List.flatMap_singleton]
    exact Bytes.utf8_ofNat (plain_of_needsNumber (Bool.eq_false_iff.2 hplain)).1

/-- The bytes of a literal: an opening quote and what follows it. -/
theorem bytes_ofText (text : String) :
    Bytes.ofText (ofText text) = Byte.quote :: spelled (Bytes.ofText text) := by
  have hquote : String.utf8EncodeChar '\x27' = [Byte.quote] := by decide
  simp only [ofText, Bytes.ofText_ofList, encode, List.flatMap_cons, List.flatMap_append,
    List.flatMap_assoc, utf8_encodeByte, List.flatMap_nil, hquote, spelled]
  rfl

/-- Bytes that are not written by number stand as they are. -/
theorem spelled_append {plain : Bytes} (h : ∀ byte ∈ plain, needsNumber byte = false)
    (bytes : Bytes) : spelled (plain ++ bytes) = plain ++ spelled bytes := by
  have hplain : plain.flatMap spelledByte = plain := by
    rw [List.flatMap_congr fun byte hbyte =>
      show spelledByte byte = [byte] from if_neg (by simp [h byte hbyte])]
    exact List.flatMap_singleton' plain
  rw [spelled, spelled, List.flatMap_append, hplain, List.append_assoc]

/-- One that is written by its number closes the quotation and opens another one. -/
theorem spelled_cons {byte : UInt8} (h : needsNumber byte) (bytes : Bytes) :
    spelled (byte :: bytes) =
      [Byte.quote] ++ Byte.hash :: ([Byte.dollar, digit (byte / 16), digit byte] ++
        Byte.quote :: spelled bytes) := by
  rw [spelled, List.flatMap_cons, spelledByte, if_pos h]
  rfl

/-- The digits of a number are no longer than they were written. -/
theorem maximal_digits (byte : UInt8) (rest : Bytes) :
    Grammar.Maximal Byte.isHexDigit [digit (byte / 16), digit byte] (Byte.quote :: rest) where
  accepted := by simp [isHexDigit_digit]
  stops := by
    rintro _ ⟨⟩
    decide

/-- The characters between quotes are read back from the way they are written. -/
theorem quoted?_doubled (characters : Bytes) :
    quoted? (Grammar.doubled characters ++ [Byte.quote]) = some characters := by
  induction characters with
  | nil => rfl
  | cons byte characters ih =>
      rw [Grammar.doubled_cons, List.append_assoc]
      by_cases hquote : byte = Byte.quote
      · subst hquote
        show (quoted? (Grammar.doubled characters ++ [Byte.quote])).map (Byte.quote :: ·) = _
        rw [ih]
        rfl
      · rw [if_neg hquote, List.cons_append, List.nil_append, quoted?, if_neg hquote, ih]
        · rfl
        · exact fun h => absurd h hquote
        · exact fun _ h => absurd h hquote

/-- Induction over the bytes that are written by their numbers, with those before each of them. -/
theorem number_induction {motive : Bytes → Prop}
    (plain : ∀ bytes, (∀ byte ∈ bytes, needsNumber byte = false) → motive bytes)
    (number : ∀ bytes byte more, (∀ byte ∈ bytes, needsNumber byte = false) → needsNumber byte →
      motive more → motive (bytes ++ byte :: more))
    (bytes : Bytes) : motive bytes := by
  cases hfind : bytes.find? needsNumber with
  | none =>
      refine plain bytes fun byte hbyte => ?_
      exact Bool.eq_false_iff.2 (List.find?_eq_none.1 hfind byte hbyte)
  | some byte =>
      obtain ⟨hbyte, before, more, heq, hbefore⟩ := List.find?_eq_some_iff_append.1 hfind
      have ih := number_induction plain number more
      rw [heq]
      exact number before byte more (fun byte hbyte => by simpa using hbefore byte hbyte) hbyte ih
termination_by bytes.length
decreasing_by
  rw [heq, List.length_append, List.length_cons]
  omega

namespace Denotes

variable {calls others : List (Scanned × Scanner)} {bytes more : Bytes}

theorem singleton {call : Scanned × Scanner}
    (hliteral : call.1.token = .string ∨ call.1.token = .char)
    (hfaultless : call.1.diagnostics = []) (hdenoted : denoted? call.1.literal = some bytes) :
    Denotes [call] bytes := by
  refine ⟨List.forall_mem_singleton.2 hliteral, List.forall_mem_singleton.2 hfaultless, ?_⟩
  simp [hdenoted]

theorem append (h : Denotes calls bytes) (hothers : Denotes others more) :
    Denotes (calls ++ others) (bytes ++ more) := by
  obtain ⟨parts, hparts, rfl⟩ := Option.map_eq_some_iff.1 h.denoted
  obtain ⟨others, hothers', rfl⟩ := Option.map_eq_some_iff.1 hothers.denoted
  refine ⟨List.forall_mem_append.2 ⟨h.literal, hothers.literal⟩,
    List.forall_mem_append.2 ⟨h.faultless, hothers.faultless⟩, ?_⟩
  simp [List.mapM_append, hparts, hothers']

end Denotes

end Literal

namespace Grammar

theorem doubled_of_not_mem {characters : Bytes} (h : Byte.quote ∉ characters) :
    doubled characters = characters := by
  rw [doubled, List.flatMap_congr fun byte hbyte => if_neg (ne_of_mem_of_not_mem hbyte h)]
  exact List.flatMap_singleton' characters

end Grammar

/-- A string literal ends with the quote that closes it, where no quote follows. -/
theorem Lexeme.read_quoted (previous : Token) {characters rest : Bytes}
    (hfeed : Byte.lineFeed ∉ characters) (hclosed : rest.head? ≠ some Byte.quote) :
    read previous Byte.quote (Grammar.doubled characters ++ [Byte.quote] ++ rest) =
      { token := if characters.length = 1 then .char else .string
        size := (Grammar.doubled characters ++ [Byte.quote]).length + 1 } := by
  show Lexeme.string _ = _
  rw [List.append_assoc, List.singleton_append, Lexeme.string, Grammar.quotation_doubled hfeed,
    Lexeme.quotation_quote hclosed]
  simp [Nat.add_comm]

namespace Scanner

variable {scanner : Scanner} {first : UInt8} {inside rest : Bytes} {token : Token}

/-- No mark stands before a quote, so that a scan begins with it. -/
theorem start_of_quote {file : SourceFile} (hsize : file.size = (Byte.quote :: rest).length) :
    ∃ scanner, Scanner.start file (Byte.quote :: rest) = .ok scanner ∧ scanner.offset = 0 ∧
      scanner.rest = Byte.quote :: rest := by
  have hmark : ¬ byteOrderMark <+: Byte.quote :: rest := fun h =>
    absurd (List.cons_prefix_cons.1 h).1 (by decide)
  rw [start_eq_ok hsize, if_neg hmark]
  exact ⟨_, rfl, rfl, rfl⟩

/-- A lexeme that is no comment and has nothing wrong is handed out and taken off the text. -/
theorem next_of_read (comments : Comments) (hrest : scanner.rest = first :: (inside ++ rest))
    (hblank : Byte.isBlank first = false) (hcomment : token ≠ .comment)
    (hread : Lexeme.read scanner.previous first (inside ++ rest) =
      { token, size := inside.length + 1 }) :
    ∃ after, scanner.next comments =
        ({ offset := scanner.offset, token, literal := token.literal (first :: inside) }, after) ∧
      after.rest = rest := by
  have hskip : scanner.skipBlanks = scanner :=
    skipBlanks_of_append (show scanner.rest = [] ++ first :: (inside ++ rest) from hrest) nofun
      hblank
  have hlexeme : scanner.skipBlanks.lexeme first (inside ++ rest) =
      { token, size := inside.length + 1 } := by
    rw [hskip]
    exact hread
  have htake : scanner.rest.take (inside.length + 1) = first :: inside := by
    rw [hrest, List.take_succ_cons, List.take_left]
  have hdrop : scanner.rest.drop (inside.length + 1) = rest := by
    rw [hrest, List.drop_succ_cons, List.drop_left]
  have hkept : (scanner.skipBlanks.lexeme first (inside ++ rest)).token = .comment →
      comments = .kept := by
    rw [hlexeme]
    exact fun h => absurd h hcomment
  rw [next_of_cons (by rw [hskip, hrest]) hkept, hlexeme, hskip]
  refine ⟨_, Prod.ext ?_ rfl, hdrop⟩
  show Scanned.mk _ _ _ _ = _
  rw [htake]
  rfl

/-- Plain bytes between quotes are handed out together, where the quotation ends with them. -/
theorem next_plain (comments : Comments) {plain : Bytes}
    (hplain : ∀ byte ∈ plain, Literal.needsNumber byte = false)
    (hrest : scanner.rest = Byte.quote :: (plain ++ [Byte.quote] ++ rest))
    (hclosed : rest.head? ≠ some Byte.quote) :
    ∃ found after, scanner.next comments = (found, after) ∧ after.rest = rest ∧
      Literal.Denotes [(found, after)] plain := by
  have hquote : Byte.quote ∉ plain := fun h =>
    (Literal.plain_of_needsNumber (hplain _ h)).2.1 rfl
  have hfeed : Byte.lineFeed ∉ plain := fun h =>
    (Literal.plain_of_needsNumber (hplain _ h)).2.2 rfl
  rw [← Grammar.doubled_of_not_mem hquote] at hrest
  obtain ⟨after, hnext, hafter⟩ :=
    next_of_read comments hrest (by decide) (by split <;> simp)
      (Lexeme.read_quoted scanner.previous hfeed hclosed)
  refine ⟨_, after, hnext, hafter, .singleton ?_ rfl ?_⟩
  · show (if plain.length = 1 then Token.char else .string) = _ ∨ _
    split <;> simp
  · rw [← Literal.quoted?_doubled plain]
    show Literal.denoted? (Token.literal _ _) = _
    split <;> rfl

/-- The number of a byte is handed out by itself. -/
theorem next_number (comments : Comments) {byte : UInt8}
    (hrest : scanner.rest = Byte.hash :: ([Byte.dollar, Literal.digit (byte / 16),
      Literal.digit byte] ++ Byte.quote :: rest)) :
    ∃ found after, scanner.next comments = (found, after) ∧ after.rest = Byte.quote :: rest ∧
      Literal.Denotes [(found, after)] [byte] := by
  have hread : Lexeme.read scanner.previous Byte.hash ([Byte.dollar, Literal.digit (byte / 16),
      Literal.digit byte] ++ Byte.quote :: rest) = { token := .char, size := 3 + 1 } := by
    show Lexeme.numbered (Byte.dollar :: ([Literal.digit (byte / 16), Literal.digit byte] ++
      Byte.quote :: rest)) = _
    rw [Lexeme.numbered_dollar, (Literal.maximal_digits byte rest).run_eq]
    rfl
  obtain ⟨after, hnext, hafter⟩ := next_of_read comments hrest (by decide) (by decide) hread
  exact ⟨_, after, hnext, hafter, .singleton (.inr rfl) rfl (Literal.denoted?_number byte)⟩

/-- What a call denotes comes before what the further calls denote. -/
theorem trace_of_denotes {comments : Comments} {found : Scanned} {after : Scanner} {bytes : Bytes}
    (hnext : scanner.next comments = (found, after)) (h : Literal.Denotes [(found, after)] bytes) :
    scanner.trace comments = (found, after) :: after.trace comments := by
  have hne : (scanner.next comments).1.token ≠ .eof := by
    rw [hnext]
    intro heof
    have hliteral := h.literal _ (List.mem_singleton_self _)
    rw [heof] at hliteral
    rcases hliteral with hstring | hchar
    · cases hstring
    · cases hchar
  rw [trace_of_ne_eof hne, hnext]

/-- Nothing is left: the next call is the last one. -/
theorem trace_of_nil (comments : Comments) (hrest : scanner.rest = []) :
    ∃ last, scanner.trace comments = [last] ∧ last.1.token = .eof ∧ last.1.diagnostics = [] := by
  have hend : scanner.next comments = _ := next_of_nil (by simp [skipBlanks, advance, hrest])
  exact ⟨_, trace_of_eof (by rw [hend]), by rw [hend], by rw [hend]⟩

/-- The calls of a scanner before a literal stand for the bytes that the literal was written for.
The last one meets the end. -/
theorem trace_spelled (comments : Comments) (bytes : Bytes)
    (hrest : scanner.rest = Byte.quote :: Literal.spelled bytes) :
    ∃ calls last, scanner.trace comments = calls ++ [last] ∧ last.1.token = .eof ∧
      last.1.diagnostics = [] ∧ Literal.Denotes calls bytes := by
  induction bytes using Literal.number_induction generalizing scanner with
  | plain plain hplain =>
      rw [← List.append_nil plain, Literal.spelled_append hplain] at hrest
      have hend : scanner.rest = Byte.quote :: (plain ++ [Byte.quote] ++ []) := by
        rw [hrest, List.append_nil]
        rfl
      obtain ⟨found, after, hnext, hafter, hdenotes⟩ := next_plain comments hplain hend nofun
      obtain ⟨last, htrace, hlast⟩ := trace_of_nil comments hafter
      rw [trace_of_denotes hnext hdenotes, htrace]
      exact ⟨[_], last, rfl, hlast.1, hlast.2, hdenotes⟩
  | number plain byte more hplain hbyte ih =>
      rw [Literal.spelled_append hplain, Literal.spelled_cons hbyte, ← List.append_assoc] at hrest
      obtain ⟨found, middle, hnext, hmiddle, hdenotes⟩ :=
        next_plain comments hplain hrest (show some Byte.hash ≠ some Byte.quote by decide)
      obtain ⟨number, after, hnumber, hafter, hdenoted⟩ := next_number comments hmiddle
      obtain ⟨calls, last, htrace, heof, hlast, hmore⟩ := ih hafter
      rw [trace_of_denotes hnext hdenotes, trace_of_denotes hnumber hdenoted, htrace]
      exact ⟨_ :: _ :: calls, last, rfl, heof, hlast, hdenotes.append (hdenoted.append hmore)⟩

end Scanner

namespace Literal

/-- A scan of a literal comes to the end and hands out what stands for the bytes of the text. -/
theorem denotes_ofText (name : String) (base : Nat) (comments : Comments) (text : String) :
    ∃ scanner calls last,
      Scanner.start (.fresh name base (Bytes.ofText (ofText text)).length)
        (Bytes.ofText (ofText text)) = .ok scanner ∧
      scanner.trace comments = calls ++ [last] ∧ last.1.token = .eof ∧
      last.1.diagnostics = [] ∧ Denotes calls (Bytes.ofText text) := by
  rw [bytes_ofText]
  obtain ⟨scanner, hstart, -, hrest⟩ :=
    Scanner.start_of_quote (show (SourceFile.fresh name base _).size = _ from rfl)
  obtain ⟨calls, last, h⟩ := scanner.trace_spelled comments (Bytes.ofText text) hrest
  exact ⟨scanner, calls, last, hstart, h⟩

/-- No two texts have the same literal. -/
theorem ofText_injective : Function.Injective ofText := by
  intro text other heq
  obtain ⟨scanner, calls, last, hstart, htrace, -, -, h⟩ := denotes_ofText "" 0 .kept text
  obtain ⟨scanner', calls', last', hstart', htrace', -, -, h'⟩ := denotes_ofText "" 0 .kept other
  rw [← heq, hstart] at hstart'
  obtain rfl := Except.ok.inj hstart'
  obtain ⟨rfl, -⟩ := List.append_inj' (htrace.symm.trans htrace') rfl
  exact Bytes.ofText_injective (Option.some.inj (h.denoted.symm.trans h'.denoted))

end Literal

/-- A text is read back from its literal, with comments or without them. A scan of the literal comes
to the end without a fault, and hands out nothing but strings and characters, which stand for the
bytes of the text together. So no two texts have the same literal. -/
theorem literal_reads_back :
    (∀ (name : String) (base : Nat) (comments : Comments) (text : String),
      ∃ scanner calls last,
        Scanner.start (.fresh name base (Bytes.ofText (Literal.ofText text)).length)
          (Bytes.ofText (Literal.ofText text)) = .ok scanner ∧
        scanner.trace comments = calls ++ [last] ∧ last.1.token = .eof ∧
        last.1.diagnostics = [] ∧ Literal.Denotes calls (Bytes.ofText text)) ∧
    Function.Injective Literal.ofText :=
  ⟨Literal.denotes_ofText, Literal.ofText_injective⟩

end PascalUnits
