import Mathlib.Algebra.Ring.Parity
import Mathlib.Data.List.Infix
import PascalUnits.Proofs.Scan.Lookahead

/-!
# What is wrong with a lexeme

The text of a token shows whether the token is malformed, and how. Read `Token.fault?` first: it
says so by the kind and the text of the token alone. The main statement, `Lexeme.read_tells`, says
that a lexeme is read with the fault that its text shows. `Lexeme.read_sizeByFault` says how much of
the text such a lexeme takes.
-/

namespace PascalUnits

/-- A text that begins with a quote and whose quotes do not come in pairs. -/
def OpenQuote (text : Bytes) : Prop :=
  text.head? = some Byte.quote ∧ Odd (text.count Byte.quote)

instance (text : Bytes) : Decidable (OpenQuote text) :=
  inferInstanceAs (Decidable (_ ∧ _))

/-- A text that begins like a block and has no closing. The star that opens a block is not half of
its closing. -/
def OpenBlock (text : Bytes) : Prop :=
  ([Byte.leftBrace] <+: text ∧ Byte.rightBrace ∉ text) ∨
    ([Byte.leftParen, Byte.star] <+: text ∧ ¬ [Byte.star, Byte.rightParen] <:+: text.drop 2)

instance (text : Bytes) : Decidable (OpenBlock text) :=
  inferInstanceAs (Decidable (_ ∨ _))

/-- What is wrong with a token, as its kind and its text tell. -/
def Token.fault? (token : Token) (text : Bytes) : Option Fault :=
  match token with
  | .illegal => text.head?.map .illegalCharacter
  | .integer => if text = [Byte.dollar] then some .hexadecimalWithoutDigits else none
  | .char =>
    if text = [Byte.hash] ∨ text = [Byte.hash, Byte.dollar] then some .characterWithoutDigits
    else if OpenQuote text then some .openString
    else none
  | .string => if OpenQuote text then some .openString else none
  | .comment | .directive => if OpenBlock text then some .openComment else none
  | _ => none

namespace Lexeme

/-- The text that a lexeme takes tells what is wrong with it. -/
def Tells (text : Bytes) (lexeme : Lexeme) : Prop :=
  lexeme.fault = lexeme.token.fault? (text.take lexeme.size)

theorem word_tells (first : UInt8) (rest : Bytes) : (word first rest).Tells (first :: rest) := by
  rcases token_word first rest with hname | ⟨w, hname⟩
  · rw [Tells, hname]
    rfl
  · rw [Tells, hname]
    rfl

/-- A number that begins with a digit is no dollar sign. -/
theorem decimal_tells {first : UInt8} (h : Byte.isDigit first) (rest : Bytes) :
    (decimal rest).Tells (first :: rest) := by
  have hdollar : (first :: rest).take (decimal rest).size ≠ [Byte.dollar] := by
    intro htext
    have hsize : (decimal rest).size ≠ 0 := by
      simp only [decimal]
      omega
    have hfirst := congrArg List.head? htext
    rw [List.head?_take, if_neg hsize, List.head?_cons, List.head?_cons, Option.some.injEq]
      at hfirst
    rw [hfirst] at h
    exact absurd h (by decide)
  rcases token_decimal rest with htoken | htoken
  · rw [Tells, htoken, Token.fault?, if_neg hdollar]
    rfl
  · rw [Tells, htoken]
    rfl

theorem run_eq_zero_iff {accept : UInt8 → Bool} {bytes : Bytes} :
    run accept bytes = 0 ↔ bytes.takeWhile accept = [] :=
  List.length_eq_zero_iff

theorem hexadecimal_tells (rest : Bytes) :
    (hexadecimal rest).Tells (Byte.dollar :: rest) := by
  simp only [Tells, hexadecimal, Token.fault?, Nat.add_comm 1, List.take_succ_cons, take_run,
    List.cons.injEq, true_and, run_eq_zero_iff]

/-- A string literal is closed by one more quote than its doubled ones have. -/
theorem odd_count_quotation (bytes : Bytes) :
    Odd ((bytes.take (quotation bytes).size).count Byte.quote) ↔ (quotation bytes).closed := by
  fun_induction quotation bytes with
  | case1 => decide
  | case2 rest inside ih =>
      show Odd ((Byte.quote :: Byte.quote :: rest.take inside.size).count Byte.quote) ↔
        inside.closed
      rw [List.count_cons_self, List.count_cons_self, Nat.odd_add_one, Nat.odd_add_one, not_not]
      exact ih
  | case3 rest _ =>
      show Odd ([Byte.quote].count Byte.quote) ↔ true
      decide
  | case4 rest =>
      show Odd (([] : Bytes).count Byte.quote) ↔ false
      decide
  | case5 byte rest _ hquote _ inside ih =>
      show Odd ((byte :: rest.take inside.size).count Byte.quote) ↔ inside.closed
      rw [List.count_cons_of_ne (show byte ≠ Byte.quote from hquote)]
      exact ih

/-- What is wrong with a token that begins with a quote. -/
theorem fault?_of_quote {token : Token} (h : token = .char ∨ token = .string) (text : Bytes) :
    token.fault? (Byte.quote :: text) =
      if OpenQuote (Byte.quote :: text) then some .openString else none := by
  rcases h with rfl | rfl
  · have hhash : Byte.quote ≠ Byte.hash := by decide
    simp [Token.fault?, hhash]
  · rfl

theorem string_tells (rest : Bytes) : (string rest).Tells (Byte.quote :: rest) := by
  have htoken : (string rest).token = .char ∨ (string rest).token = .string := by
    simp only [string]
    split
    · exact .inl rfl
    · exact .inr rfl
  have htext : (Byte.quote :: rest).take (string rest).size =
      Byte.quote :: rest.take (quotation rest).size := by
    rw [string, Nat.add_comm, List.take_succ_cons]
  have hopen : OpenQuote (Byte.quote :: rest.take (quotation rest).size) ↔
      ¬ (quotation rest).closed := by
    rw [OpenQuote, List.count_cons_self, Nat.odd_add_one, odd_count_quotation]
    exact and_iff_right rfl
  rw [Tells, htext, fault?_of_quote htoken]
  simp only [string, hopen, ite_not]

/-- A character that does not begin with a quote needs digits only behind a number sign. -/
theorem fault?_char {first : UInt8} (h : first ≠ Byte.quote) (text : Bytes) :
    Token.fault? .char (first :: text) =
      if first = Byte.hash ∧ (text = [] ∨ text = [Byte.dollar]) then some .characterWithoutDigits
      else none := by
  have hopen : ¬ OpenQuote (first :: text) := fun hopen => h (Option.some.inj hopen.1)
  simp only [Token.fault?, List.cons.injEq, ← and_or_left, if_neg hopen]

theorem numbered_tells (rest : Bytes) : (numbered rest).Tells (Byte.hash :: rest) := by
  have hquote : Byte.hash ≠ Byte.quote := by decide
  by_cases hdollar : rest.head? = some Byte.dollar
  · obtain ⟨digits, rfl⟩ := List.head?_eq_some_iff.1 hdollar
    rw [numbered_dollar, Tells, Nat.add_comm, List.take_succ_cons, List.take_succ_cons,
      fault?_char hquote, take_run]
    simp [run_eq_zero_iff]
  · -- decimal digits are no dollar sign
    have hdigits : rest.takeWhile Byte.isDigit ≠ [Byte.dollar] := by
      intro htake
      have hmem : Byte.dollar ∈ rest.takeWhile Byte.isDigit := by simp [htake]
      exact absurd (List.all_eq_true.1 List.all_takeWhile _ hmem) (by decide)
    rw [numbered_of_ne hdollar, Tells, Nat.add_comm, List.take_succ_cons, fault?_char hquote,
      take_run]
    simp [run_eq_zero_iff, hdigits]

theorem caret_tells (previous : Token) (rest : Bytes) :
    (caret previous rest).Tells (Byte.caret :: rest) := by
  have hhash : Byte.caret ≠ Byte.hash := by decide
  unfold caret
  split
  · rfl
  · rw [Tells, Nat.add_comm, List.take_succ_cons, fault?_char (by decide),
      if_neg fun h => hhash h.1]

/-- A text without a right brace is passed to its end. -/
theorem pastBrace?_eq_none_iff {bytes : Bytes} :
    pastBrace? bytes = none ↔ Byte.rightBrace ∉ bytes := by
  induction bytes with
  | nil => simp [pastBrace?]
  | cons byte rest ih =>
      rw [pastBrace?, List.mem_cons, not_or, ← ih]
      split
      · rename_i hbrace
        simp [hbrace]
      · rename_i hbrace
        simp [Ne.symm hbrace]

/-- The bytes up to a right brace end with it. -/
theorem rightBrace_mem_take {bytes : Bytes} {size : Nat} (h : pastBrace? bytes = some size) :
    Byte.rightBrace ∈ bytes.take size := by
  induction bytes generalizing size with
  | nil => cases h
  | cons byte rest ih =>
      rw [pastBrace?] at h
      split at h
      · rename_i hbrace
        cases h
        simp [hbrace]
      · obtain ⟨inner, hinner, rfl⟩ := Option.map_eq_some_iff.1 h
        exact List.mem_cons_of_mem byte (ih hinner)

/-- A text without a closing of two bytes is passed to its end. -/
theorem pastStar?_eq_none_iff {bytes : Bytes} :
    pastStar? bytes = none ↔ ¬ [Byte.star, Byte.rightParen] <:+: bytes := by
  fun_induction pastStar? bytes with
  | case1 => decide
  | case2 rest => simp [List.infix_cons_iff]
  | case3 byte rest hopen ih =>
      have hhere : ¬ [Byte.star, Byte.rightParen] <+: byte :: rest := by
        rintro ⟨after, hafter⟩
        obtain ⟨rfl, rfl⟩ := List.cons.inj hafter
        exact hopen after rfl rfl
      rw [Option.map_eq_none_iff, ih, List.infix_cons_iff, or_iff_right hhere]

/-- The bytes up to such a closing end with it. -/
theorem closing_infix_take {bytes : Bytes} {size : Nat} (h : pastStar? bytes = some size) :
    [Byte.star, Byte.rightParen] <:+: bytes.take size := by
  fun_induction pastStar? bytes generalizing size with
  | case1 => cases h
  | case2 rest =>
      cases h
      exact List.infix_rfl
  | case3 byte rest _ ih =>
      obtain ⟨inner, hinner, rfl⟩ := Option.map_eq_some_iff.1 h
      exact List.infix_cons (ih hinner)

/-- What is wrong with a comment or directive of block form. -/
theorem fault?_block {token : Token} (h : token.isTrivia) (text : Bytes) :
    token.fault? text = if OpenBlock text then some .openComment else none := by
  cases token with
  | comment | directive => rfl
  | illegal | eof | identifier | integer | float | char | string | operator | word => cases h

/-- A comment or directive tells whether it is closed if its closing ends what it takes. -/
theorem block_tells {token : Token} (htoken : token.isTrivia) (opening rest : Bytes)
    {closing : Option Nat}
    (hclosed : ∀ size, closing = some size → ¬ OpenBlock (opening ++ rest.take size))
    (hopen : closing = none → OpenBlock (opening ++ rest)) :
    (block token opening.length rest closing).Tells (opening ++ rest) := by
  cases closing with
  | none =>
      rw [Tells, block, fault?_block htoken, ← List.length_append, List.take_length,
        if_pos (hopen rfl)]
  | some size =>
      rw [Tells, block, fault?_block htoken, List.take_length_add_append,
        if_neg (hclosed size rfl)]

/-- A text in braces is open without a right brace. -/
theorem openBlock_leftBrace (text : Bytes) :
    OpenBlock ([Byte.leftBrace] ++ text) ↔ Byte.rightBrace ∉ text := by
  have hbrace : Byte.rightBrace ≠ Byte.leftBrace := by decide
  have hparen : Byte.leftParen ≠ Byte.leftBrace := by decide
  simp [OpenBlock, hbrace, hparen]

/-- A text between parentheses with stars is open without a closing behind the opening. -/
theorem openBlock_leftParen (text : Bytes) :
    OpenBlock ([Byte.leftParen, Byte.star] ++ text) ↔
      ¬ [Byte.star, Byte.rightParen] <:+: text := by
  have hbrace : Byte.leftBrace ≠ Byte.leftParen := by decide
  simp [OpenBlock, hbrace]

theorem braced_tells (rest : Bytes) : (braced rest).Tells (Byte.leftBrace :: rest) := by
  refine block_tells ?_ [Byte.leftBrace] rest ?_ ?_
  · split <;> rfl
  · intro size hsize
    rw [openBlock_leftBrace, not_not]
    exact rightBrace_mem_take hsize
  · intro hnone
    exact (openBlock_leftBrace rest).2 (pastBrace?_eq_none_iff.1 hnone)

theorem parenthesis_tells (rest : Bytes) :
    (parenthesis rest).Tells (Byte.leftParen :: rest) := by
  unfold parenthesis
  split
  · rename_i rest
    refine block_tells rfl [Byte.leftParen, Byte.star] rest ?_ ?_
    · intro size hsize
      rw [openBlock_leftParen, not_not]
      exact closing_infix_take hsize
    · intro hnone
      exact (openBlock_leftParen rest).2 (pastStar?_eq_none_iff.1 hnone)
  · rfl

/-- A comment up to the end of its line needs no closing. -/
theorem slash_tells (rest : Bytes) : (slash rest).Tells (Byte.slash :: rest) := by
  unfold slash
  split
  · rename_i rest
    have hbrace : Byte.leftBrace ≠ Byte.slash := by decide
    have hparen : Byte.leftParen ≠ Byte.slash := by decide
    have hblock (text : Bytes) : ¬ OpenBlock (Byte.slash :: text) := by
      simp [OpenBlock, hbrace, hparen]
    rw [Tells, Nat.add_comm, List.take_succ_cons, fault?_block rfl, if_neg (hblock _)]
  · rfl

theorem operator_tells (first : UInt8) (rest : Bytes) :
    (operator first rest).Tells (first :: rest) := by
  unfold operator
  split
  · rfl
  · split
    · rfl
    · rfl

theorem symbol_tells (previous : Token) (first : UInt8) (rest : Bytes) :
    (symbol previous first rest).Tells (first :: rest) := by
  unfold symbol
  split
  · exact hexadecimal_tells rest
  · exact string_tells rest
  · exact numbered_tells rest
  · exact caret_tells previous rest
  · exact braced_tells rest
  · exact parenthesis_tells rest
  · exact slash_tells rest
  · exact operator_tells first rest

/-- A lexeme is read with the fault that its text shows. -/
theorem read_tells (previous : Token) (first : UInt8) (rest : Bytes) :
    (read previous first rest).Tells (first :: rest) := by
  unfold read
  split
  · exact word_tells first rest
  · split
    · rename_i hdigit
      exact decimal_tells hdigit rest
    · exact symbol_tells previous first rest

/-- How much a lexeme takes whose fault tells it: all there is, if it is a block that is not closed,
and its own byte, if that begins no token. -/
structure SizeByFault (bytes : Bytes) (lexeme : Lexeme) : Prop where
  openComment : lexeme.fault = some .openComment → lexeme.size = bytes.length
  illegalCharacter : ∀ byte, lexeme.fault = some (.illegalCharacter byte) → lexeme.size = 1

theorem SizeByFault.of_ne {bytes : Bytes} {lexeme : Lexeme}
    (hopen : lexeme.fault ≠ some .openComment)
    (hillegal : ∀ byte, lexeme.fault ≠ some (.illegalCharacter byte)) :
    SizeByFault bytes lexeme :=
  ⟨fun h => absurd h hopen, fun byte h => absurd h (hillegal byte)⟩

theorem SizeByFault.of_none {bytes : Bytes} {lexeme : Lexeme} (h : lexeme.fault = none) :
    SizeByFault bytes lexeme :=
  .of_ne (by simp [h]) (by simp [h])

theorem block_sizeByFault (token : Token) (opening rest : Bytes) (closing : Option Nat) :
    SizeByFault (opening ++ rest) (block token opening.length rest closing) := by
  cases closing with
  | none =>
      refine ⟨fun _ => List.length_append.symm, fun byte h => ?_⟩
      cases h
  | some size => exact .of_none rfl

theorem read_sizeByFault (previous : Token) (first : UInt8) (rest : Bytes) :
    SizeByFault (first :: rest) (read previous first rest) := by
  unfold read
  split
  · exact .of_none rfl
  · split
    · exact .of_none rfl
    · unfold symbol
      split
      · refine .of_ne ?_ ?_ <;> simp [hexadecimal]
      · refine .of_ne ?_ ?_ <;> simp [string]
      · unfold numbered
        split
        · refine .of_ne ?_ ?_ <;> simp
        · refine .of_ne ?_ ?_ <;> simp
      · unfold caret
        split
        · exact .of_none rfl
        · exact .of_none rfl
      · exact block_sizeByFault _ [Byte.leftBrace] rest _
      · unfold parenthesis
        split
        · rename_i rest
          exact block_sizeByFault _ [Byte.leftParen, Byte.star] rest _
        · exact .of_none rfl
      · unfold slash
        split
        · exact .of_none rfl
        · exact .of_none rfl
      · unfold operator
        split
        · refine ⟨fun h => ?_, fun _ _ => rfl⟩
          cases h
        · split
          · exact .of_none rfl
          · exact .of_none rfl

/-- An illegal token is the byte that its fault names. -/
theorem fault_of_illegal {previous : Token} {first : UInt8} {rest : Bytes}
    (h : (read previous first rest).token = .illegal) :
    (read previous first rest).fault = some (.illegalCharacter first) ∧
      (first :: rest).take (read previous first rest).size = [first] := by
  have hpositive : (read previous first rest).size ≠ 0 := (read_size_pos _ _ _).ne'
  have hfault : (read previous first rest).fault = some (.illegalCharacter first) := by
    rw [read_tells, h, Token.fault?, List.head?_take, if_neg hpositive]
    rfl
  exact ⟨hfault, by rw [(read_sizeByFault _ _ _).illegalCharacter first hfault]; rfl⟩

/-- All that can be wrong with a comment is that it is not closed. -/
theorem fault_of_comment {previous : Token} {first : UInt8} {rest : Bytes}
    (h : (read previous first rest).token = .comment) :
    ∀ fault ∈ (read previous first rest).fault, fault = .openComment := by
  intro fault hfault
  rw [read_tells, h, fault?_block rfl] at hfault
  split at hfault
  · exact (Option.some.inj hfault).symm
  · cases hfault

end Lexeme

end PascalUnits
