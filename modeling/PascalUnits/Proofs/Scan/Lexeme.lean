import PascalUnits.Scan.Lexeme

/-!
# The bytes of a lexeme

A lexeme never takes more bytes than there are (`read_size_le`). It is never the end of the text,
and if it is an operator, then the bytes it takes are those that spell the operator
(`read_spelled`). With `Lexeme.read_size_pos` this is all that a walk over the tokens of a text
needs to know about single lexemes.
-/

namespace PascalUnits

/-- The bytes that spell a token, one for each character. -/
def Token.bytes (token : Token) : Bytes :=
  token.spelling.toList.map fun char => UInt8.ofNat char.toNat

namespace Byte

/-- No letter is a blank. -/
theorem isBlank_of_isLetter {byte : UInt8} (h : isLetter byte) : isBlank byte = false := by
  simp only [isBlank, Bool.or_eq_false_iff, beq_eq_false_iff_ne]
  refine ⟨⟨⟨?_, ?_⟩, ?_⟩, ?_⟩ <;> rintro rfl <;> exact absurd h (by decide)

/-- No digit is a blank. -/
theorem isBlank_of_isDigit {byte : UInt8} (h : isDigit byte) : isBlank byte = false := by
  simp only [isBlank, Bool.or_eq_false_iff, beq_eq_false_iff_ne]
  refine ⟨⟨⟨?_, ?_⟩, ?_⟩, ?_⟩ <;> rintro rfl <;> exact absurd h (by decide)

end Byte

namespace Lexeme

/-- A run takes no more bytes than there are. -/
theorem run_le (accept : UInt8 → Bool) (bytes : Bytes) : run accept bytes ≤ bytes.length :=
  (List.takeWhile_sublist accept).length_le

/-- A run takes the bytes that are accepted. -/
theorem take_run (accept : UInt8 → Bool) (bytes : Bytes) :
    bytes.take (run accept bytes) = bytes.takeWhile accept := by
  rw [run]
  conv => lhs; arg 2; rw [← List.takeWhile_append_dropWhile (p := accept) (l := bytes)]
  exact List.take_left

/-- A run leaves the bytes from the first one on that is not accepted. -/
theorem drop_run (accept : UInt8 → Bool) (bytes : Bytes) :
    bytes.drop (run accept bytes) = bytes.dropWhile accept := by
  rw [run]
  conv => lhs; arg 2; rw [← List.takeWhile_append_dropWhile (p := accept) (l := bytes)]
  exact List.drop_left

/-- A run at the front of a rest takes no more than what is left there. -/
theorem run_drop_le (accept : UInt8 → Bool) (bytes : Bytes) (taken : Nat) :
    run accept (bytes.drop taken) ≤ bytes.length - taken := by
  have hrun := run_le accept (bytes.drop taken)
  rwa [List.length_drop] at hrun

/-- A fraction takes no more bytes than there are. -/
theorem fraction_le (bytes : Bytes) : fraction bytes ≤ bytes.length := by
  unfold fraction
  split
  · rename_i rest
    have hrun := run_le Byte.isDigit rest
    split
    · exact Nat.zero_le _
    · rw [List.length_cons]
      omega
  · exact Nat.zero_le _

/-- A sign takes no more bytes than there are. -/
theorem sign_le (bytes : Bytes) : sign bytes ≤ bytes.length := by
  cases bytes with
  | nil => exact Nat.le_refl 0
  | cons byte rest =>
      simp only [sign, List.length_cons]
      split <;> omega

/-- An exponent takes no more bytes than there are. -/
theorem exponent_le (bytes : Bytes) : exponent bytes ≤ bytes.length := by
  cases bytes with
  | nil => exact Nat.le_refl 0
  | cons byte rest =>
      have hsign := sign_le rest
      have hrun := run_drop_le Byte.isDigit rest (sign rest)
      simp only [exponent, List.length_cons]
      split <;> omega

/-- A decimal number ends inside the text. -/
theorem decimal_size_le (rest : Bytes) : (decimal rest).size ≤ rest.length + 1 := by
  have hwhole := run_le Byte.isDigit rest
  have hfraction := fraction_le (rest.drop (run Byte.isDigit rest))
  rw [List.length_drop] at hfraction
  have hexponent := exponent_le
    (rest.drop (run Byte.isDigit rest + fraction (rest.drop (run Byte.isDigit rest))))
  rw [List.length_drop] at hexponent
  simp only [decimal]
  omega

/-- The inside of a string literal ends inside the text. -/
theorem quotation_size_le (bytes : Bytes) : (quotation bytes).size ≤ bytes.length := by
  fun_induction quotation bytes with
  | case1 => exact Nat.le_refl 0
  | case2 rest inside ih =>
      have : inside.size ≤ rest.length := ih
      simp only [List.length_cons]
      omega
  | case3 rest _ => simp
  | case4 => exact Nat.zero_le _
  | case5 byte rest _ _ _ inside ih =>
      have : inside.size ≤ rest.length := ih
      simp only [List.length_cons]
      omega

/-- A character given by its number ends inside the text. -/
theorem numbered_size_le (rest : Bytes) : (numbered rest).size ≤ rest.length + 1 := by
  unfold numbered
  split
  · rename_i rest
    have hrun := run_le Byte.isHexDigit rest
    simp only [List.length_cons]
    omega
  · have hrun := run_le Byte.isDigit rest
    simp only
    omega

/-- A caret and what it folds end inside the text. -/
theorem caret_size_le (previous : Token) (rest : Bytes) :
    (caret previous rest).size ≤ rest.length + 1 := by
  unfold caret
  split
  · exact Nat.le_add_left 1 _
  · simp only [List.length_take]
    omega

/-- A right brace stands inside the text. -/
theorem le_of_pastBrace {bytes : Bytes} {size : Nat} (h : pastBrace? bytes = some size) :
    size ≤ bytes.length := by
  induction bytes generalizing size with
  | nil => cases h
  | cons byte rest ih =>
      rw [pastBrace?] at h
      split at h
      · cases h
        simp
      · obtain ⟨inner, hinner, rfl⟩ := Option.map_eq_some_iff.1 h
        exact Nat.succ_le_succ (ih hinner)

/-- A star with a right parenthesis stands inside the text. -/
theorem le_of_pastStar {bytes : Bytes} {size : Nat} (h : pastStar? bytes = some size) :
    size ≤ bytes.length := by
  fun_induction pastStar? bytes generalizing size with
  | case1 => cases h
  | case2 rest =>
      cases h
      simp
  | case3 byte rest _ ih =>
      obtain ⟨inner, hinner, rfl⟩ := Option.map_eq_some_iff.1 h
      exact Nat.succ_le_succ (ih hinner)

/-- A comment of block form ends inside the text if its closing does. -/
theorem block_size_le (token : Token) (opening : Nat) {rest : Bytes} {closing : Option Nat}
    (h : ∀ size, closing = some size → size ≤ rest.length) :
    (block token opening rest closing).size ≤ opening + rest.length := by
  cases closing with
  | none => exact Nat.le_refl _
  | some size => exact Nat.add_le_add_left (h size rfl) opening

/-- A parenthesis, or the comment that it begins, ends inside the text. -/
theorem parenthesis_size_le (rest : Bytes) : (parenthesis rest).size ≤ rest.length + 1 := by
  unfold parenthesis
  split
  · rename_i rest
    have hblock := block_size_le .comment 2 fun size (h : pastStar? rest = some size) =>
      le_of_pastStar h
    rw [List.length_cons]
    omega
  · exact Nat.le_add_left 1 _

/-- A slash, or the comment that it begins, ends inside the text. -/
theorem slash_size_le (rest : Bytes) : (slash rest).size ≤ rest.length + 1 := by
  unfold slash
  split
  · rename_i rest
    have hrun := run_le (· != Byte.lineFeed) rest
    simp only [List.length_cons]
    omega
  · exact Nat.le_add_left 1 _

/-- An operator of two bytes needs a second byte. -/
theorem operator_size_le (first : UInt8) (rest : Bytes) :
    (operator first rest).size ≤ rest.length + 1 := by
  unfold operator
  split
  · exact Nat.le_add_left 1 _
  · split
    · rename_i op hlonger
      cases rest with
      | nil => cases hlonger
      | cons second rest => simp
    · exact Nat.le_add_left 1 _

/-- A lexeme that begins with neither a letter nor a digit ends inside the text. -/
theorem symbol_size_le (previous : Token) (first : UInt8) (rest : Bytes) :
    (symbol previous first rest).size ≤ rest.length + 1 := by
  unfold symbol
  split
  · have hrun := run_le Byte.isHexDigit rest
    simp only [hexadecimal]
    omega
  · have hinside := quotation_size_le rest
    simp only [string]
    omega
  · exact numbered_size_le rest
  · exact caret_size_le previous rest
  · have hblock := block_size_le (if rest.head? = some Byte.dollar then .directive else .comment) 1
      fun size (h : pastBrace? rest = some size) => le_of_pastBrace h
    simp only [braced]
    omega
  · exact parenthesis_size_le rest
  · exact slash_size_le rest
  · exact operator_size_le first rest

/-- A lexeme ends inside the text. -/
theorem read_size_le (previous : Token) (first : UInt8) (rest : Bytes) :
    (read previous first rest).size ≤ (first :: rest).length := by
  unfold read
  rw [List.length_cons]
  split
  · have hrun := run_le Byte.isWordByte rest
    simp only [word, List.length_cons, run] at hrun ⊢
    omega
  · split
    · exact decimal_size_le rest
    · exact symbol_size_le previous first rest

/-- The bytes that a lexeme takes spell it, if it is an operator at all. It is not the end of the
text. -/
structure Spelled (first : UInt8) (rest : Bytes) (lexeme : Lexeme) : Prop where
  token_ne_eof : lexeme.token ≠ .eof
  take_operator : ∀ op, lexeme.token = .operator op →
    (first :: rest).take lexeme.size = (Token.operator op).bytes

/-- A lexeme of a class has no spelling to agree with. -/
theorem Spelled.of_class {first : UInt8} {rest : Bytes} {lexeme : Lexeme}
    (heof : lexeme.token ≠ .eof) (hclass : ∀ op, lexeme.token ≠ .operator op) :
    Spelled first rest lexeme :=
  ⟨heof, fun op h => absurd h (hclass op)⟩

/-- An operator of one byte is spelled by that byte. -/
theorem Spelled.single {first : UInt8} {rest : Bytes} {op : Operator}
    (h : [first] = (Token.operator op).bytes) :
    Spelled first rest { token := .operator op, size := 1 } := by
  refine ⟨nofun, fun other hother => ?_⟩
  cases hother
  exact h

/-- The operators that a byte begins are spelled by it alone, or by it and the second byte. -/
theorem operators_bytes {first : UInt8} {alone : Operator} {longer : List (UInt8 × Operator)}
    (h : operators first = some (alone, longer)) :
    [first] = (Token.operator alone).bytes ∧
      ∀ entry ∈ longer, [first, entry.1] = (Token.operator entry.2).bytes := by
  unfold operators at h
  split at h <;> cases h <;> decide

/-- An operator takes the bytes that spell it; a byte that begins none is illegal. -/
theorem operator_spelled (first : UInt8) (rest : Bytes) :
    Spelled first rest (operator first rest) := by
  unfold operator
  split
  · exact .of_class nofun nofun
  · rename_i alone longer hoperators
    obtain ⟨halone, hlonger⟩ := operators_bytes hoperators
    split
    · rename_i op hlookup
      obtain ⟨second, hsecond, hop⟩ := Option.bind_eq_some_iff.1 hlookup
      obtain ⟨rest, rfl⟩ := List.head?_eq_some_iff.1 hsecond
      obtain ⟨before, after, rfl, -⟩ := List.lookup_eq_some_iff.1 hop
      refine ⟨nofun, fun other hother => ?_⟩
      cases hother
      exact hlonger (second, op) (by simp)
    · exact .single halone

/-- A word is one of the language or an identifier. -/
theorem token_word (first : UInt8) (rest : Bytes) :
    (word first rest).token = .identifier ∨ ∃ w, (word first rest).token = .word w := by
  simp only [word]
  split
  · exact .inl rfl
  · unfold Token.ofName
    split
    · exact .inr ⟨_, rfl⟩
    · exact .inl rfl

/-- A word is no operator. -/
theorem word_spelled (first : UInt8) (rest : Bytes) : Spelled first rest (word first rest) := by
  rcases token_word first rest with hname | ⟨w, hname⟩
  · exact .of_class (by simp [hname]) (by simp [hname])
  · exact .of_class (by simp [hname]) (by simp [hname])

/-- A decimal number is whole or not. -/
theorem token_decimal (rest : Bytes) :
    (decimal rest).token = .integer ∨ (decimal rest).token = .float := by
  simp only [decimal]
  split
  · exact .inl rfl
  · exact .inr rfl

/-- A number is no operator. -/
theorem decimal_spelled (first : UInt8) (rest : Bytes) : Spelled first rest (decimal rest) := by
  rcases token_decimal rest with htoken | htoken
  · exact .of_class (by simp [htoken]) (by simp [htoken])
  · exact .of_class (by simp [htoken]) (by simp [htoken])

theorem block_token (token : Token) (opening : Nat) (rest : Bytes) (closing : Option Nat) :
    (block token opening rest closing).token = token := by
  cases closing <;> rfl

/-- A comment or directive of block form is no operator. -/
theorem block_spelled (first : UInt8) (rest : Bytes) {token : Token} (opening : Nat)
    (inside : Bytes) (closing : Option Nat) (h : token.isTrivia) :
    Spelled first rest (block token opening inside closing) := by
  have htoken := block_token token opening inside closing
  refine .of_class ?_ ?_
  · intro heof
    rw [← htoken, heof] at h
    cases h
  · intro op hop
    rw [← htoken, hop] at h
    cases h

/-- A lexeme that begins with neither a letter nor a digit is spelled as it says. -/
theorem symbol_spelled (previous : Token) (first : UInt8) (rest : Bytes) :
    Spelled first rest (symbol previous first rest) := by
  unfold symbol
  split
  · exact .of_class nofun nofun
  · simp only [string]
    split <;> exact .of_class nofun nofun
  · unfold numbered
    split <;> exact .of_class nofun nofun
  · unfold caret
    split
    · exact .single (by decide)
    · exact .of_class nofun nofun
  · refine block_spelled _ _ 1 rest _ ?_
    split <;> rfl
  · unfold parenthesis
    split
    · exact block_spelled _ _ 2 _ _ rfl
    · exact .single (by decide)
  · unfold slash
    split
    · exact .of_class nofun nofun
    · exact .single (by decide)
  · exact operator_spelled first rest

/-- A lexeme is spelled as it says. -/
theorem read_spelled (previous : Token) (first : UInt8) (rest : Bytes) :
    Spelled first rest (read previous first rest) := by
  unfold read
  split
  · exact word_spelled first rest
  · split
    · exact decimal_spelled first rest
    · exact symbol_spelled previous first rest

end Lexeme

end PascalUnits
