import PascalUnits.Proofs.Reader.Basic
import PascalUnits.Proofs.Scan.Lookahead

/-!
# Lexemes that lack their first bytes

A step of a reader may be taken anywhere, and then it passes what a lexeme would be if some bytes
were missing: a word without a letter (`Lexeme.name`), a number without digits (`Lexeme.numeral`), a
comment that is opened by something else (`Lexeme.remark`). Behind the right bytes these are the
lexemes (`name_of_letter`, `numeral_of_digit`, `read_of_opens`).
-/

namespace PascalUnits

namespace Lexeme

/-- A word that may have no letter at all. -/
def name (bytes : Bytes) : Lexeme :=
  let text := bytes.takeWhile Byte.isWordByte
  { token := if 1 < text.length then Token.ofName (Bytes.latin text) else .identifier
    size := text.length }

/-- A decimal number that may have no digits before the period. -/
def numeral (bytes : Bytes) : Lexeme :=
  let whole := run Byte.isDigit bytes
  let fractional := fraction (bytes.drop whole)
  let scaled := exponent (bytes.drop (whole + fractional))
  { token := if scaled = 0 then if fractional = 0 then .integer else .float else .float
    size := whole + fractional + scaled }

/-- A comment or directive that begins with the byte `first`, whatever the second byte is. -/
def remark (token : Token) (first : UInt8) (rest : Bytes) : Lexeme :=
  let second := (rest.take 1).length
  match first with
  | Byte.slash =>
    { token, size := 1 + second + run (· != Byte.lineFeed) (rest.drop second) }
  | Byte.leftParen =>
    block token (1 + second) (rest.drop second) (pastStar? (rest.drop second))
  | _ => block token 1 rest (pastBrace? rest)

variable {accept : UInt8 → Bool} {first : UInt8} {rest : Bytes}

theorem run_cons_of_pos (h : accept first) : run accept (first :: rest) = run accept rest + 1 := by
  rw [run, List.takeWhile_cons_of_pos h]
  rfl

/-- A run has a first byte. -/
theorem head?_any_iff {bytes : Bytes} : bytes.head?.any accept ↔ run accept bytes ≠ 0 := by
  cases bytes with
  | nil => simp [run]
  | cons byte rest =>
      cases haccept : accept byte with
      | false => simp [run, haccept]
      | true => simp [run, haccept]

/-- A word goes with its text. -/
theorem literal_name (bytes text : Bytes) : (name bytes).token.literal text = text := by
  simp only [name]
  split
  · unfold Token.ofName
    split <;> rfl
  · rfl

theorem name_of_letter (h : Byte.isLetter first) : name (first :: rest) = word first rest := by
  have hword : Byte.isWordByte first := by simp [Byte.isWordByte, h]
  simp only [name, word, List.takeWhile_cons_of_pos hword]
  cases rest.takeWhile Byte.isWordByte <;> simp

theorem beginsTypeName_eq (bytes : Bytes) :
    beginsTypeName bytes =
      (bytes.head?.any Byte.isLetter && bytes[1]?.any Byte.isWordByte) := by
  unfold beginsTypeName
  split
  · rfl
  · rename_i hshort
    cases bytes with
    | nil => rfl
    | cons first rest =>
        cases rest with
        | nil => simp
        | cons second rest => exact absurd rfl (hshort first second rest)

theorem pastStar?_of_open (h : ¬(first = Byte.star ∧ rest.head? = some Byte.rightParen)) :
    pastStar? (first :: rest) = (pastStar? rest).map (· + 1) := by
  rw [pastStar?]
  intro others hfirst hrest
  exact h ⟨hfirst, by rw [hrest]; rfl⟩

theorem token_remark (token : Token) (first : UInt8) (rest : Bytes) :
    (remark token first rest).token = token := by
  unfold remark
  split
  · rfl
  · exact block_token _ _ _ _
  · exact block_token _ _ _ _

/-- What opens a comment or directive begins one. -/
theorem read_of_opens {token : Token} (h : Reader.opens first rest.head? = some token)
    (previous : Token) : token.isTrivia ∧ read previous first rest = remark token first rest := by
  unfold Reader.opens at h
  split at h
  · cases h
    refine ⟨?_, rfl⟩
    split <;> rfl
  · split at h
    · rename_i hstar
      obtain ⟨others, rfl⟩ := List.head?_eq_some_iff.1 hstar
      cases h
      exact ⟨rfl, rfl⟩
    · cases h
  · split at h
    · rename_i hslash
      obtain ⟨others, rfl⟩ := List.head?_eq_some_iff.1 hslash
      cases h
      exact ⟨rfl, rfl⟩
    · cases h
  · cases h

/-- Nothing else does. -/
theorem token_ne_comment (h : Reader.opens first rest.head? = none) (previous : Token) :
    (read previous first rest).token ≠ .comment := by
  unfold read
  split
  · rcases token_word first rest with htoken | ⟨w, htoken⟩ <;> simp [htoken]
  · split
    · rcases token_decimal rest with htoken | htoken <;> simp [htoken]
    · unfold symbol
      split
      · simp [hexadecimal]
      · simp only [string]
        split <;> simp
      · unfold numbered
        split <;> simp
      · unfold caret
        split <;> simp
      · cases h
      · rw [parenthesis_of_ne fun hstar => by rw [hstar] at h; cases h]
        simp
      · rw [slash_of_ne fun hslash => by rw [hslash] at h; cases h]
        simp
      · unfold operator
        split
        · simp
        · split <;> simp

/-- It ends inside the text. -/
theorem remark_size_le (token : Token) (first : UInt8) (rest : Bytes) :
    (remark token first rest).size ≤ rest.length + 1 := by
  have hone : (rest.take 1).length ≤ rest.length := by simp
  unfold remark
  split
  · have hrun := run_drop_le (· != Byte.lineFeed) rest (rest.take 1).length
    simp only
    omega
  · have hblock := block_size_le token (1 + (rest.take 1).length)
      fun size (h : pastStar? (rest.drop (rest.take 1).length) = some size) => le_of_pastStar h
    rw [List.length_drop] at hblock
    exact Nat.le_trans hblock (by omega)
  · have hblock := block_size_le token 1
      fun size (h : pastBrace? rest = some size) => le_of_pastBrace h
    exact Nat.le_trans hblock (by omega)

theorem fraction_drop_le (bytes : Bytes) {size : Nat} (h : size ≤ bytes.length) :
    size + fraction (bytes.drop size) ≤ bytes.length := by
  have hfraction := fraction_le (bytes.drop size)
  rw [List.length_drop] at hfraction
  omega

theorem exponent_drop_le (bytes : Bytes) {size : Nat} (h : size ≤ bytes.length) :
    size + exponent (bytes.drop size) ≤ bytes.length := by
  have hexponent := exponent_le (bytes.drop size)
  rw [List.length_drop] at hexponent
  omega

theorem numeral_size_le (bytes : Bytes) : (numeral bytes).size ≤ bytes.length :=
  exponent_drop_le bytes (fraction_drop_le bytes (run_le Byte.isDigit bytes))

theorem numeral_of_digit (h : Byte.isDigit first) : numeral (first :: rest) = decimal rest := by
  have hdrop : ∀ more, (first :: rest).drop (run Byte.isDigit rest + 1 + more) =
      rest.drop (run Byte.isDigit rest + more) := by
    intro more
    rw [Nat.add_right_comm, List.drop_succ_cons]
  simp only [numeral, decimal, run_cons_of_pos h, hdrop, List.drop_succ_cons, Lexeme.mk.injEq,
    Nat.add_eq_zero_iff, and_true]
  refine ⟨?_, by omega⟩
  split
  · rename_i hscaled
    simp [hscaled]
  · rename_i hscaled
    simp [hscaled]

end Lexeme

end PascalUnits
