import PascalUnits.Text.Bytes
import PascalUnits.Token

/-!
# Lexemes

`Lexeme.read previous first rest` says which token begins at the byte `first`, how many bytes it
takes, and what is wrong with it, if anything. It looks at the bytes that follow, and at the
`previous` token that was neither a comment nor a directive: a caret after a name or a closing
bracket follows a pointer, elsewhere it may begin a control character. Every lexeme takes at least
the byte it begins with (`read_size_pos`).
-/

namespace PascalUnits

/-- What is wrong with a malformed lexeme. -/
inductive Fault where
  | illegalCharacter (byte : UInt8)
  | hexadecimalWithoutDigits
  | characterWithoutDigits
  | openString
  | openComment
  deriving DecidableEq, Repr

/-- The text of a fault. -/
def Fault.message : Fault → String
  | .illegalCharacter byte => "illegal character 0x" ++ Byte.hex byte
  | .hexadecimalWithoutDigits => "illegal hexadecimal number"
  | .characterWithoutDigits => "illegal character literal"
  | .openString => "string literal not terminated"
  | .openComment => "comment not terminated"

/-- A token with the number of bytes it takes. -/
structure Lexeme where
  token : Token
  size : Nat
  fault : Option Fault := none
  deriving DecidableEq, Repr

namespace Lexeme

/-- The length of the longest run of accepted bytes at the front. -/
def run (accept : UInt8 → Bool) (bytes : Bytes) : Nat :=
  (bytes.takeWhile accept).length

/-- A word: the longest run of letters, digits and underscores. A single letter is a name. -/
def word (first : UInt8) (rest : Bytes) : Lexeme :=
  let text := first :: rest.takeWhile Byte.isWordByte
  { token := if text.length = 1 then .identifier else Token.ofName (Bytes.latin text)
    size := text.length }

/-- The length of a period and the digits after it; zero if no digit follows the period. -/
def fraction : Bytes → Nat
  | Byte.period :: rest => if run Byte.isDigit rest = 0 then 0 else 1 + run Byte.isDigit rest
  | _ => 0

/-- The length of a sign, if one stands here. -/
def sign : Bytes → Nat
  | byte :: _ => if byte = Byte.plus ∨ byte = Byte.minus then 1 else 0
  | [] => 0

/-- The length of an exponent: its mark, an optional sign and any number of digits. -/
def exponent : Bytes → Nat
  | byte :: rest =>
    if Byte.isExponentMark byte then 1 + sign rest + run Byte.isDigit (rest.drop (sign rest)) else 0
  | [] => 0

/-- A decimal number; `rest` follows its first digit. A fraction or an exponent makes it a float. -/
def decimal (rest : Bytes) : Lexeme :=
  let whole := run Byte.isDigit rest
  let fractional := fraction (rest.drop whole)
  let scaled := exponent (rest.drop (whole + fractional))
  { token := if fractional + scaled = 0 then .integer else .float
    size := 1 + whole + fractional + scaled }

/-- A hexadecimal number; `rest` follows the dollar sign. -/
def hexadecimal (rest : Bytes) : Lexeme :=
  let digits := run Byte.isHexDigit rest
  { token := .integer
    size := 1 + digits
    fault := if digits = 0 then some .hexadecimalWithoutDigits else none }

/-- The inside of a string literal with its closing quote: how many bytes it takes, how many
characters it denotes, and whether it is closed on its line. -/
structure Quotation where
  size : Nat
  characters : Nat
  closed : Bool
  deriving DecidableEq, Repr

/-- Reads up to the first quote that is not half of a doubled one, or up to the end of the line. -/
def quotation : Bytes → Quotation
  | [] => ⟨0, 0, false⟩
  | Byte.quote :: Byte.quote :: rest =>
    let inside := quotation rest
    ⟨inside.size + 2, inside.characters + 1, inside.closed⟩
  | Byte.quote :: _ => ⟨1, 0, true⟩
  | byte :: rest =>
    if byte = Byte.lineFeed then ⟨0, 0, false⟩
    else
      let inside := quotation rest
      ⟨inside.size + 1, inside.characters + 1, inside.closed⟩

/-- A string literal; `rest` follows the opening quote. One of a single character is a character. -/
def string (rest : Bytes) : Lexeme :=
  let inside := quotation rest
  { token := if inside.characters = 1 then .char else .string
    size := 1 + inside.size
    fault := if inside.closed then none else some .openString }

/-- A character given by its number; `rest` follows the sign `#`. -/
def numbered : Bytes → Lexeme
  | Byte.dollar :: rest =>
    let digits := run Byte.isHexDigit rest
    { token := .char
      size := 2 + digits
      fault := if digits = 0 then some .characterWithoutDigits else none }
  | rest =>
    let digits := run Byte.isDigit rest
    { token := .char
      size := 1 + digits
      fault := if digits = 0 then some .characterWithoutDigits else none }

/-- Tokens after which a caret follows a pointer. -/
def endsOperand : Token → Bool
  | .identifier => true
  | .operator op => op = .rightParen ∨ op = .rightBracket
  | _ => false

/-- A letter followed by a letter or digit begins a type name. -/
def beginsTypeName : Bytes → Bool
  | first :: second :: _ => Byte.isLetter first && Byte.isWordByte second
  | _ => false

/-- A caret; `rest` follows it. It stands alone after an operand and before a type name, and
otherwise makes a control character of the byte after it. -/
def caret (previous : Token) (rest : Bytes) : Lexeme :=
  if endsOperand previous || beginsTypeName rest then { token := .operator .caret, size := 1 }
  else { token := .char, size := 1 + (rest.take 1).length }

/-- The number of bytes up to and including the first right brace. -/
def pastBrace? : Bytes → Option Nat
  | [] => none
  | byte :: rest => if byte = Byte.rightBrace then some 1 else (pastBrace? rest).map (· + 1)

/-- The number of bytes up to and including the first star with a right parenthesis after it. -/
def pastStar? : Bytes → Option Nat
  | [] => none
  | Byte.star :: Byte.rightParen :: _ => some 2
  | _ :: rest => (pastStar? rest).map (· + 1)

/-- A comment or directive of block form whose opening takes `opening` bytes. One that is not closed
takes all there is. -/
def block (token : Token) (opening : Nat) (rest : Bytes) : Option Nat → Lexeme
  | some size => { token, size := opening + size }
  | none => { token, size := opening + rest.length, fault := some .openComment }

/-- A comment or directive in braces; `rest` follows the left brace. -/
def braced (rest : Bytes) : Lexeme :=
  let token := if rest.head? = some Byte.dollar then Token.directive else .comment
  block token 1 rest (pastBrace? rest)

/-- A comment between parentheses with stars, or a parenthesis; `rest` follows it. -/
def parenthesis : Bytes → Lexeme
  | Byte.star :: rest => block .comment 2 rest (pastStar? rest)
  | _ => { token := .operator .leftParen, size := 1 }

/-- A comment up to the end of the line, or a division; `rest` follows the first slash. -/
def slash : Bytes → Lexeme
  | Byte.slash :: rest => { token := .comment, size := 2 + run (· != Byte.lineFeed) rest }
  | _ => { token := .operator .slash, size := 1 }

/-- The operator that a byte is by itself, and the ones that it begins, by their second byte. -/
def operators : UInt8 → Option (Operator × List (UInt8 × Operator))
  | Byte.colon => some (.colon, [(Byte.equal, .assign)])
  | Byte.period => some (.period, [(Byte.period, .ellipsis)])
  | Byte.less => some (.less, [(Byte.equal, .lessEqual), (Byte.greater, .notEqual)])
  | Byte.greater => some (.greater, [(Byte.equal, .greaterEqual)])
  | Byte.comma => some (.comma, [])
  | Byte.semicolon => some (.semicolon, [])
  | Byte.rightParen => some (.rightParen, [])
  | Byte.leftBracket => some (.leftBracket, [])
  | Byte.rightBracket => some (.rightBracket, [])
  | Byte.plus => some (.plus, [])
  | Byte.minus => some (.minus, [])
  | Byte.star => some (.star, [])
  | Byte.atSign => some (.atSign, [])
  | Byte.equal => some (.equal, [])
  | _ => none

/-- An operator of one or two bytes; a byte that begins none is illegal. -/
def operator (first : UInt8) (rest : Bytes) : Lexeme :=
  match operators first with
  | none => { token := .illegal, size := 1, fault := some (.illegalCharacter first) }
  | some (alone, longer) =>
    match rest.head?.bind (longer.lookup ·) with
    | some op => { token := .operator op, size := 2 }
    | none => { token := .operator alone, size := 1 }

/-- A lexeme that begins with neither a letter nor a digit. -/
def symbol (previous : Token) (first : UInt8) (rest : Bytes) : Lexeme :=
  match first with
  | Byte.dollar => hexadecimal rest
  | Byte.quote => string rest
  | Byte.hash => numbered rest
  | Byte.caret => caret previous rest
  | Byte.leftBrace => braced rest
  | Byte.leftParen => parenthesis rest
  | Byte.slash => slash rest
  | first => operator first rest

/-- The lexeme that begins with the byte `first`, before the bytes `rest`. -/
def read (previous : Token) (first : UInt8) (rest : Bytes) : Lexeme :=
  if Byte.isLetter first then word first rest
  else if Byte.isDigit first then decimal rest
  else symbol previous first rest

theorem block_size_pos {token : Token} {opening : Nat} (h : 0 < opening) (rest : Bytes)
    (size : Option Nat) : 0 < (block token opening rest size).size := by
  cases size <;> exact Nat.add_pos_left h _

theorem numbered_size_pos (rest : Bytes) : 0 < (numbered rest).size := by
  unfold numbered
  split
  · exact Nat.add_pos_left (by decide) _
  · exact Nat.add_pos_left (by decide) _

theorem caret_size_pos (previous : Token) (rest : Bytes) : 0 < (caret previous rest).size := by
  unfold caret
  split
  · exact Nat.one_pos
  · exact Nat.add_pos_left Nat.one_pos _

theorem parenthesis_size_pos (rest : Bytes) : 0 < (parenthesis rest).size := by
  unfold parenthesis
  split
  · exact block_size_pos (by decide) _ _
  · exact Nat.one_pos

theorem slash_size_pos (rest : Bytes) : 0 < (slash rest).size := by
  unfold slash
  split
  · exact Nat.add_pos_left (by decide) _
  · exact Nat.one_pos

theorem operator_size_pos (first : UInt8) (rest : Bytes) : 0 < (operator first rest).size := by
  unfold operator
  split
  · exact Nat.one_pos
  · split
    · exact Nat.two_pos
    · exact Nat.one_pos

theorem symbol_size_pos (previous : Token) (first : UInt8) (rest : Bytes) :
    0 < (symbol previous first rest).size := by
  unfold symbol
  split
  · exact Nat.add_pos_left Nat.one_pos _
  · exact Nat.add_pos_left Nat.one_pos _
  · exact numbered_size_pos rest
  · exact caret_size_pos previous rest
  · exact block_size_pos Nat.one_pos rest _
  · exact parenthesis_size_pos rest
  · exact slash_size_pos rest
  · exact operator_size_pos first rest

/-- Every lexeme takes at least the byte it begins with. -/
theorem read_size_pos (previous : Token) (first : UInt8) (rest : Bytes) :
    0 < (read previous first rest).size := by
  unfold read
  split
  · exact Nat.succ_pos _
  · split
    · simp only [decimal]
      omega
    · exact symbol_size_pos previous first rest

end Lexeme

end PascalUnits
