/-!
# Tokens of TOML

A TOML text is a list of tokens. What stands in a text is `Placed`: it goes with the number of bytes
before it, so that a fault can say where it is.
-/

namespace PascalUnits.Toml

/-- Something in a text, with the number of bytes before it. -/
structure Placed (α : Type) where
  offset : Nat
  value : α
  deriving DecidableEq, Repr, Inhabited

/-- The characters of a text with the given number of bytes before them. A line end of two
characters counts as one character. -/
def placeFrom (offset : Nat) : List Char → List (Placed Char)
  | '\r' :: '\n' :: rest => { offset, value := '\n' } :: placeFrom (offset + 2) rest
  | char :: rest => { offset, value := char } :: placeFrom (offset + char.utf8Size) rest
  | [] => []

/-- The characters of a text, without the byte order mark at its beginning. -/
def place : List Char → List (Placed Char)
  | '\uFEFF' :: rest => placeFrom 3 rest
  | chars => placeFrom 0 chars

/-- A token. A bare word is a key without quotation marks, a number or the like. -/
inductive Token where
  | newline
  | blank (text : String)
  | comment
  | equals
  | period
  | comma
  | colon
  | plus
  | openBrace
  | closeBrace
  | openBracket
  | closeBracket
  | quoted (value : String) (multiline : Bool)
  | bare (word : String)
  deriving DecidableEq, Repr

/-- What a fault calls a token. -/
def Token.description : Token → String
  | .newline => "a newline"
  | .blank _ => "whitespace"
  | .comment => "a comment"
  | .equals => "an equals"
  | .period => "a period"
  | .comma => "a comma"
  | .colon => "a colon"
  | .plus => "a plus"
  | .openBrace => "a left brace"
  | .closeBrace => "a right brace"
  | .openBracket => "a left bracket"
  | .closeBracket => "a right bracket"
  | .quoted _ true => "a multiline string"
  | .quoted _ false => "a string"
  | .bare _ => "an identifier"

/-- The token that a character is by itself. -/
def Token.ofPunctuation? : Char → Option Token
  | '\n' => some .newline
  | '=' => some .equals
  | '.' => some .period
  | ',' => some .comma
  | ':' => some .colon
  | '+' => some .plus
  | '\x7b' => some .openBrace
  | '\x7d' => some .closeBrace
  | '[' => some .openBracket
  | ']' => some .closeBracket
  | _ => none

/-- Whether a token is white space within a line. -/
def Token.isBlank : Token → Bool
  | .blank _ => true
  | _ => false

/-- Whether a token means nothing: white space, a line end or a comment. -/
def Token.isVoid : Token → Bool
  | .blank _ | .newline | .comment => true
  | _ => false

/-- White space within a line. -/
def isBlank (char : Char) : Bool :=
  char == ' ' || char == '\t'

/-- Characters of bare words. -/
def isBare (char : Char) : Bool :=
  char.isAlphanum || char == '-' || char == '_'

/-- Characters that a comment may hold. -/
def isCommentChar (char : Char) : Bool :=
  char == '\t' || ' ' ≤ char

/-- Characters that stand for themselves in a quoted text. -/
def isTextChar (char : Char) : Bool :=
  isCommentChar char && char != '\x7f'

/-- The value of a hexadecimal digit. -/
def hexValue? (char : Char) : Option Nat :=
  if '0' ≤ char ∧ char ≤ '9' then some (char.toNat - 48)
  else if 'a' ≤ char ∧ char ≤ 'f' then some (char.toNat - 87)
  else if 'A' ≤ char ∧ char ≤ 'F' then some (char.toNat - 55)
  else none

end PascalUnits.Toml
