import PascalUnits.Text.Bytes
import PascalUnits.Text.Quoted
import PascalUnits.Toml.Token

/-!
# Faults of TOML texts

A fault is why a text is no TOML document and where that shows. `Cause.message` gives the one text
of each cause, and `lineAndColumn` finds a place in its text.
-/

namespace PascalUnits.Toml

/-- What a text should go on with. -/
inductive Expected where
  | token (token : Token)
  | key
  | value
  | lineEnd
  deriving DecidableEq, Repr

/-- What a fault calls it. -/
def Expected.description : Expected → String
  | .token expected => expected.description
  | .key => "a table key"
  | .value => "a value"
  | .lineEnd => "newline"

/-- Why a text is no document. -/
inductive Cause where
  /-- No token begins with the character. -/
  | unexpected (char : Char)
  /-- Another token, or none, stands where something is expected. -/
  | wanted (expected : Expected) (found : Option Token)
  /-- The text ends where a value is expected. -/
  | unexpectedEnd
  | unterminatedText
  | lineEndInText
  | characterInText (char : Char)
  | unknownEscape (char : Char)
  /-- A character whose number is not written in hexadecimal digits. -/
  | escapeDigit (char : Char)
  /-- A number that no character has. -/
  | escapeNumber (number : Nat)
  | multilineKey
  | malformedNumber
  | malformedMoment
  /-- A bare word that is no value. -/
  | bareText
  /-- A key of several parts that leads through a value other than a table of such keys. -/
  | dottedKey
  | repeatedTable (name : String)
  /-- An array of tables under the name of a table. -/
  | tableAsArray
  deriving DecidableEq, Repr

/-- The text of a cause. -/
def Cause.message : Cause → String
  | .unexpected char => "unexpected character found: `" ++ Text.escapeAscii char ++ "`"
  | .wanted expected found =>
    "expected " ++ expected.description ++ ", found " ++ (found.map (·.description)).getD "eof"
  | .unexpectedEnd => "unexpected eof encountered"
  | .unterminatedText => "unterminated string"
  | .lineEndInText => "newline in string found"
  | .characterInText char => "invalid character in string: `" ++ Text.escapeAscii char ++ "`"
  | .unknownEscape char => "invalid escape character in string: `" ++ Text.escapeAscii char ++ "`"
  | .escapeDigit char => "invalid hex escape character in string: `" ++ Text.escapeAscii char ++ "`"
  | .escapeNumber number => s!"invalid escape value: `{number}`"
  | .multilineKey => "multiline strings are not allowed for key"
  | .malformedNumber => "invalid number"
  | .malformedMoment => "invalid date"
  | .bareText => "invalid TOML value, did you mean to use a quoted string?"
  | .dottedKey => "dotted key attempted to extend non-table type"
  | .repeatedTable name => "redefinition of table `" ++ name ++ "`"
  | .tableAsArray => "table redefined as array"

/-- Why a text is no document and where that shows. -/
structure Fault where
  cause : Cause
  /-- The number of bytes before the place. -/
  offset : Nat
  /-- The key of the table or field that the fault is in, if that is known. -/
  keys : List String := []
  deriving DecidableEq, Repr

/-- The line and the column of the place in a text after so many bytes, both from one. -/
def lineAndColumn (text : String) (offset : Nat) : Nat × Nat :=
  let before := (Bytes.ofText text).take offset
  (before.count 10 + 1, (before.reverse.takeWhile (· != 10)).length + 1)

end PascalUnits.Toml
