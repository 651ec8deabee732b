import PascalUnits.Text.Graphic

/-!
# Quoted text

`quoted` puts a text between double quotation marks on one line. The quotation mark, the backslash
and every character that cannot stand by itself are written with a backslash, so what stands between
the marks tells the text exactly.
-/

namespace PascalUnits.Text

/-- The escape of a character that is written by its number: lower-case hexadecimal digits. -/
def escapeByNumber (char : Char) : List Char :=
  '\\' :: 'u' :: '\x7b' :: (Nat.toDigits 16 char.toNat ++ ['\x7d'])

/-- How quoted text writes one character. -/
def escape (char : Char) : List Char :=
  if char = '"' then ['\\', '"']
  else if char = '\\' then ['\\', '\\']
  else if char = '\x00' then ['\\', '0']
  else if char = '\t' then ['\\', 't']
  else if char = '\n' then ['\\', 'n']
  else if char = '\r' then ['\\', 'r']
  else if isGraphic char then [char]
  else escapeByNumber char

/-- A character in printable ASCII: with a backslash if it is a line end, a tab, a backslash or a
quotation mark of either kind, and by its number if it is no other ASCII character that shows. -/
def escapeAscii (char : Char) : String :=
  if char = '\t' then "\\t"
  else if char = '\n' then "\\n"
  else if char = '\r' then "\\r"
  else if char = '"' ∨ char = '\x27' ∨ char = '\\' then String.ofList ['\\', char]
  else if ' ' ≤ char ∧ char ≤ '~' then String.singleton char
  else String.ofList (escapeByNumber char)

/-- The text between double quotation marks, with escapes. -/
def quoted (text : String) : String :=
  String.ofList ('"' :: (text.toList.flatMap escape ++ ['"']))

end PascalUnits.Text
