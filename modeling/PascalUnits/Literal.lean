import PascalUnits.Text.Bytes

/-!
# String literals

`Literal.ofText` writes a text as a Pascal string literal on one line. A control byte, a byte
outside ASCII and the quotation mark close the literal, follow as a character by number, and open
it again.
-/

namespace PascalUnits.Literal

/-- Whether a byte is written by its number. -/
def needsNumber (byte : UInt8) : Bool :=
  byte < 0x20 || 0x7F < byte || byte == Byte.quote

/-- How a literal writes one byte. -/
def encodeByte (byte : UInt8) : List Char :=
  if needsNumber byte then
    ['\x27', '#', '$', Byte.hexDigit (byte / 16), Byte.hexDigit byte, '\x27']
  else
    [Char.ofNat byte.toNat]

/-- The literal for a list of bytes. -/
def encode (bytes : Bytes) : List Char :=
  '\x27' :: (bytes.flatMap encodeByte ++ ['\x27'])

/-- The literal for the UTF-8 form of `text`. -/
def ofText (text : String) : String :=
  String.ofList (encode (Bytes.ofText text))

end PascalUnits.Literal
