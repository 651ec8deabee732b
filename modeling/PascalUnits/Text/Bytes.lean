/-!
# Bytes

Source text is a list of bytes. Each byte stands for the character of the same number when it is
shown (`Bytes.latin`), so the shown text has one character per byte. Files are read and written
through their UTF-8 form (`Bytes.ofText`, `Bytes.text?`).
-/

namespace PascalUnits

/-- The contents of a file, or a part of it. -/
abbrev Bytes := List UInt8

namespace Bytes

/-- One character per byte, of the same number. -/
def latin (bytes : Bytes) : String :=
  String.ofList (bytes.map fun byte => Char.ofNat byte.toNat)

/-- The UTF-8 form of `text`. -/
def ofText (text : String) : Bytes :=
  text.toUTF8.toList

/-- The text whose UTF-8 form the bytes are, if there is one. -/
def text? (bytes : Bytes) : Option String :=
  String.fromUTF8? bytes.toByteArray

/-- ASCII letters in lower case, every other byte as it is. -/
def lower (bytes : Bytes) : Bytes :=
  bytes.map fun byte => if 0x41 ≤ byte ∧ byte ≤ 0x5A then byte + 0x20 else byte

end Bytes

namespace Byte

/-! The bytes with a meaning in source text. -/

/-- Horizontal tab. -/
@[match_pattern] abbrev tab : UInt8 := 0x09
/-- Line feed, which ends a line. -/
@[match_pattern] abbrev lineFeed : UInt8 := 0x0A
/-- Carriage return. -/
@[match_pattern] abbrev carriageReturn : UInt8 := 0x0D
/-- Space. -/
@[match_pattern] abbrev space : UInt8 := 0x20
/-- The sign `#`. -/
@[match_pattern] abbrev hash : UInt8 := 0x23
/-- The sign `$`. -/
@[match_pattern] abbrev dollar : UInt8 := 0x24
/-- The single quotation mark. -/
@[match_pattern] abbrev quote : UInt8 := 0x27
/-- The sign `(`. -/
@[match_pattern] abbrev leftParen : UInt8 := 0x28
/-- The sign `)`. -/
@[match_pattern] abbrev rightParen : UInt8 := 0x29
/-- The sign `*`. -/
@[match_pattern] abbrev star : UInt8 := 0x2A
/-- The sign `+`. -/
@[match_pattern] abbrev plus : UInt8 := 0x2B
/-- The sign `,`. -/
@[match_pattern] abbrev comma : UInt8 := 0x2C
/-- The sign `-`. -/
@[match_pattern] abbrev minus : UInt8 := 0x2D
/-- The sign `.`. -/
@[match_pattern] abbrev period : UInt8 := 0x2E
/-- The sign `/`. -/
@[match_pattern] abbrev slash : UInt8 := 0x2F
/-- The sign `:`. -/
@[match_pattern] abbrev colon : UInt8 := 0x3A
/-- The sign `;`. -/
@[match_pattern] abbrev semicolon : UInt8 := 0x3B
/-- The sign `<`. -/
@[match_pattern] abbrev less : UInt8 := 0x3C
/-- The sign `=`. -/
@[match_pattern] abbrev equal : UInt8 := 0x3D
/-- The sign `>`. -/
@[match_pattern] abbrev greater : UInt8 := 0x3E
/-- The sign `@`. -/
@[match_pattern] abbrev atSign : UInt8 := 0x40
/-- The sign `[`. -/
@[match_pattern] abbrev leftBracket : UInt8 := 0x5B
/-- The sign `]`. -/
@[match_pattern] abbrev rightBracket : UInt8 := 0x5D
/-- The sign `^`. -/
@[match_pattern] abbrev caret : UInt8 := 0x5E
/-- The left brace. -/
@[match_pattern] abbrev leftBrace : UInt8 := 0x7B
/-- The right brace. -/
@[match_pattern] abbrev rightBrace : UInt8 := 0x7D

/-- Space, tab, line feed and carriage return stand between tokens. -/
def isBlank (byte : UInt8) : Bool :=
  byte == space || byte == tab || byte == lineFeed || byte == carriageReturn

/-- ASCII letters and the underscore begin a word. -/
def isLetter (byte : UInt8) : Bool :=
  (0x61 ≤ byte && byte ≤ 0x7A) || (0x41 ≤ byte && byte ≤ 0x5A) || byte == 0x5F

/-- The digits `0` to `9`. -/
def isDigit (byte : UInt8) : Bool :=
  0x30 ≤ byte && byte ≤ 0x39

/-- The digits `0` to `9` and the letters `a` to `f` in either case. -/
def isHexDigit (byte : UInt8) : Bool :=
  isDigit byte || (0x61 ≤ byte && byte ≤ 0x66) || (0x41 ≤ byte && byte ≤ 0x46)

/-- Letters, digits and the underscore continue a word. -/
def isWordByte (byte : UInt8) : Bool :=
  isLetter byte || isDigit byte

/-- The letter `e` in either case, which begins an exponent. -/
def isExponentMark (byte : UInt8) : Bool :=
  byte == 0x65 || byte == 0x45

/-- The value of the low four bits as an upper-case hexadecimal digit. -/
def hexDigit (value : UInt8) : Char :=
  (Nat.digitChar (value.toNat % 16)).toUpper

/-- Two upper-case hexadecimal digits. -/
def hex (byte : UInt8) : String :=
  String.ofList [hexDigit (byte / 16), hexDigit byte]

end Byte

end PascalUnits
