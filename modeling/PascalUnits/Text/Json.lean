import PascalUnits.Text.Ascii

/-!
# JSON

`JsonValue` is what a JSON text stands for, with numbers restricted to the natural ones.
`JsonValue.pretty` writes it over several lines: each item of an array and each field of an object
is on a line of its own, two spaces deeper than what it belongs to.
-/

namespace PascalUnits

/-- A value of JSON. Fields of objects are in order. -/
inductive JsonValue where
  | null
  | bool (value : Bool)
  | number (value : Nat)
  | text (value : String)
  | array (items : List JsonValue)
  | object (fields : List (String × JsonValue))
  deriving Repr, Inhabited

namespace JsonValue

/-- The value of the first field with the given name. -/
def field? (name : String) : JsonValue → Option JsonValue
  | .object fields => fields.lookup name
  | _ => none

/-- The text that a value is. -/
def text? : JsonValue → Option String
  | .text value => some value
  | _ => none

/-- The texts in an array of nothing else. -/
def texts? : JsonValue → Option (List String)
  | .array items => items.mapM text?
  | _ => none

/-- Two hexadecimal digits of a number below 256, in lower case. -/
def twoDigits (n : Nat) : List Char :=
  [Nat.digitChar (n / 16), Nat.digitChar (n % 16)]

/-- How a character is written in a text. -/
def escape (char : Char) : List Char :=
  if char = '"' then ['\\', '"']
  else if char = '\\' then ['\\', '\\']
  else if char = '\x08' then ['\\', 'b']
  else if char = '\x0c' then ['\\', 'f']
  else if char = '\n' then ['\\', 'n']
  else if char = '\r' then ['\\', 'r']
  else if char = '\t' then ['\\', 't']
  else if char.toNat < 32 then '\\' :: 'u' :: '0' :: '0' :: twoDigits char.toNat
  else [char]

/-- A text between quotation marks. -/
def quoted (text : String) : String :=
  String.ofList ('"' :: (text.toList.flatMap escape ++ ['"']))

mutual

/-- The parts of the written form of a value. `margin` is what begins a line after its first. -/
def parts (margin : String) : JsonValue → List String
  | .null => ["null"]
  | .bool value => [if value then "true" else "false"]
  | .number value => [toString value]
  | .text value => [quoted value]
  | .array [] => ["[]"]
  | .array (first :: rest) =>
    "[\n" :: (margin ++ "  ") :: parts (margin ++ "  ") first ++ itemParts (margin ++ "  ") rest ++
      ["\n", margin, "]"]
  | .object [] => ["\x7b\x7d"]
  | .object ((name, first) :: rest) =>
    "\x7b\n" :: (margin ++ "  ") :: quoted name :: ": " :: parts (margin ++ "  ") first ++
      fieldParts (margin ++ "  ") rest ++ ["\n", margin, "\x7d"]

/-- The parts of the items of an array after the first. -/
def itemParts (margin : String) : List JsonValue → List String
  | [] => []
  | item :: rest => ",\n" :: margin :: parts margin item ++ itemParts margin rest

/-- The parts of the fields of an object after the first. -/
def fieldParts (margin : String) : List (String × JsonValue) → List String
  | [] => []
  | (name, value) :: rest =>
    ",\n" :: margin :: quoted name :: ": " :: parts margin value ++ fieldParts margin rest

end

/-- A value over several lines. -/
def pretty (value : JsonValue) : String :=
  String.join (parts "" value)

end JsonValue

end PascalUnits
