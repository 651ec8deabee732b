import PascalUnits.Toml.Cut
import PascalUnits.Toml.Document
import PascalUnits.Toml.Number

/-!
# Reading TOML

`Document.read` reads a text as a document, or says why and where it is none. It goes through the
tokens once. Where a value may hold others, or a line may be followed by others, a bound on the
number of steps goes along; each step takes a token, so the number of tokens is always enough.
-/

namespace PascalUnits.Toml

/-- What is left of a text: its tokens, the fault after them if there is one, and where it ends. -/
structure Input extends Tokens where
  size : Nat

/-- Reads from the rest of a text, or fails. -/
abbrev Reader := StateT Input (Except Fault)

namespace Reader

/-- The next token, or none at the end of the text. -/
def peek : Reader (Option (Placed Token)) := do
  let input ← get
  match input.tokens, input.fault with
  | token :: _, _ => return some token
  | [], none => return none
  | [], some fault => throw fault

/-- Goes on with other tokens. -/
def setTokens (change : List (Placed Token) → List (Placed Token)) : Reader Unit :=
  modify fun input => { input with tokens := change input.tokens }

/-- Takes the next token, or none at the end of the text. -/
def next : Reader (Option (Placed Token)) := do
  let found ← peek
  setTokens (·.drop 1)
  return found

/-- Where a token is, or where the text ends. -/
def offsetOf (found : Option (Placed Token)) : Reader Nat := do
  return (found.map (·.offset)).getD (← get).size

/-- Fails, since a token, or the end of the text, stands where something is expected. -/
def unwanted {α : Type} (expected : Expected) (found : Option (Placed Token)) : Reader α := do
  throw { cause := .wanted expected (found.map (·.value)), offset := ← offsetOf found }

/-- Takes the next token if it is the given one. -/
def accept (token : Token) : Reader Bool := do
  let found ← peek
  if found.map (·.value) = some token then
    setTokens (·.drop 1)
    return true
  else return false

/-- Takes the next token, which has to be the given one. -/
def expect (token : Token) : Reader Unit := do
  let found ← next
  if found.map (·.value) ≠ some token then unwanted (.token token) found

/-- Takes the next token, which has to be a bare word. Otherwise there is the given fault for the
place of the token. -/
def bareWord (fault : Nat → Fault) : Reader Word := do
  let found ← next
  let offset ← offsetOf found
  match found with
  | some { value := .bare word, .. } => return { offset, value := word.toList }
  | _ => throw (fault offset)

/-- Takes white space within a line. -/
def skipSpace : Reader Unit :=
  setTokens (·.dropWhile (·.value.isBlank))

/-- Takes white space and comments. -/
def skipVoid : Reader Unit :=
  setTokens (·.dropWhile (·.value.isVoid))

/-- Takes the end of a line, or the end of the text. -/
def lineEnd : Reader Unit := do
  skipSpace
  let _ ← accept .comment
  let found ← next
  match found with
  | none | some { value := .newline, .. } => return ()
  | found => unwanted .lineEnd found

/-- Takes one part of a key. -/
def keyPart : Reader String := do
  let found ← next
  match found with
  | some { value := .bare word, .. } => return word
  | some { value := .quoted key false, .. } => return key
  | some { value := .quoted _ true, offset } => throw { cause := .multilineKey, offset }
  | found => unwanted .key found

/-- Takes a key and the white space after it. -/
def key : Nat → Reader (List String)
  | 0 => unwanted .key none
  | bound + 1 => do
    let first ← keyPart
    skipSpace
    if ← accept .period then
      skipSpace
      return first :: (← key bound)
    else return [first]

/-- Takes a word of a date or a time that begins at `start`. -/
def momentWord (start : Nat) : Reader Unit := do
  let _ ← bareWord fun _ => { cause := .malformedMoment, offset := start }

/-- Takes what follows a date before a time, or what follows an hour. Nothing of it is checked but
that the words are there. -/
def moment (start : Nat) (hour : Bool) : Reader Value := do
  match (← get).tokens with
  | { value := .blank " ", .. } :: { value := .bare _, .. } :: _ => setTokens (·.drop 2)
  | _ => pure ()
  if ← pure hour <||> accept .colon then
    momentWord start
    expect .colon
    momentWord start
    if ← accept .period then momentWord start
    if ← accept .plus then momentWord start
    if ← accept .colon then momentWord start
  return .moment

/-- Takes the rest of a floating point number: its fraction, if any, and its exponent. -/
def float (word : Word) (fraction : Option Word) : Reader Value := do
  let malformed := word.malformed 0
  let whole ← wholeDigits.read word
  let (places, rest) ← match fraction with
    | none => pure ([], whole.rest)
    | some after =>
      if !whole.rest.value.isEmpty then throw malformed
      let found ← plainDigits.read after
      pure (found.digits, found.rest)
  let exponent : Int ← match rest.value with
    | [] => pure 0
    | [mark] =>
      if mark ≠ 'e' ∧ mark ≠ 'E' then throw malformed
      let _ ← accept .plus
      let found ← plainDigits.read (← bareWord fun _ => malformed)
      if !found.rest.value.isEmpty then throw malformed
      pure (found.integer 10)
    | mark :: _ =>
      if mark ≠ 'e' ∧ mark ≠ 'E' then throw malformed
      let found ← exponentDigits.read (rest.drop 1)
      if !found.rest.value.isEmpty then throw malformed
      pure (found.integer 10)
  let digits := valueOf 10 (whole.digits ++ places)
  match Double.ofDecimal? whole.negative digits (exponent - places.length) with
  | some value => return .float value
  | none => throw malformed

/-- Takes the rest of a number that begins at `start`. A number with a fraction counts as placed
where the fraction is. -/
def number (start : Nat) (word : Word) : Reader (Placed Value) := do
  let placed (value : Value) : Placed Value := { offset := start, value }
  match radix? word with
  | some (radix, digits) =>
    return placed (.integer (← integer { radix, signed := false, zeros := true } digits))
  | none =>
    if word.value.contains 'e' || word.value.contains 'E' then return placed (← float word none)
    else if ← accept .period then
      let after ← bareWord fun offset => { cause := .malformedNumber, offset }
      return { offset := after.offset, value := ← float word (some after) }
    else
      match String.ofList word.value with
      | "inf" => return placed (.float (.infinite false))
      | "-inf" => return placed (.float (.infinite true))
      | "nan" | "-nan" => return placed (.float .notANumber)
      | _ => return placed (.integer (← integer wholeDigits word))

/-- Whether an exponent in a word has a minus sign. -/
def hasSignedExponent (word : List Char) : Bool :=
  (word.zip (word.drop 1)).any fun pair => (pair.1 == 'e' || pair.1 == 'E') && pair.2 == '-'

/-- Takes the rest of a number, a date or a time. -/
def numberOrMoment (word : Word) : Reader (Placed Value) := do
  let chars := word.value
  if chars.contains 'T' || chars.contains 't'
      || ((chars.drop 1).contains '-' && !hasSignedExponent chars) then
    return { offset := word.offset, value := ← moment word.offset false }
  else if ← accept .colon then
    return { offset := word.offset, value := ← moment word.offset true }
  else number word.offset word

/-- Takes the rest of a value that begins with a bare word. -/
def bareValue (offset : Nat) (word : String) : Reader (Placed Value) :=
  match word with
  | "true" => return { offset, value := .boolean true }
  | "false" => return { offset, value := .boolean false }
  | word =>
    let begins := word.toList.head?.any fun first => first == '-' || first.isDigit
    if begins || word == "inf" || word == "nan" then
      numberOrMoment { offset, value := word.toList }
    else throw { cause := .bareText, offset }

mutual

/-- Takes a value. -/
def value : Nat → Reader (Placed Value)
  | 0 => unwanted .value none
  | bound + 1 => do
    match ← next with
    | none => throw { cause := .unexpectedEnd, offset := ← offsetOf none }
    | some { offset, value := .quoted text _ } => return { offset, value := .text text }
    | some { offset, value := .bare word } => bareValue offset word
    | some { offset, value := .plus } =>
      number offset (← bareWord fun offset => { cause := .malformedNumber, offset })
    | some { offset, value := .openBracket } => return { offset, value := .array (← items bound) }
    | some { offset, value := .openBrace } =>
      skipSpace
      if ← accept .closeBrace then return { offset, value := .inlineTable [] }
      else return { offset, value := .inlineTable (← fields bound []) }
    | found => unwanted .value found

/-- Takes the items of an array and its end. A comma may follow the last item. -/
def items : Nat → Reader (List (Placed Value))
  | 0 => unwanted .value none
  | bound + 1 => do
    skipVoid
    if ← accept .closeBracket then return []
    let item ← value bound
    skipVoid
    if ← accept .comma then return item :: (← items bound)
    else
      expect .closeBracket
      return [item]

/-- Takes the fields of an inline table and its end. -/
def fields : Nat → Fields → Reader Fields
  | 0, _ => unwanted .key none
  | bound + 1, known => do
    let names ← key bound
    expect .equals
    skipSpace
    let known ← known.add (← value bound) names
    skipSpace
    if ← accept .closeBrace then return known
    else
      expect .comma
      skipSpace
      fields bound known

end

/-- Takes a header that begins at `offset`, and the end of its line. -/
def header (bound offset : Nat) : Reader Header := do
  expect .openBracket
  let array ← accept .openBracket
  skipSpace
  let keys ← key bound
  expect .closeBracket
  if array then expect .closeBracket
  lineEnd
  return { keys, array, offset }

/-- Takes fields up to a header or the end of the text. -/
def lines : Nat → Fields → Reader Fields
  | 0, known => return known
  | bound + 1, known => do
    skipVoid
    match ← peek with
    | none | some { value := .openBracket, .. } => return known
    | _ =>
      let names ← key bound
      expect .equals
      skipSpace
      let field ← value bound
      lineEnd
      lines bound (← known.add field names)

/-- Takes tables up to the end of the text. -/
def tables : Nat → Reader (List Table)
  | 0 => return []
  | bound + 1 => do
    let found ← peek
    if found.isNone then return []
    let header ← header bound (← offsetOf found)
    let fields ← lines bound []
    return { header, fields } :: (← tables bound)

end Reader

/-- The document that a text stands for. -/
def Document.read (text : String) : Except Fault Document := do
  let found := cut (place text.toList)
  let bound := found.tokens.length + 1
  let (fields, rest) ← (Reader.lines bound []).run { found with size := text.utf8ByteSize }
  let (tables, _) ← (Reader.tables bound).run rest
  return { fields, tables }

end PascalUnits.Toml
