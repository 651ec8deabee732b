import PascalUnits.Toml.Double
import PascalUnits.Toml.Fault

/-!
# Numbers of TOML

A number is written with digits of its radix and single underscores between them. A decimal number
may have a minus sign but no zero before its other digits. Integers are those of 64 bits with a
sign; floating point numbers must not be too large for 64 bits.
-/

namespace PascalUnits.Toml

/-- The characters of a word. -/
abbrev Word := Placed (List Char)

namespace Word

/-- The fault of a word that is no number, so many characters after its beginning. All characters of
words are ASCII. -/
def malformed (word : Word) (place : Nat) : Fault :=
  { cause := .malformedNumber, offset := word.offset + place }

/-- A word less the characters at its beginning. -/
def drop (word : Word) (count : Nat) : Word :=
  { offset := word.offset + count, value := word.value.drop count }

end Word

/-- Whether a character is a digit in a radix. -/
def isDigit (radix : Nat) (char : Char) : Bool :=
  (hexValue? char).any (· < radix)

/-- Digits with single underscores between them. Gives how many characters they are and whether the
last one is an underscore; `underscore` says whether the one before them is. -/
def digitRun (radix : Nat) (underscore : Bool) : List Char → Nat × Bool
  | [] => (0, underscore)
  | char :: rest =>
    if isDigit radix char then
      let (count, last) := digitRun radix false rest
      (count + 1, last)
    else if char = '_' ∧ underscore = false then
      let (count, last) := digitRun radix true rest
      (count + 1, last)
    else (0, underscore)

/-- Where a digit stands after a zero at the beginning. -/
def digitAfterZero? : List Char → Option Nat
  | '0' :: '_' :: char :: _ => if isDigit 10 char then some 2 else none
  | '0' :: char :: _ => if isDigit 10 char then some 1 else none
  | _ => none

/-- Digits, and what follows them. -/
structure Digits where
  negative : Bool := false
  digits : List Char
  rest : Word

/-- How digits may begin. -/
structure DigitRule where
  radix : Nat := 10
  /-- Whether there may be a minus sign. -/
  signed : Bool
  /-- Whether a zero may stand before other digits. -/
  zeros : Bool

/-- The digits at the beginning of a word. -/
def DigitRule.read (rule : DigitRule) (word : Word) : Except Fault Digits :=
  let negative := rule.signed && word.value.head? == some '-'
  let first := if negative then 1 else 0
  let body := word.value.drop first
  if body.head? = some '_' then .error (word.malformed first)
  else
    match if rule.zeros then none else digitAfterZero? body with
    | some place => .error (word.malformed (first + place))
    | none =>
      let (count, underscore) := digitRun rule.radix false body
      if count = 0 ∨ underscore then .error (word.malformed 0)
      else .ok {
        negative
        digits := (body.take count).filter (· != '_')
        rest := word.drop (first + count) }

/-- The number that digits denote. -/
def valueOf (radix : Nat) (digits : List Char) : Nat :=
  digits.foldl (fun total char => total * radix + (hexValue? char).getD 0) 0

/-- The integer that digits denote, with its sign. -/
def Digits.integer (radix : Nat) (digits : Digits) : Int :=
  let magnitude : Int := valueOf radix digits.digits
  if digits.negative then -magnitude else magnitude

/-- The radix that a word names at its beginning, and what follows. -/
def radix? (word : Word) : Option (Nat × Word) :=
  match word.value with
  | '0' :: 'x' :: _ => some (16, word.drop 2)
  | '0' :: 'o' :: _ => some (8, word.drop 2)
  | '0' :: 'b' :: _ => some (2, word.drop 2)
  | _ => none

/-- The integer that the digits of a word denote, if it has 64 bits with its sign. -/
def integer (rule : DigitRule) (word : Word) : Except Fault Int := do
  let found ← rule.read word
  let value := found.integer rule.radix
  if found.rest.value.isEmpty ∧ -0x8000000000000000 ≤ value ∧ value < 0x8000000000000000 then
    return value
  else throw (word.malformed 0)

/-- The digits of an integer without a radix, or of the whole part of a number. -/
def wholeDigits : DigitRule :=
  { signed := true, zeros := false }

/-- The digits of a fraction, or of an exponent that stands by itself. -/
def plainDigits : DigitRule :=
  { signed := false, zeros := true }

/-- The digits of an exponent in the word of its number. -/
def exponentDigits : DigitRule :=
  { signed := true, zeros := true }

end PascalUnits.Toml
