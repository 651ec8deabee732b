import PascalUnits.Proofs.Source.LineSearch
import PascalUnits.Scan.Scanner

/-!
# Reading byte by byte

A `Reader` holds one byte of a source, with the offset of that byte and the offset from which it
reads on. Its steps do what a scanner does at once: `next` moves to the next byte, helpers such as
`string` or `comment` pass the rest of a token of which the first byte has been taken, and `scan`
gives the next token. Wherever a step subtracts, cuts a text out of the source or asks for a
position, it is checked that this can be done, and otherwise the step ends in a `Mishap`.
-/

namespace PascalUnits

/-- A place in a source that is read byte by byte. `current` is the byte there, which is missing at
the end, and `ahead` the offset of the byte to be read next. Faults are listed in `reported` if the
reader `reports` them at all. -/
structure Reader where
  file : SourceFile
  source : Bytes
  reports : Bool
  current : Option UInt8
  offset : Nat
  ahead : Nat
  previous : Token := .illegal
  errorCount : Nat := 0
  reported : List Diagnostic := []

/-- A token with its text, and the reader behind it. -/
structure Taken where
  token : Token
  literal : Bytes
  after : Reader

namespace Reader

/-- The file, with a line that begins at `offset` if that is behind a line feed. -/
def lined (reader : Reader) (offset : Nat) : SourceFile :=
  if reader.current = some Byte.lineFeed then reader.file.addLine offset else reader.file

/-- Moves to the next byte. -/
def next (reader : Reader) : Reader :=
  if h : reader.ahead < reader.source.length then
    { reader with
      file := reader.lined reader.ahead
      current := some reader.source[reader.ahead]
      offset := reader.ahead
      ahead := reader.ahead + 1 }
  else
    { reader with
      file := reader.lined reader.source.length
      current := none
      offset := reader.source.length }

/-- The byte behind the current one. -/
def peek (reader : Reader) : Option UInt8 :=
  reader.source[reader.ahead]?

/-- How many bytes are left, the current one included. -/
def left (reader : Reader) : Nat :=
  (reader.source.length - reader.ahead) + reader.current.toList.length

theorem left_next_le (reader : Reader) : reader.next.left ≤ reader.left := by
  unfold next
  split
  · simp only [left, Option.toList_some, List.length_singleton]
    omega
  · simp only [left, Option.toList_none, List.length_nil]
    omega

theorem left_next_lt {reader : Reader} {byte : UInt8} (h : reader.current = some byte) :
    reader.next.left < reader.left := by
  unfold next
  split
  · simp only [left, h, Option.toList_some, List.length_singleton]
    omega
  · simp only [left, h, Option.toList_some, Option.toList_none, List.length_singleton,
      List.length_nil]
    omega

/-- Passes the bytes that are accepted. -/
def passWhile (accept : UInt8 → Bool) (reader : Reader) : Reader :=
  match _ : reader.current with
  | none => reader
  | some byte => if accept byte then passWhile accept reader.next else reader
termination_by reader.left
decreasing_by exact left_next_lt ‹_›

/-- Passes everything up to a right brace. Tells whether there is one. -/
def passBrace (reader : Reader) : Reader × Bool :=
  match _ : reader.current with
  | none => (reader, false)
  | some byte => if byte = Byte.rightBrace then (reader.next, true) else passBrace reader.next
termination_by reader.left
decreasing_by exact left_next_lt ‹_›

/-- Passes everything up to a star with a right parenthesis after it. Tells whether there is one. -/
def passStar (reader : Reader) : Reader × Bool :=
  match _ : reader.current with
  | none => (reader, false)
  | some byte =>
    if byte = Byte.star ∧ reader.next.current = some Byte.rightParen then (reader.next.next, true)
    else passStar reader.next
termination_by reader.left
decreasing_by exact left_next_lt ‹_›

/-- Passes the inside of a string with the quote that closes it. Tells how many characters there
are, on top of those that have been counted before, and whether the string is closed. -/
def passString (characters : Nat) (reader : Reader) : Reader × Nat × Bool :=
  match _ : reader.current with
  | none => (reader, characters, false)
  | some byte =>
    if byte = Byte.lineFeed then (reader, characters, false)
    else if byte = Byte.quote then
      if _ : reader.next.current = some Byte.quote then
        passString (characters + 1) reader.next.next
      else (reader.next, characters, true)
    else passString (characters + 1) reader.next
termination_by reader.left
decreasing_by
  · exact Nat.lt_trans (left_next_lt ‹reader.next.current = _›) (left_next_lt ‹_›)
  · exact left_next_lt ‹_›

/-- The faults that have been reported, with one more. -/
def noting (offset : Nat) (fault : Fault) (reader : Reader) : Except Mishap (List Diagnostic) :=
  if reader.reports then do
    let pos ← Checked.pos reader.file offset
    let position ← reader.file.searched pos
    return reader.reported ++ [⟨position, fault⟩]
  else
    return reader.reported

/-- Counts a fault, and reports it where it is met. -/
def report (offset : Nat) (fault : Fault) (reader : Reader) : Except Mishap Reader := do
  let reported ← reader.noting offset fault
  return { reader with errorCount := reader.errorCount + 1, reported }

/-- The text from `start` up to the current byte. -/
def literal (start : Nat) (reader : Reader) : Except Mishap Bytes :=
  Checked.slice reader.source start reader.offset

/-- Reports what is wrong with a token that begins at `start`, if anything. -/
def judge (start : Nat) (fault : Option Fault) (reader : Reader) : Except Mishap Reader :=
  match fault with
  | none => return reader
  | some fault => reader.report start fault

/-- Ends a token that begins at `start`, with what is wrong with it. -/
def finish (token : Token) (start : Nat) (fault : Option Fault) (reader : Reader) :
    Except Mishap Taken := do
  let after ← reader.judge start fault
  return { token, literal := ← after.literal start, after }

/-- Passes the inside of a comment with what closes it. Tells whether it is closed. -/
def passComment (first : UInt8) (reader : Reader) : Reader × Bool :=
  match first with
  | Byte.slash => (reader.next.passWhile (· != Byte.lineFeed), true)
  | Byte.leftParen => reader.next.passStar
  | _ => reader.passBrace

/-- A comment or directive of which the byte `first` has been taken. -/
def comment (token : Token) (first : UInt8) (reader : Reader) : Except Mishap Taken := do
  let start ← Checked.sub reader.offset 1
  let passed := reader.passComment first
  passed.1.finish token start (if passed.2 then none else some .openComment)

/-- A word. -/
def identifier (reader : Reader) : Except Mishap Taken := do
  let after := reader.passWhile Byte.isWordByte
  let literal ← after.literal reader.offset
  let token := if 1 < literal.length then Token.ofName (Bytes.latin literal) else .identifier
  return { token, literal, after }

/-- Passes a period and the digits after it, which make a float of a number. -/
def fraction (number : Token × Reader) : Token × Reader :=
  if number.2.current = some Byte.period ∧ number.2.peek.any Byte.isDigit then
    (.float, number.2.next.passWhile Byte.isDigit)
  else number

/-- Passes a sign. -/
def sign (reader : Reader) : Reader :=
  if reader.current = some Byte.plus ∨ reader.current = some Byte.minus then reader.next else reader

/-- Passes an exponent, which makes a float of a number. -/
def exponent (number : Token × Reader) : Token × Reader :=
  if number.2.current.any Byte.isExponentMark then
    (.float, number.2.next.sign.passWhile Byte.isDigit)
  else number

/-- A number, decimal or hexadecimal. -/
def number (reader : Reader) : Except Mishap Taken :=
  if reader.current = some Byte.dollar then do
    let after := reader.next.passWhile Byte.isHexDigit
    let width ← Checked.sub after.offset reader.offset
    after.finish .integer reader.offset
      (if width ≤ 1 then some .hexadecimalWithoutDigits else none)
  else
    let passed := exponent (fraction (.integer, reader.passWhile Byte.isDigit))
    passed.2.finish passed.1 reader.offset none

/-- A string of which the opening quote has been taken. -/
def string (reader : Reader) : Except Mishap Taken := do
  let start ← Checked.sub reader.offset 1
  let (passed, characters, closed) := reader.passString 0
  passed.finish (if characters = 1 then .char else .string) start
    (if closed then none else some .openString)

/-- A character given by its number, of which the sign `#` has been taken. -/
def numbered (reader : Reader) : Except Mishap Taken := do
  let start ← Checked.sub reader.offset 1
  let (digits, passed) :=
    if reader.current = some Byte.dollar then
      (reader.next.offset, reader.next.passWhile Byte.isHexDigit)
    else (reader.offset, reader.passWhile Byte.isDigit)
  passed.finish .char start
    (if passed.offset = digits then some .characterWithoutDigits else none)

/-- An operator of one byte, which has been taken, or one of two bytes. -/
def choose (alone : Operator) (longer : List (UInt8 × Operator)) (reader : Reader) : Taken :=
  match reader.current.bind (longer.lookup ·) with
  | some op => { token := .operator op, literal := [], after := reader.next }
  | none => { token := .operator alone, literal := [], after := reader }

/-- A caret, which has been taken, or the control character that it makes of the byte after it. -/
def caret (reader : Reader) : Except Mishap Taken :=
  if Lexeme.endsOperand reader.previous then
    return { token := .operator .caret, literal := [], after := reader }
  else if reader.current.any Byte.isLetter && reader.peek.any Byte.isWordByte then
    return { token := .operator .caret, literal := [], after := reader }
  else do
    let start ← Checked.sub reader.offset 1
    (if reader.current.isSome then reader.next else reader).finish .char start none

/-- What the byte `first` opens with the byte behind it: a comment, a directive, or neither. -/
def opens (first : UInt8) (second : Option UInt8) : Option Token :=
  match first with
  | Byte.leftBrace => some (if second = some Byte.dollar then .directive else .comment)
  | Byte.leftParen => if second = some Byte.star then some .comment else none
  | Byte.slash => if second = some Byte.slash then some .comment else none
  | _ => none

/-- A token that begins at `start` with the byte `first`, which has been taken. -/
def symbol (start : Nat) (first : UInt8) (reader : Reader) : Except Mishap Taken :=
  match first with
  | Byte.quote => reader.string
  | Byte.hash => reader.numbered
  | Byte.caret => reader.caret
  | Byte.leftParen => return reader.choose .leftParen []
  | Byte.slash => return reader.choose .slash []
  | first =>
    match Lexeme.operators first with
    | some (alone, longer) => return reader.choose alone longer
    | none => return ⟨.illegal, [first], ← reader.report start (.illegalCharacter first)⟩

/-- The token that begins with the current byte, which is `first`. -/
def lexeme (first : UInt8) (reader : Reader) : Except Mishap Taken :=
  if Byte.isLetter first then reader.identifier
  else if Byte.isDigit first || first == Byte.dollar then reader.number
  else reader.next.symbol reader.offset first

end Reader

/-- Remembers the token, unless it is a comment or directive. -/
def Taken.settled (taken : Taken) : Taken :=
  if taken.token.isTrivia then taken
  else { taken with after := { taken.after with previous := taken.token } }

namespace Reader

variable {reader after : Reader}

theorem left_passWhile_le (accept : UInt8 → Bool) (reader : Reader) :
    (reader.passWhile accept).left ≤ reader.left := by
  fun_induction passWhile accept reader with
  | case1 => exact Nat.le_refl _
  | case2 reader byte _ _ ih => exact Nat.le_trans ih (left_next_le reader)
  | case3 => exact Nat.le_refl _

theorem left_passBrace_le (reader : Reader) : reader.passBrace.1.left ≤ reader.left := by
  fun_induction passBrace reader with
  | case1 => exact Nat.le_refl _
  | case2 reader => exact left_next_le reader
  | case3 reader byte _ _ ih => exact Nat.le_trans ih (left_next_le reader)

theorem left_passStar_le (reader : Reader) : reader.passStar.1.left ≤ reader.left := by
  fun_induction passStar reader with
  | case1 => exact Nat.le_refl _
  | case2 reader => exact Nat.le_trans (left_next_le reader.next) (left_next_le reader)
  | case3 reader byte _ _ ih => exact Nat.le_trans ih (left_next_le reader)

theorem left_passComment_le (first : UInt8) (reader : Reader) :
    (reader.passComment first).1.left ≤ reader.left := by
  unfold passComment
  split
  · exact Nat.le_trans (left_passWhile_le _ _) (left_next_le reader)
  · exact Nat.le_trans (left_passStar_le _) (left_next_le reader)
  · exact left_passBrace_le reader

theorem left_report {offset : Nat} {fault : Fault} (h : reader.report offset fault = .ok after) :
    after.left = reader.left := by
  obtain ⟨reported, -, hafter⟩ := bind_eq_ok_iff.1 h
  cases hafter
  rfl

theorem left_judge {start : Nat} {fault : Option Fault}
    (h : reader.judge start fault = .ok after) : after.left = reader.left := by
  cases fault with
  | none =>
      cases h
      rfl
  | some fault => exact left_report h

theorem left_finish {token : Token} {start : Nat} {fault : Option Fault} {taken : Taken}
    (h : reader.finish token start fault = .ok taken) : taken.after.left = reader.left := by
  obtain ⟨after, hjudge, hfinish⟩ := bind_eq_ok_iff.1 h
  obtain ⟨literal, -, htaken⟩ := bind_eq_ok_iff.1 hfinish
  cases htaken
  exact left_judge hjudge

/-- A comment leaves no more bytes than there were. -/
theorem left_comment_le {token : Token} {first : UInt8} {taken : Taken}
    (h : reader.comment token first = .ok taken) : taken.after.left ≤ reader.left := by
  obtain ⟨start, -, hfinish⟩ := bind_eq_ok_iff.1 h
  rw [left_finish hfinish]
  exact left_passComment_le first reader

/-- The next token with its position, and the reader after it. -/
def scan (comments : Comments) (reader : Reader) : Except Mishap (Nat × Taken) := do
  let begun := reader.passWhile Byte.isBlank
  let pos ← Checked.pos begun.file begun.offset
  match _ : begun.current with
  | none => return (pos, { token := .eof, literal := [], after := { begun with previous := .eof } })
  | some first =>
    match opens first begun.next.current with
    | none => return (pos, (← begun.lexeme first).settled)
    | some token =>
      match _ : begun.next.comment token first with
      | .error mishap => .error mishap
      | .ok taken =>
        if token = .comment ∧ comments = .skipped then scan comments taken.after
        else return (pos, taken.settled)
termination_by reader.left
decreasing_by
  exact Nat.lt_of_le_of_lt (left_comment_le ‹_›)
    (Nat.lt_of_lt_of_le (left_next_lt ‹_›) (left_passWhile_le _ _))

/-- What the first calls hand out, each with a position, a token and a text, and the reader after
them. -/
def calls (comments : Comments) : Nat → Reader → Except Mishap (List (Nat × Token × Bytes) × Reader)
  | 0, reader => return ([], reader)
  | count + 1, reader => do
    let (pos, taken) ← reader.scan comments
    let (handed, last) ← calls comments count taken.after
    return ((pos, taken.token, taken.literal) :: handed, last)

/-- A reader before the beginning of `source`. -/
def outside (file : SourceFile) (source : Bytes) (reports : Bool) : Reader :=
  { file, source, reports, current := some Byte.space, offset := 0, ahead := 0 }

/-- A reader at the beginning of `source`, which has to have the size of the file. -/
def start (file : SourceFile) (source : Bytes) (reports : Bool) : Except Error Reader :=
  if file.size = source.length then
    let first := (outside file source reports).next
    .ok (if Scanner.byteOrderMark.isPrefixOf source then first.next.next.next else first)
  else
    .error (.sizeMismatch file.size source.length)

end Reader

end PascalUnits
