import PascalUnits.Error
import PascalUnits.Scan.Lexeme
import PascalUnits.Source.File

/-!
# The scanner

A `Scanner` stands somewhere in the text of a file. `Scanner.next` gives the token that begins
after the blanks there, records the lines it passes, and reports a malformed token at its beginning
without ever stopping. Comments are handed out or passed over; directives are always handed out. At
the end of the text every call gives `Token.eof` again. Each call that gives another token leaves
less text (`rest_length_lt`).
-/

namespace PascalUnits

/-- What becomes of comments. -/
inductive Comments where
  | skipped
  | kept
  deriving DecidableEq, Repr

/-- A fault and where its token begins. -/
structure Diagnostic where
  position : Position
  fault : Fault
  deriving DecidableEq, Repr

/-- A place in the text of a file, with what has been learned so far: the lines of the file, the
last token that was neither a comment nor a directive, and the number of faults. -/
structure Scanner where
  file : SourceFile
  offset : Nat
  rest : Bytes
  previous : Token := .illegal
  errorCount : Nat := 0
  deriving DecidableEq, Repr

/-- A token with its offset and its text, and the faults met on the way to its end. -/
structure Scanned where
  offset : Nat
  token : Token
  literal : Bytes
  diagnostics : List Diagnostic := []
  deriving DecidableEq, Repr

/-- The text that goes with a token: none for an operator, which its kind spells. -/
def Token.literal (token : Token) (text : Bytes) : Bytes :=
  match token with
  | .operator _ => []
  | _ => text

namespace Scanner

/-- The bytes that may mark UTF-8 text, passed over at the very beginning of a file. -/
def byteOrderMark : Bytes :=
  [0xEF, 0xBB, 0xBF]

/-- A scanner at the beginning of `source`, which has to have the size of the file. -/
def start (file : SourceFile) (source : Bytes) : Except Error Scanner :=
  if file.size = source.length then
    let mark := if byteOrderMark.isPrefixOf source then byteOrderMark.length else 0
    .ok { file, offset := mark, rest := source.drop mark }
  else
    .error (.sizeMismatch file.size source.length)

/-- Moves over `size` bytes and records the lines that begin there. -/
def advance (scanner : Scanner) (size : Nat) : Scanner :=
  { scanner with
    file := scanner.file.addLines scanner.offset (scanner.rest.take size)
    offset := scanner.offset + size
    rest := scanner.rest.drop size }

/-- Moves to the next byte that is no blank. -/
def skipBlanks (scanner : Scanner) : Scanner :=
  scanner.advance (Lexeme.run Byte.isBlank scanner.rest)

/-- Takes a lexeme off the text. -/
def accept (scanner : Scanner) (lexeme : Lexeme) : Scanned × Scanner :=
  let after := scanner.advance lexeme.size
  let diagnostics :=
    lexeme.fault.toList.map fun fault => ⟨after.file.locate scanner.offset, fault⟩
  ({ offset := scanner.offset
     token := lexeme.token
     literal := lexeme.token.literal (scanner.rest.take lexeme.size)
     diagnostics },
   { after with
     previous := if lexeme.token.isTrivia then scanner.previous else lexeme.token
     errorCount := scanner.errorCount + diagnostics.length })

theorem rest_length_accept (scanner : Scanner) {first : UInt8} {rest : Bytes}
    (h : scanner.rest = first :: rest) :
    (scanner.accept (Lexeme.read scanner.previous first rest)).2.rest.length
      < scanner.rest.length := by
  have pos := Lexeme.read_size_pos scanner.previous first rest
  simp only [accept, advance, List.length_drop, h, List.length_cons]
  omega

theorem rest_length_skipBlanks (scanner : Scanner) :
    scanner.skipBlanks.rest.length ≤ scanner.rest.length := by
  simp only [skipBlanks, advance, List.length_drop]
  omega

/-- The next token, and the scanner after it. -/
def next (comments : Comments) (scanner : Scanner) : Scanned × Scanner :=
  match _ : scanner.skipBlanks.rest with
  | [] =>
    ({ offset := scanner.skipBlanks.offset, token := .eof, literal := [] },
     { scanner.skipBlanks with previous := .eof })
  | first :: rest =>
    let found := scanner.skipBlanks.accept (Lexeme.read scanner.skipBlanks.previous first rest)
    if found.1.token = .comment ∧ comments = .skipped then
      let following := next comments found.2
      ({ following.1 with diagnostics := found.1.diagnostics ++ following.1.diagnostics },
       following.2)
    else
      found
termination_by scanner.rest.length
decreasing_by
  exact Nat.lt_of_lt_of_le (rest_length_accept _ ‹_›) (rest_length_skipBlanks scanner)

/-- A call that does not meet the end of the text leaves less of it. -/
theorem rest_length_lt (comments : Comments) (scanner : Scanner)
    (h : (scanner.next comments).1.token ≠ .eof) :
    (scanner.next comments).2.rest.length < scanner.rest.length := by
  fun_induction next comments scanner with
  | case1 scanner empty => exact absurd rfl h
  | case2 scanner first rest nonempty found skipped following ih =>
    exact Nat.lt_trans (ih h)
      (Nat.lt_of_lt_of_le (rest_length_accept _ nonempty) (rest_length_skipBlanks scanner))
  | case3 scanner first rest nonempty found kept =>
    exact Nat.lt_of_lt_of_le (rest_length_accept _ nonempty) (rest_length_skipBlanks scanner)

end Scanner

end PascalUnits
