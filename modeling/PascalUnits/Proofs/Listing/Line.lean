import Std.Data.String.ToNat
import PascalUnits.Program
import PascalUnits.Proofs.Literal
import PascalUnits.Proofs.Text.Latin
import PascalUnits.Proofs.Text.Quoted

/-!
# The lines of a token listing

A `Listing.Line` is what a line of a listing of tokens tells: a token with its place and its
literal, or a fault with its place. `Line.text` is how such a line is written, and `Line.read?`
reads it back (`Line.read?_text`): it cuts the line at its first two tabs, cuts the place at its
last two colons, and takes the literal out of its quotes. No line end is inside of a line
(`Line.Legible.not_mem_text`), so all the lines of a listing are read back (`readLines?_lines`).
-/

namespace PascalUnits

namespace Text

/-- What stands before and after the first occurrence of `separator`. -/
def cutFirst? (separator : Char) (text : String) : Option (String × String) :=
  match text.toList.dropWhile (· != separator) with
  | [] => none
  | _ :: after =>
    some (String.ofList (text.toList.takeWhile (· != separator)), String.ofList after)

variable {separator : Char}

/-- A text is cut where no separator stands before. -/
theorem cutFirst?_of_toList {text before after : String} (h : separator ∉ before.toList)
    (htext : text.toList = before.toList ++ separator :: after.toList) :
    cutFirst? separator text = some (before, after) := by
  have hbefore : ∀ char ∈ before.toList, (char != separator) = true := fun char hchar =>
    bne_iff_ne.2 (ne_of_mem_of_not_mem hchar h)
  rw [cutFirst?, htext, List.dropWhile_append_of_pos hbefore,
    List.dropWhile_cons_of_neg (by simp), List.takeWhile_append_of_pos hbefore,
    List.takeWhile_cons_of_neg (by simp), List.append_nil]
  simp only [String.ofList_toList]

/-- A text with an end behind each line is split into its lines. Nothing is behind the last one. -/
theorem splitOn_lines {items : List String} (h : ∀ item ∈ items, '\n' ∉ item.toList) :
    splitOn '\n' (Report.lines items) = items ++ [""] := by
  induction items with
  | nil => rfl
  | cons item items ih =>
      obtain ⟨hitem, hitems⟩ := List.forall_mem_cons.1 h
      have htext : (Report.lines (item :: items)).toList =
          item.toList ++ '\n' :: (Report.lines items).toList := by
        simp [Report.lines, String.toList_join]
      rw [splitOn, htext, splitChars_append, splitChars_of_not_mem hitem, List.map_append,
        List.map_singleton, String.ofList_toList, List.cons_append, List.nil_append,
        List.cons_append]
      exact congrArg (item :: ·) (ih hitems)

end Text

/-- The byte of each character of a text that is shown byte by byte. -/
def Bytes.ofLatin (text : String) : Bytes :=
  text.toList.map fun char => UInt8.ofNat char.toNat

theorem Bytes.ofLatin_latin (bytes : Bytes) : ofLatin (latin bytes) = bytes := by
  rw [ofLatin, latin, String.toList_ofList, List.map_map]
  refine (List.map_congr_left fun byte _ => ?_).trans (List.map_id bytes)
  show UInt8.ofNat (Char.ofNat byte.toNat).toNat = byte
  rw [Text.toNat_ofNat, UInt8.ofNat_toNat]

namespace Token

/-- The tokens that are no words of the language. -/
def plain : List Token :=
  [.illegal, .eof, .comment, .directive, .identifier, .integer, .float, .char, .string] ++
    [Operator.atSign, .caret, .plus, .minus, .star, .slash, .equal, .less, .greater, .notEqual,
      .lessEqual, .greaterEqual, .assign, .colon, .comma, .period, .ellipsis, .semicolon,
      .leftParen, .leftBracket, .rightParen, .rightBracket].map .operator

/-- The token that is spelled like this. -/
def ofSpelling? (spelling : String) : Option Token :=
  if h : spelling ∈ Word.spellings then some (.word ⟨spelling, h⟩)
  else plain.find? (·.spelling = spelling)

theorem mem_plain_or_word (token : Token) : token ∈ plain ∨ ∃ w, token = .word w := by
  cases token with
  | word w => exact .inr ⟨w, rfl⟩
  | operator op =>
      left
      cases op <;> decide
  | illegal | eof | comment | directive | identifier | integer | float | char | string =>
      left
      decide

/-- A token is told by its spelling. -/
theorem ofSpelling?_spelling (token : Token) : ofSpelling? token.spelling = some token := by
  have hplain : ∀ token ∈ plain, ofSpelling? token.spelling = some token := by decide +kernel
  rcases token.mem_plain_or_word with hmem | ⟨w, rfl⟩
  · exact hplain token hmem
  · exact dif_pos w.mem_spellings

/-- No token is spelled like the mark of a fault. -/
theorem spelling_ne (token : Token) : token.spelling ≠ "ERROR" := by
  have hplain : ∀ token ∈ plain, token.spelling ≠ "ERROR" := by decide
  have hwords : "ERROR" ∉ Word.spellings := by decide +kernel
  rcases token.mem_plain_or_word with hmem | ⟨w, rfl⟩
  · exact hplain token hmem
  · exact ne_of_mem_of_not_mem w.mem_spellings hwords

/-- No spelling has white space in it. -/
theorem not_mem_spelling {separator : Char} (h : separator ∈ ['\t', '\n']) (token : Token) :
    separator ∉ token.spelling.toList := by
  have hplain : ∀ token ∈ plain,
      '\t' ∉ token.spelling.toList ∧ '\n' ∉ token.spelling.toList := by decide +kernel
  have hwords : ∀ spelling ∈ Word.spellings,
      '\t' ∉ spelling.toList ∧ '\n' ∉ spelling.toList := by decide +kernel
  rcases token.mem_plain_or_word with hmem | ⟨w, rfl⟩
  · exact Text.not_mem_of_separator h (hplain token hmem)
  · exact Text.not_mem_of_separator h (hwords w.spelling w.mem_spellings)

end Token

namespace Listing

/-- Where something stands, as far as it is shown. -/
structure Place where
  path : String
  line : Nat
  column : Nat
  deriving DecidableEq, Repr

namespace Place

/-- The place that is shown of a position. -/
def ofPosition (position : Position) : Place :=
  { path := position.filename, line := position.line, column := position.column }

/-- Path, line and column with colons between them. -/
def text (place : Place) : String :=
  place.path ++ ":" ++ s!"{place.line}:{place.column}"

/-- The place that is written like this: what is before the last two colons is the path. -/
def read? (text : String) : Option Place := do
  let (before, column) ← Text.cutLast? ':' text
  let (path, line) ← Text.cutLast? ':' before
  return { path, line := ← line.toNat?, column := ← column.toNat? }

/-- A position somewhere in a file with a name is shown as its place. -/
theorem text_ofPosition {position : Position} (hname : position.filename ≠ "")
    (hvalid : position.isValid) : (ofPosition position).text = position.display := by
  have hempty : position.filename.isEmpty = false := by
    rw [Bool.eq_false_iff, Ne, String.isEmpty_iff]
    exact hname
  rw [Position.display, hempty, hvalid]
  rfl

/-- A number is written in digits alone. -/
theorem not_mem_toDigits {separator : Char} (h : separator.isDigit = false) (number : Nat) :
    separator ∉ Nat.toDigits 10 number := by
  intro hmem
  rw [Nat.isDigit_of_mem_toDigits (by decide) (by decide) hmem] at h
  cases h

theorem toList_text (place : Place) :
    place.text.toList = (place.path.toList ++ ':' :: Nat.toDigits 10 place.line) ++
      ':' :: Nat.toDigits 10 place.column := by
  simp [text, toString]

/-- A place is read back, whatever its path is. -/
theorem read?_text (place : Place) : read? place.text = some place := by
  have hnumber (number : Nat) : (String.ofList (Nat.toDigits 10 number)).toNat? = some number :=
    Nat.toNat?_repr number
  have hcolon (number : Nat) : ':' ∉ Nat.toDigits 10 number := not_mem_toDigits (by decide) number
  have hcut : Text.cutLast? ':' place.text =
      some (String.ofList (place.path.toList ++ ':' :: Nat.toDigits 10 place.line),
        String.ofList (Nat.toDigits 10 place.column)) := by
    rw [← String.ofList_toList (s := place.text), toList_text, Text.cutLast?_append (hcolon _)]
  simp only [read?, hcut, Text.cutLast?_append (hcolon _), hnumber, String.ofList_toList,
    Option.bind_eq_bind, Option.bind_some]
  rfl

/-- Only the path of a place may have white space in it. -/
theorem not_mem_text {separator : Char} (h : separator ∈ ['\t', '\n']) {place : Place}
    (hpath : separator ∉ place.path.toList) : separator ∉ place.text.toList := by
  have hdigit : separator.isDigit = false ∧ separator ≠ ':' := by
    rcases List.mem_pair.1 h with rfl | rfl <;> decide
  obtain ⟨hdigit, hcolon⟩ := hdigit
  rw [toList_text]
  simp [hpath, hcolon, not_mem_toDigits hdigit]

end Place

/-- What a line of a listing tells. -/
inductive Line where
  | token (place : Place) (kind : Token) (literal : Bytes)
  | fault (place : Place) (message : String)
  deriving DecidableEq, Repr

namespace Line

/-- Where the token or the fault stands. -/
def place : Line → Place
  | .token place _ _ => place
  | .fault place _ => place

/-- The line of a token. -/
def ofToken (found : PlacedToken) : Line :=
  .token (.ofPosition found.position) found.token found.literal

/-- The line of a fault. -/
def ofDiagnostic (diagnostic : Diagnostic) : Line :=
  .fault (.ofPosition diagnostic.position) diagnostic.fault.message

/-- What follows the place and its tab. -/
def detail : Line → String × String
  | .token _ kind literal => (kind.spelling, Text.quoted (Bytes.latin literal))
  | .fault _ message => ("ERROR", message)

theorem detail_token (place : Place) (kind : Token) (literal : Bytes) :
    (token place kind literal).detail = (kind.spelling, Text.quoted (Bytes.latin literal)) :=
  rfl

theorem detail_fault (place : Place) (message : String) :
    (fault place message).detail = ("ERROR", message) :=
  rfl

/-- A line as it is written: three fields with tabs between them. -/
def text (line : Line) : String :=
  "\t".intercalate [line.place.text, line.detail.1, line.detail.2]

/-- The line with these fields. -/
def ofFields? (place : Place) (kind last : String) : Option Line :=
  if kind = "ERROR" then some (.fault place last)
  else do return .token place (← Token.ofSpelling? kind) (Bytes.ofLatin (← Text.unquote? last))

/-- The line that is written like this. -/
def read? (text : String) : Option Line := do
  let (place, detail) ← Text.cutFirst? '\t' text
  let (kind, last) ← Text.cutFirst? '\t' detail
  ofFields? (← Place.read? place) kind last

theorem ofFields?_detail (line : Line) :
    ofFields? line.place line.detail.1 line.detail.2 = some line := by
  cases line with
  | token place kind literal =>
      rw [detail_token, ofFields?, if_neg kind.spelling_ne, Token.ofSpelling?_spelling,
        Text.unquote?_quoted]
      simp only [Bytes.ofLatin_latin, Option.bind_eq_bind, Option.bind_some]
      rfl
  | fault place message => exact if_pos rfl

theorem toList_text (line : Line) :
    line.text.toList =
      line.place.text.toList ++ '\t' :: (line.detail.1 ++ "\t" ++ line.detail.2).toList := by
  simp [text, String.intercalate_cons_cons]

/-- The second field has no white space in it. -/
theorem not_mem_kind {separator : Char} (h : separator ∈ ['\t', '\n']) (line : Line) :
    separator ∉ line.detail.1.toList := by
  cases line with
  | token place kind literal => exact kind.not_mem_spelling h
  | fault place message =>
      have hmark : separator ∉ "ERROR".toList := Text.not_mem_of_separator h (by decide)
      exact hmark

/-- A line is read back. Its first two tabs are those between its fields, unless its path has
one. -/
theorem read?_text {line : Line} (hpath : '\t' ∉ line.place.path.toList) :
    read? line.text = some line := by
  have hdetail : (line.detail.1 ++ "\t" ++ line.detail.2).toList =
      line.detail.1.toList ++ '\t' :: line.detail.2.toList := by
    simp
  have hplace := Text.cutFirst?_of_toList (Place.not_mem_text (by decide) hpath) line.toList_text
  have hkind := Text.cutFirst?_of_toList (not_mem_kind (by decide) line) hdetail
  simp [read?, hplace, hkind, Place.read?_text, ofFields?_detail]

/-- A line that is read back among others: no tab and no line end is in its path, and no line end is
in its last field. -/
structure Legible (line : Line) : Prop where
  path : ∀ separator ∈ ['\t', '\n'], separator ∉ line.place.path.toList
  last : '\n' ∉ line.detail.2.toList

/-- No line end is inside of such a line. -/
theorem Legible.not_mem_text {line : Line} (h : line.Legible) : '\n' ∉ line.text.toList := by
  have hplace := Place.not_mem_text (by decide) (h.path '\n' (by decide))
  have hkind : '\n' ∉ line.detail.1.toList := not_mem_kind (by decide) line
  rw [toList_text]
  simp [hplace, hkind, h.last]

/-- The line of a token is legible, whatever its literal is. -/
theorem legible_ofToken {found : PlacedToken}
    (h : ∀ separator ∈ ['\t', '\n'], separator ∉ found.position.filename.toList) :
    (ofToken found).Legible :=
  ⟨h, Text.not_mem_quoted (by decide) _⟩

/-- So is the line of a fault, as no message has a line end in it. -/
theorem legible_ofDiagnostic {diagnostic : Diagnostic}
    (h : ∀ separator ∈ ['\t', '\n'], separator ∉ diagnostic.position.filename.toList) :
    (ofDiagnostic diagnostic).Legible := by
  refine ⟨h, ?_⟩
  rw [ofDiagnostic, detail_fault]
  cases diagnostic.fault with
  | illegalCharacter byte =>
      have hnone : '\n' ∉ "0123456789ABCDEF".toList ∧ '\n' ∉ "illegal character 0x".toList := by
        decide
      have hdigit (value : UInt8) : '\n' ≠ Byte.hexDigit value := fun heq =>
        hnone.1 (heq ▸ Literal.mem_hexDigits value)
      have hmessage : (Fault.illegalCharacter byte).message =
          "illegal character 0x" ++ Byte.hex byte := rfl
      rw [hmessage, Byte.hex, String.toList_append, String.toList_ofList, List.mem_append, not_or]
      exact ⟨hnone.2, by simp [hdigit]⟩
  | hexadecimalWithoutDigits | characterWithoutDigits | openString | openComment => decide

end Line

/-- The lines of a listing. -/
def readLines? (text : String) : Option (List Line) :=
  (Text.splitOn '\n' text).dropLast.mapM Line.read?

/-- Legible lines are read back. -/
theorem readLines?_lines {lines : List Line} (h : ∀ line ∈ lines, line.Legible) :
    readLines? (Report.lines (lines.map Line.text)) = some lines := by
  rw [readLines?, Text.splitOn_lines (List.forall_mem_map.2 fun line hline =>
    (h line hline).not_mem_text), List.dropLast_concat]
  induction lines with
  | nil => rfl
  | cons line lines ih =>
      obtain ⟨hline, hlines⟩ := List.forall_mem_cons.1 h
      rw [List.map_cons, List.mapM_cons, Line.read?_text (hline.path '\t' (by decide)), ih hlines]
      rfl

end Listing

end PascalUnits
