import PascalUnits.Toml.Fault

/-!
# Quoted texts of TOML

A quoted text is read character by character: `Mode` says what the next character continues. Three
quotation marks begin a text over several lines, which ends at the next run of three; one or two
more marks in that run belong to the text. A line end right after the first three does not.
-/

namespace PascalUnits.Toml

/-- How a quoted text is written. -/
structure Quotation where
  mark : Char
  multiline : Bool
  /-- Where it begins. -/
  start : Nat

/-- What the next character of a quoted text continues. -/
inductive Mode where
  | plain
  /-- A run of marks in a text over several lines. -/
  | marks (count : Nat)
  /-- A backslash. -/
  | escape
  /-- A character given by its number, with so many digits to come. The number is said to come at
  the place `start`. -/
  | code (start left value : Nat)
  /-- White space between a backslash and the end of its line, from `first` on. -/
  | lineEnd (first : Placed Char)
  /-- White space at the beginning of the lines after such a backslash. -/
  | margin
  deriving DecidableEq, Repr

/-- The character that follows a backslash, if that is one character. -/
def simpleEscape? : Char → Option Char
  | '"' => some '"'
  | '\\' => some '\\'
  | 'b' => some '\x08'
  | 'f' => some '\x0c'
  | 'n' => some '\n'
  | 'r' => some '\r'
  | 't' => some '\t'
  | _ => none

namespace Quotation

/-- The fault of a text that has no end. -/
def unterminated (quotation : Quotation) : Fault :=
  { cause := .unterminatedText, offset := quotation.start }

/-- A character of the text that stands for itself or begins an escape. -/
def plainStep (quotation : Quotation) (char : Placed Char) : Except Fault (List Char × Mode) :=
  if char.value = '\\' ∧ quotation.mark = '"' then .ok ([], .escape)
  else if char.value = '\n' then
    if quotation.multiline then .ok (['\n'], .plain)
    else .error { cause := .lineEndInText, offset := char.offset }
  else if isTextChar char.value then .ok ([char.value], .plain)
  else .error { cause := .characterInText char.value, offset := char.offset }

/-- The character after a backslash. -/
def escapeStep (quotation : Quotation) (char : Placed Char) : Except Fault (List Char × Mode) :=
  match simpleEscape? char.value with
  | some escaped => .ok ([escaped], .plain)
  | none =>
    if char.value = 'u' then .ok ([], .code char.offset 4 0)
    else if char.value = 'U' then .ok ([], .code char.offset 8 0)
    else if quotation.multiline ∧ char.value = '\n' then .ok ([], .margin)
    else if quotation.multiline ∧ isBlank char.value then .ok ([], .lineEnd char)
    else .error { cause := .unknownEscape char.value, offset := char.offset }

/-- A digit of the number of a character. -/
def codeStep (start left value : Nat) (char : Placed Char) : Except Fault (List Char × Mode) :=
  match hexValue? char.value with
  | none => .error { cause := .escapeDigit char.value, offset := char.offset }
  | some digit =>
    let value := value * 16 + digit
    if left ≠ 1 then .ok ([], .code start (left - 1) value)
    else if value.isValidChar then .ok ([Char.ofNat value], .plain)
    else .error { cause := .escapeNumber value, offset := start }

/-- What a character adds to the text and what follows it. -/
def step (quotation : Quotation) (mode : Mode) (char : Placed Char) :
    Except Fault (List Char × Mode) :=
  match mode with
  | .plain | .marks _ => quotation.plainStep char
  | .escape => quotation.escapeStep char
  | .code start left value => codeStep start left value char
  | .lineEnd first =>
    if char.value = '\n' then .ok ([], .margin)
    else if isBlank char.value then .ok ([], .lineEnd first)
    else .error { cause := .unknownEscape first.value, offset := first.offset }
  | .margin =>
    if char.value = '\n' ∨ isBlank char.value then .ok ([], .margin)
    else quotation.plainStep char

/-- Whether a mark in this mode may end the text. -/
def mayEnd : Mode → Bool
  | .plain | .margin => true
  | _ => false

/-- The rest of a quoted text, and what follows its end. -/
def body (quotation : Quotation) :
    Mode → List (Placed Char) → Except Fault (List Char × List (Placed Char))
  | .marks count, [] =>
    if 3 ≤ count then .ok (List.replicate (count - 3) quotation.mark, [])
    else .error quotation.unterminated
  | _, [] => .error quotation.unterminated
  | .marks count, char :: rest =>
    if char.value = quotation.mark then
      if count = 4 then .ok ([quotation.mark, quotation.mark], rest)
      else body quotation (.marks (count + 1)) rest
    else if 3 ≤ count then
      .ok (List.replicate (count - 3) quotation.mark, char :: rest)
    else
      match quotation.plainStep char with
      | .error fault => .error fault
      | .ok (added, mode) => (body quotation mode rest).map fun found =>
        (List.replicate count quotation.mark ++ added ++ found.1, found.2)
  | mode, char :: rest =>
    if char.value = quotation.mark ∧ mayEnd mode then
      if quotation.multiline then body quotation (.marks 1) rest else .ok ([], rest)
    else
      match quotation.step mode char with
      | .error fault => .error fault
      | .ok (added, mode) => (body quotation mode rest).map fun found =>
        (added ++ found.1, found.2)

theorem map_eq_ok {ε α β : Type} {f : α → β} {found : Except ε α} {result : β}
    (h : found.map f = .ok result) : ∃ value, found = .ok value ∧ f value = result := by
  cases found with
  | error => cases h
  | ok value => exact ⟨value, rfl, Except.ok.inj h⟩

theorem body_length_le {quotation : Quotation} {mode : Mode} {chars left : List (Placed Char)}
    {text : List Char} (h : quotation.body mode chars = .ok (text, left)) :
    left.length ≤ chars.length := by
  fun_induction body quotation mode chars generalizing text left with
  | case1 => cases h; exact Nat.le_refl _
  | case2 | case3 | case7 | case11 => cases h
  | case4 | case10 => cases h; exact Nat.le_succ _
  | case6 => cases h; exact Nat.le_refl _
  | case5 _ _ _ _ _ ih | case9 _ _ _ _ _ _ ih => exact Nat.le_succ_of_le (ih h)
  | case8 _ _ _ _ _ _ _ _ ih | case12 _ _ _ _ _ _ _ _ ih =>
    obtain ⟨⟨_, after⟩, found, same⟩ := map_eq_ok h
    cases same
    exact Nat.le_succ_of_le (ih found)

/-- The token of a quoted text after its first marks. -/
def token (quotation : Quotation) (rest : List (Placed Char)) :
    Except Fault (Token × List (Placed Char)) :=
  (quotation.body .plain rest).map fun found =>
    (.quoted (String.ofList found.1) quotation.multiline, found.2)

theorem token_length_le {quotation : Quotation} {rest left : List (Placed Char)} {token : Token}
    (h : quotation.token rest = .ok (token, left)) : left.length ≤ rest.length := by
  obtain ⟨⟨_, after⟩, found, same⟩ := map_eq_ok h
  cases same
  exact body_length_le found

end Quotation

/-- A text less the line end at its beginning. -/
def dropLineEnd : List (Placed Char) → List (Placed Char)
  | [] => []
  | char :: rest => if char.value = '\n' then rest else char :: rest

theorem dropLineEnd_length_le (chars : List (Placed Char)) :
    (dropLineEnd chars).length ≤ chars.length := by
  unfold dropLineEnd
  split
  · exact Nat.le_refl _
  · split
    · exact Nat.le_succ _
    · exact Nat.le_refl _

/-- The token of a quoted text after its first mark, which is at `start`. -/
def quotedToken (mark : Char) (start : Nat) (rest : List (Placed Char)) :
    Except Fault (Token × List (Placed Char)) :=
  match rest with
  | second :: third :: left =>
    if second.value = mark ∧ third.value = mark then
      Quotation.token { mark, multiline := true, start } (dropLineEnd left)
    else Quotation.token { mark, multiline := false, start } rest
  | _ => Quotation.token { mark, multiline := false, start } rest

theorem quotedToken_length_le {mark : Char} {start : Nat} {rest left : List (Placed Char)}
    {token : Token} (h : quotedToken mark start rest = .ok (token, left)) :
    left.length ≤ rest.length := by
  unfold quotedToken at h
  split at h
  · rename_i second third after
    split at h
    · have := Quotation.token_length_le h
      have := dropLineEnd_length_le after
      simp only [List.length_cons]
      omega
    · exact Quotation.token_length_le h
  · exact Quotation.token_length_le h

end PascalUnits.Toml
