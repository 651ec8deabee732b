import Mathlib.Data.List.Basic
import Mathlib.Tactic.SplitIfs
import PascalUnits.Text.Quoted
import PascalUnits.Toml.Token

/-!
# Quoted text reads back

`unescape?` reads what follows the opening mark of a quoted text from left to right. Between two
characters it only has to know whether it is behind a backslash or inside a number, and how much the
digits of the number say so far. Each character is read back from its escape, whatever follows
(`unescape?_escape`), so quoted text tells the text exactly (`unquote?_quoted`). It holds neither
line ends nor tabs, whatever the text holds (`not_mem_quoted`).
-/

namespace PascalUnits.Text

/-- What a reader of quoted text is in the middle of. -/
inductive Unquoting where
  | plain
  | escape
  | brace
  | number (value : Nat)

/-- The character that a single one behind a backslash stands for. -/
def unescaped? : Char → Option Char
  | '"' => some '"'
  | '\\' => some '\\'
  | '0' => some '\x00'
  | 't' => some '\t'
  | 'n' => some '\n'
  | 'r' => some '\r'
  | _ => none

/-- The characters of a quoted text, up to the closing mark at its end. -/
def unescape? : Unquoting → List Char → Option (List Char)
  | _, [] => none
  | .plain, char :: rest =>
    if char = '"' then if rest.isEmpty then some [] else none
    else if char = '\\' then unescape? .escape rest
    else (unescape? .plain rest).map (char :: ·)
  | .escape, char :: rest =>
    if char = 'u' then unescape? .brace rest
    else (unescaped? char).bind fun meant => (unescape? .plain rest).map (meant :: ·)
  | .brace, char :: rest => if char = '\x7b' then unescape? (.number 0) rest else none
  | .number value, char :: rest =>
    if char = '\x7d' then (unescape? .plain rest).map (Char.ofNat value :: ·)
    else (Toml.hexValue? char).bind fun digit => unescape? (.number (16 * value + digit)) rest

/-- The text that is quoted. -/
def unquote? (text : String) : Option String :=
  match text.toList with
  | '"' :: inside => (unescape? .plain inside).map String.ofList
  | _ => none

/-- One more digit of a number. -/
theorem unescape?_digitChar {digit : Nat} (h : digit < 16) (value : Nat) (rest : List Char) :
    unescape? (.number value) (Nat.digitChar digit :: rest) =
      unescape? (.number (16 * value + digit)) rest := by
  have hall : ∀ digit < 16, Nat.digitChar digit ≠ '\x7d' ∧
      Toml.hexValue? (Nat.digitChar digit) = some digit := by decide
  obtain ⟨hbrace, hvalue⟩ := hall digit h
  rw [unescape?, if_neg hbrace, hvalue, Option.bind_some]

/-- The digits of a number say which one it is. -/
theorem unescape?_toDigits (number : Nat) (rest : List Char) :
    unescape? (.number 0) (Nat.toDigits 16 number ++ rest) = unescape? (.number number) rest := by
  induction number using Nat.base_induction 16 (by decide) generalizing rest with
  | single digit h =>
      rw [Nat.toDigits_of_lt_base h]
      exact (unescape?_digitChar h 0 rest).trans (by rw [Nat.mul_zero, Nat.zero_add])
  | digit number digit h hpos ih =>
      rw [← Nat.toDigits_append_toDigits (by decide) hpos h, Nat.toDigits_of_lt_base h,
        List.append_assoc, ih]
      exact unescape?_digitChar h number rest

/-- The escape of a character is read as the character, whatever follows. -/
theorem unescape?_escape (char : Char) (rest : List Char) :
    unescape? .plain (escape char ++ rest) = (unescape? .plain rest).map (char :: ·) := by
  unfold escape
  split_ifs with hmark hbackslash hnull htab hfeed hreturn hgraphic
  · subst hmark
    rfl
  · subst hbackslash
    rfl
  · subst hnull
    rfl
  · subst htab
    rfl
  · subst hfeed
    rfl
  · subst hreturn
    rfl
  · rw [List.singleton_append, unescape?, if_neg hmark, if_neg hbackslash]
  · show unescape? (.number 0) (Nat.toDigits 16 char.toNat ++ ['\x7d'] ++ rest) = _
    rw [List.append_assoc, unescape?_toDigits, List.singleton_append, unescape?, if_pos rfl,
      Char.ofNat_toNat]

theorem unescape?_flatMap_escape (chars : List Char) :
    unescape? .plain (chars.flatMap escape ++ ['"']) = some chars := by
  induction chars with
  | nil => rfl
  | cons char chars ih =>
      rw [List.flatMap_cons, List.append_assoc, unescape?_escape, ih]
      rfl

/-- Quoted text tells the text exactly. -/
theorem unquote?_quoted (text : String) : unquote? (quoted text) = some text := by
  rw [unquote?, quoted, String.toList_ofList]
  show (unescape? .plain (text.toList.flatMap escape ++ ['"'])).map String.ofList = some text
  rw [unescape?_flatMap_escape, Option.map_some, String.ofList_toList]

example : unquote? "\"a\\u\x7b7f\x7d\\t\\\"\"" = some "a\x7f\t\"" := by decide

/-- What is neither a tab nor the end of a line. -/
theorem not_mem_of_separator {separator : Char} (h : separator ∈ ['\t', '\n']) {chars : List Char}
    (hchars : '\t' ∉ chars ∧ '\n' ∉ chars) : separator ∉ chars := by
  rcases List.mem_pair.1 h with rfl | rfl
  · exact hchars.1
  · exact hchars.2

/-- A digit is neither. -/
theorem not_mem_toDigits {separator : Char} (h : separator ∈ ['\t', '\n']) (number : Nat) :
    separator ∉ Nat.toDigits 16 number := by
  have hall : ∀ digit < 16, '\t' ∉ [Nat.digitChar digit] ∧ '\n' ∉ [Nat.digitChar digit] := by decide
  induction number using Nat.base_induction 16 (by decide) with
  | single digit hlt =>
      rw [Nat.toDigits_of_lt_base hlt]
      exact not_mem_of_separator h (hall digit hlt)
  | digit number digit hlt hpos ih =>
      rw [← Nat.toDigits_append_toDigits (by decide) hpos hlt, Nat.toDigits_of_lt_base hlt,
        List.mem_append, not_or]
      exact ⟨ih, not_mem_of_separator h (hall digit hlt)⟩

/-- Nor is anything in the escape of a character. -/
theorem not_mem_escape {separator : Char} (h : separator ∈ ['\t', '\n']) (char : Char) :
    separator ∉ escape char := by
  unfold escape
  split_ifs with hmark hbackslash hnull htab hfeed hreturn hgraphic
  · exact not_mem_of_separator h (by decide)
  · exact not_mem_of_separator h (by decide)
  · exact not_mem_of_separator h (by decide)
  · exact not_mem_of_separator h (by decide)
  · exact not_mem_of_separator h (by decide)
  · exact not_mem_of_separator h (by decide)
  · exact not_mem_of_separator h (by simp [Ne.symm htab, Ne.symm hfeed])
  · show separator ∉ ['\\', 'u', '\x7b'] ++ (Nat.toDigits 16 char.toNat ++ ['\x7d'])
    rw [List.mem_append, List.mem_append, not_or, not_or]
    exact ⟨not_mem_of_separator h (by decide), not_mem_toDigits h _,
      not_mem_of_separator h (by decide)⟩

/-- Quoted text holds neither tabs nor line ends, whatever the text holds. -/
theorem not_mem_quoted {separator : Char} (h : separator ∈ ['\t', '\n']) (text : String) :
    separator ∉ (quoted text).toList := by
  have hmark : separator ∉ ['"'] := not_mem_of_separator h (by decide)
  rw [quoted, String.toList_ofList, ← List.singleton_append, List.mem_append, List.mem_append,
    not_or, not_or, List.mem_flatMap]
  exact ⟨hmark, fun ⟨char, _, hmem⟩ => not_mem_escape h char hmem, hmark⟩

end PascalUnits.Text
