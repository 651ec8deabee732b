/-!
# Pieces of text

Splitting a text at every occurrence of a character (`splitOn`), cutting it at the last one
(`cutLast?`), and taking characters off both ends (`trim`).
-/

namespace PascalUnits.Text

/-- The pieces between the separators; one more than there are separators. -/
def splitChars (separator : Char) : List Char → List (List Char)
  | [] => [[]]
  | char :: rest =>
    match char == separator, splitChars separator rest with
    | true, pieces => [] :: pieces
    | false, [] => [[char]]
    | false, piece :: pieces => (char :: piece) :: pieces

/-- The pieces of `text` between the separators. -/
def splitOn (separator : Char) (text : String) : List String :=
  (splitChars separator text.toList).map String.ofList

/-- What stands before and after the last occurrence of `separator`. -/
def cutLast? (separator : Char) (text : String) : Option (String × String) :=
  let reversed := text.toList.reverse
  let after := reversed.takeWhile (· != separator)
  match reversed.drop after.length with
  | [] => none
  | _ :: before => some (String.ofList before.reverse, String.ofList after.reverse)

/-- `text` without the characters at either end that `strip` accepts. -/
def trim (strip : Char → Bool) (text : String) : String :=
  String.ofList ((text.toList.dropWhile strip).reverse.dropWhile strip).reverse

end PascalUnits.Text
