import PascalUnits.Toml.Quotation

/-!
# Cutting TOML into tokens

`cut` cuts a text into tokens, up to its end or to the first place where it cannot be cut. White
space within a line is a token, because a date and a time may stand on either side of one blank. A
comment reaches to the end of its line.
-/

namespace PascalUnits.Toml

/-- The token that begins with `char`, and what follows it. -/
def nextToken (char : Placed Char) (rest : List (Placed Char)) :
    Except Fault (Token × List (Placed Char)) :=
  let word (keep : Char → Bool) : String :=
    String.ofList (char.value :: (rest.takeWhile (keep ·.value)).map (·.value))
  match Token.ofPunctuation? char.value with
  | some token => .ok (token, rest)
  | none =>
    if char.value = '#' then .ok (.comment, rest.dropWhile fun char => isCommentChar char.value)
    else if char.value = '"' ∨ char.value = '\x27' then quotedToken char.value char.offset rest
    else if isBlank char.value then
      .ok (.blank (word isBlank), rest.dropWhile fun char => isBlank char.value)
    else if isBare char.value then
      .ok (.bare (word isBare), rest.dropWhile fun char => isBare char.value)
    else .error { cause := .unexpected char.value, offset := char.offset }

theorem length_dropWhile_le {α : Type} (drop : α → Bool) (items : List α) :
    (items.dropWhile drop).length ≤ items.length :=
  (List.dropWhile_sublist drop).length_le

theorem nextToken_length_le {char : Placed Char} {rest left : List (Placed Char)} {token : Token}
    (h : nextToken char rest = .ok (token, left)) : left.length ≤ rest.length := by
  unfold nextToken at h
  split at h
  · cases h
    exact Nat.le_refl _
  · split at h
    · cases h
      exact length_dropWhile_le ..
    · split at h
      · exact quotedToken_length_le h
      · split at h
        · cases h
          exact length_dropWhile_le ..
        · split at h
          · cases h
            exact length_dropWhile_le ..
          · cases h

/-- The tokens of a text up to its end, or up to a fault. -/
structure Tokens where
  tokens : List (Placed Token)
  fault : Option Fault
  deriving DecidableEq, Repr

/-- The tokens of a text. -/
def cut : List (Placed Char) → Tokens
  | [] => { tokens := [], fault := none }
  | char :: rest =>
    match _ : nextToken char rest with
    | .error fault => { tokens := [], fault := some fault }
    | .ok (token, left) =>
      let after := cut left
      { after with tokens := { offset := char.offset, value := token } :: after.tokens }
termination_by chars => chars.length
decreasing_by exact Nat.lt_succ_of_le (nextToken_length_le ‹_›)

end PascalUnits.Toml
