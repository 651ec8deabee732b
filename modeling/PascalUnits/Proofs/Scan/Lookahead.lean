import PascalUnits.Proofs.Scan.Lexeme

/-!
# What follows a lexeme

A lexeme is read with a look at what follows it, and blanks never continue one. `Fades size text
other` says that `other` is `text` with bytes turned into spaces, none of them a line feed and none
among the first `size` bytes. The main statement, `read_fades`, says that a lexeme that is no
comment is still read when bytes after it fade, but for one case: a caret stands alone before a type
name, so the name must not fade.
-/

namespace PascalUnits

namespace Lexeme

/-- The second text is the first one with bytes turned into spaces. The first `size` bytes are the
same, and so are all line feeds. -/
inductive Fades : Nat → Bytes → Bytes → Prop
  | nil {size : Nat} : Fades size [] []
  | same {size : Nat} {byte : UInt8} {text other : Bytes} :
      Fades size text other → Fades (size + 1) (byte :: text) (byte :: other)
  | behind {byte shown : UInt8} {text other : Bytes} :
      shown = byte ∨ (byte ≠ Byte.lineFeed ∧ shown = Byte.space) →
      Fades 0 text other → Fades 0 (byte :: text) (shown :: other)

variable {size : Nat} {text other rest : Bytes} {byte first : UInt8}

/-- Bytes that may fade need not. -/
theorem Fades.mono {less : Nat} (h : Fades size text other) (hle : less ≤ size) :
    Fades less text other := by
  induction h generalizing less with
  | nil => exact .nil
  | same h ih =>
      cases less with
      | zero => exact .behind (.inl rfl) (ih (Nat.zero_le _))
      | succ less => exact .same (ih (Nat.le_of_succ_le_succ hle))
  | behind hshown h ih =>
      obtain rfl : less = 0 := Nat.le_zero.1 hle
      exact .behind hshown h

/-- Less is left to agree behind the first bytes. -/
theorem Fades.drop {taken : Nat} (h : Fades (taken + size) text other) :
    Fades size (text.drop taken) (other.drop taken) := by
  induction taken generalizing text other with
  | zero => simpa using h
  | succ taken ih =>
      rw [Nat.succ_add] at h
      cases h with
      | nil => simpa using Fades.nil
      | same h => exact ih h

/-- The same bytes may stand before a text that fades. -/
theorem Fades.append (before : Bytes) (h : Fades 0 text other) :
    Fades before.length (before ++ text) (before ++ other) := by
  induction before with
  | nil => exact h
  | cons byte before ih => exact .same ih

/-- No byte comes or goes. -/
theorem Fades.length_eq (h : Fades size text other) : other.length = text.length := by
  induction h with
  | nil => rfl
  | same _ ih => simp [ih]
  | behind _ _ ih => simp [ih]

/-- Nothing fades within the whole text. -/
theorem Fades.eq_of_length_le (h : Fades size text other) (hle : text.length ≤ size) :
    other = text := by
  induction h with
  | nil => rfl
  | same _ ih => rw [ih (Nat.le_of_succ_le_succ hle)]
  | behind => cases hle

/-- A run that no space continues is the same. -/
theorem Fades.takeWhile {accept : UInt8 → Bool} (hspace : accept Byte.space = false)
    (h : Fades (run accept text) text other) : other.takeWhile accept = text.takeWhile accept := by
  induction text generalizing other with
  | nil => cases h; rfl
  | cons byte text ih =>
      by_cases haccept : accept byte
      · simp only [run, List.takeWhile_cons, haccept, if_true, List.length_cons] at h
        cases h with
        | same h => simp [haccept, ih h]
      · have hrun : run accept (byte :: text) = 0 := by simp [run, haccept]
        rw [hrun] at h
        cases h with
        | behind hshown _ =>
            rcases hshown with rfl | ⟨_, rfl⟩
            · simp [haccept]
            · simp [haccept, hspace]

theorem run_fades {accept : UInt8 → Bool} (hspace : accept Byte.space = false)
    (h : Fades (run accept text) text other) : run accept other = run accept text := by
  rw [run, run, h.takeWhile hspace]

theorem isDigit_space : Byte.isDigit Byte.space = false := by decide

/-- A byte that is no space shows in the faded text only if it was there before. -/
theorem Fades.head?_eq (hbyte : byte ≠ Byte.space) (h : Fades 0 text other)
    (hhead : other.head? = some byte) : text.head? = some byte := by
  cases h with
  | nil => cases hhead
  | behind hshown _ =>
      rcases hshown with rfl | ⟨_, rfl⟩
      · exact hhead
      · exact absurd (Option.some.inj hhead).symm hbyte

/-- A fraction begins with a period and has digits. -/
theorem fraction_cons (byte : UInt8) (text : Bytes) :
    fraction (byte :: text) =
      if byte = Byte.period ∧ run Byte.isDigit text ≠ 0 then run Byte.isDigit text + 1 else 0 := by
  by_cases hperiod : byte = Byte.period
  · subst hperiod
    by_cases hdigits : run Byte.isDigit text = 0
    · rw [if_neg fun h => h.2 hdigits]
      exact if_pos hdigits
    · rw [if_pos ⟨rfl, hdigits⟩, Nat.add_comm]
      exact if_neg hdigits
  · rw [if_neg fun h => hperiod h.1]
    unfold fraction
    split
    · simp_all
    · rfl

/-- A fraction is still read, and none is read where none was. -/
theorem fraction_fades (h : Fades (fraction text) text other) :
    fraction other = fraction text := by
  cases text with
  | nil => cases h; rfl
  | cons byte text =>
      rw [fraction_cons] at h ⊢
      split at h
      · rename_i hfraction
        rw [if_pos hfraction]
        cases h with
        | same h => rw [fraction_cons, run_fades (by decide) h, if_pos hfraction]
      · rename_i hnone
        rw [if_neg hnone]
        cases h with
        | behind hshown h =>
            rw [fraction_cons]
            refine if_neg fun hfraction => hnone ?_
            obtain ⟨rfl, hdigits⟩ := hfraction
            rcases hshown with rfl | ⟨_, hspace⟩
            · refine ⟨rfl, fun hzero => hdigits ?_⟩
              rw [run_fades (by decide) (h.mono (Nat.le_of_eq hzero)), hzero]
            · cases hspace

/-- A sign stays, and none comes. -/
theorem sign_fades (h : Fades (sign text) text other) : sign other = sign text := by
  cases text with
  | nil => cases h; rfl
  | cons byte text =>
      by_cases hsign : byte = Byte.plus ∨ byte = Byte.minus
      · simp only [sign, if_pos hsign] at h ⊢
        cases h with
        | same h => simp only [if_pos hsign]
      · simp only [sign, if_neg hsign] at h ⊢
        cases h with
        | behind hshown _ =>
            rcases hshown with rfl | ⟨_, rfl⟩
            · simp only [if_neg hsign]
            · rfl

/-- An exponent stays, and none comes. -/
theorem exponent_fades (h : Fades (exponent text) text other) :
    exponent other = exponent text := by
  cases text with
  | nil => cases h; rfl
  | cons byte text =>
      by_cases hmark : Byte.isExponentMark byte
      · simp only [exponent, if_pos hmark] at h ⊢
        rw [Nat.add_assoc, Nat.add_comm] at h
        cases h with
        | same h =>
            have hsign := sign_fades (h.mono (Nat.le_add_right _ _))
            have hrun := run_fades isDigit_space h.drop
            simp only [if_pos hmark, hsign, hrun]
      · simp only [exponent, if_neg hmark] at h ⊢
        cases h with
        | behind hshown _ =>
            rcases hshown with rfl | ⟨_, rfl⟩
            · simp only [if_neg hmark]
            · rfl

/-- A number is still read. -/
theorem decimal_fades (h : Fades ((decimal text).size - 1) text other) :
    decimal other = decimal text := by
  have hsize : (decimal text).size - 1 = run Byte.isDigit text +
      fraction (text.drop (run Byte.isDigit text)) +
      exponent (text.drop (run Byte.isDigit text +
        fraction (text.drop (run Byte.isDigit text)))) := by
    simp only [decimal]
    omega
  rw [hsize] at h
  have hwhole := run_fades isDigit_space (h.mono (by omega))
  have hfraction := fraction_fades (h.mono (Nat.le_add_right _ _)).drop
  have hexponent := exponent_fades h.drop
  simp only [decimal, hwhole, hfraction, hexponent]

/-- A quote alone is the end of a string literal. -/
theorem quotation_quote (h : text.head? ≠ some Byte.quote) :
    quotation (Byte.quote :: text) = ⟨1, 0, true⟩ := by
  cases text with
  | nil => rfl
  | cons byte text =>
      have hbyte : byte ≠ Byte.quote := by simpa using h
      unfold quotation
      split <;> simp_all

/-- Any other byte is inside. -/
theorem quotation_cons (hquote : byte ≠ Byte.quote) (hfeed : byte ≠ Byte.lineFeed) :
    quotation (byte :: text) =
      ⟨(quotation text).size + 1, (quotation text).characters + 1, (quotation text).closed⟩ := by
  rw [quotation]
  · exact if_neg hfeed
  · simp_all
  · simp_all

/-- The inside of a string literal is still read. It ends at a quote that is not doubled, or at the
end of a line, which does not fade. -/
theorem quotation_fades (h : Fades (quotation text).size text other) :
    quotation other = quotation text := by
  fun_induction quotation text generalizing other with
  | case1 => cases h; rfl
  | case2 rest inside =>
      rename_i ih
      cases h with
      | same h =>
          cases h with
          | same h => simp only [quotation, ih h, inside]
  | case3 rest hsingle =>
      cases h with
      | same h =>
          refine quotation_quote fun hquote => ?_
          obtain ⟨after, rfl⟩ := List.head?_eq_some_iff.1 (h.head?_eq (by decide) hquote)
          exact hsingle after rfl
  | case4 rest _ _ =>
      cases h with
      | behind hshown _ =>
          rcases hshown with rfl | ⟨hfeed, _⟩
          · rfl
          · exact absurd rfl hfeed
  | case5 byte rest hdouble hquote hfeed inside =>
      rename_i ih
      cases h with
      | same h =>
          have hquote' : byte ≠ Byte.quote := fun hbyte => hquote hbyte
          rw [quotation_cons hquote' hfeed, ih h]

/-- A number sign without a dollar sign is followed by decimal digits. -/
theorem numbered_of_ne (h : text.head? ≠ some Byte.dollar) :
    numbered text =
      { token := .char
        size := 1 + run Byte.isDigit text
        fault := if run Byte.isDigit text = 0 then some .characterWithoutDigits else none } := by
  unfold numbered
  split
  · exact absurd rfl h
  · rfl

/-- One with a dollar sign is followed by hexadecimal digits. -/
theorem numbered_dollar (digits : Bytes) :
    numbered (Byte.dollar :: digits) =
      { token := .char
        size := 2 + run Byte.isHexDigit digits
        fault := if run Byte.isHexDigit digits = 0 then some .characterWithoutDigits else none } :=
  rfl

/-- A character that is given by its number is still read. -/
theorem numbered_fades (h : Fades ((numbered text).size - 1) text other) :
    numbered other = numbered text := by
  by_cases hdollar : text.head? = some Byte.dollar
  · obtain ⟨digits, rfl⟩ := List.head?_eq_some_iff.1 hdollar
    have hsize : (numbered (Byte.dollar :: digits)).size - 1 = run Byte.isHexDigit digits + 1 := by
      rw [numbered_dollar]
      simp only
      omega
    rw [hsize] at h
    cases h with
    | same h => rw [numbered_dollar, numbered_dollar, run_fades (by decide) h]
  · rw [numbered_of_ne hdollar] at h ⊢
    have hother : other.head? ≠ some Byte.dollar := fun hother =>
      hdollar ((h.mono (Nat.zero_le _)).head?_eq (by decide) hother)
    have hrun := run_fades isDigit_space (h.mono (by simp only; omega))
    rw [numbered_of_ne hother, hrun]

/-- Where no type name begins, none does when bytes behind the first one fade. -/
theorem beginsTypeName_fades (h : Fades 1 text other) (hother : beginsTypeName other) :
    beginsTypeName text := by
  cases h with
  | nil => exact hother
  | same h =>
      cases h with
      | nil => exact hother
      | @behind byte shown _ _ hshown _ =>
          rcases hshown with rfl | ⟨_, rfl⟩
          · exact hother
          · have hspace : Byte.isWordByte Byte.space = false := by decide
            simp [beginsTypeName, hspace] at hother

/-- A caret is still read, if a type name behind it does not fade. -/
theorem caret_fades (previous : Token) (h : Fades ((caret previous text).size - 1) text other)
    (hname : beginsTypeName text → beginsTypeName other) :
    caret previous other = caret previous text := by
  by_cases halone : endsOperand previous || beginsTypeName text
  · have hother : endsOperand previous || beginsTypeName other := by
      rw [Bool.or_eq_true] at halone ⊢
      exact halone.imp_right hname
    rw [caret, caret, if_pos halone, if_pos hother]
  · have hsize : (caret previous text).size - 1 = (text.take 1).length := by
      rw [caret, if_neg halone]
      exact Nat.add_sub_cancel_left ..
    rw [hsize] at h
    cases text with
    | nil => cases h; rfl
    | cons byte text =>
        have hother : ¬ (endsOperand previous || beginsTypeName other) := by
          rw [Bool.or_eq_true, not_or] at halone ⊢
          exact ⟨halone.1, fun hother => halone.2 (beginsTypeName_fades h hother)⟩
        rw [caret, caret, if_neg halone, if_neg hother]
        cases h with
        | same => rfl

/-- A closing brace is still found. -/
theorem pastBrace?_fades (hclosed : pastBrace? text = some size) (h : Fades size text other) :
    pastBrace? other = some size := by
  induction text generalizing size other with
  | nil => cases hclosed
  | cons byte text ih =>
      rw [pastBrace?] at hclosed
      by_cases hbrace : byte = Byte.rightBrace
      · rw [if_pos hbrace] at hclosed
        cases hclosed
        cases h with
        | same => rw [pastBrace?, if_pos hbrace]
      · rw [if_neg hbrace] at hclosed
        obtain ⟨inner, hinner, rfl⟩ := Option.map_eq_some_iff.1 hclosed
        cases h with
        | same h => rw [pastBrace?, if_neg hbrace, ih hinner h, Option.map_some]

/-- A directive is still read. One that is not closed has nothing behind it. -/
theorem braced_fades (hdollar : text.head? = some Byte.dollar)
    (h : Fades ((braced text).size - 1) text other) : braced other = braced text := by
  cases hclosed : pastBrace? text with
  | none =>
      have hsize : (braced text).size - 1 = text.length := by
        simp [braced, block, hclosed]
      rw [h.eq_of_length_le (Nat.le_of_eq hsize.symm)]
  | some size =>
      have hsize : (braced text).size - 1 = size := by
        simp [braced, block, hclosed]
      rw [hsize] at h
      have hother : other.head? = some Byte.dollar := by
        obtain ⟨inside, rfl⟩ := List.head?_eq_some_iff.1 hdollar
        obtain ⟨inner, -, rfl⟩ := Option.map_eq_some_iff.1 hclosed
        cases h with
        | same => rfl
      simp only [braced, hdollar, hother, hclosed, pastBrace?_fades hclosed h, block]

/-- A parenthesis without a star behind it is an operator. -/
theorem parenthesis_of_ne (h : text.head? ≠ some Byte.star) :
    parenthesis text = { token := .operator .leftParen, size := 1 } := by
  unfold parenthesis
  split
  · exact absurd rfl h
  · rfl

/-- A parenthesis that begins no comment is still read. -/
theorem parenthesis_fades (hcomment : (parenthesis text).token ≠ .comment)
    (h : Fades 0 text other) : parenthesis other = parenthesis text := by
  have hstar : text.head? ≠ some Byte.star := by
    intro hstar
    obtain ⟨inside, rfl⟩ := List.head?_eq_some_iff.1 hstar
    exact hcomment (block_token .comment 2 inside (pastStar? inside))
  rw [parenthesis_of_ne hstar,
    parenthesis_of_ne fun hother => hstar (h.head?_eq (by decide) hother)]

/-- A slash without another one behind it is an operator. -/
theorem slash_of_ne (h : text.head? ≠ some Byte.slash) :
    slash text = { token := .operator .slash, size := 1 } := by
  unfold slash
  split
  · exact absurd rfl h
  · rfl

/-- A slash that begins no comment is still read. -/
theorem slash_fades (hcomment : (slash text).token ≠ .comment) (h : Fades 0 text other) :
    slash other = slash text := by
  have hslash : text.head? ≠ some Byte.slash := by
    intro hslash
    obtain ⟨inside, rfl⟩ := List.head?_eq_some_iff.1 hslash
    exact hcomment rfl
  rw [slash_of_ne hslash, slash_of_ne fun hother => hslash (h.head?_eq (by decide) hother)]

/-- No operator has a space as its second byte. -/
theorem lookup_space {alone : Operator} {longer : List (UInt8 × Operator)}
    (h : operators first = some (alone, longer)) : longer.lookup Byte.space = none := by
  unfold operators at h
  split at h <;> cases h <;> rfl

/-- An operator is still read. -/
theorem operator_fades (h : Fades ((operator first text).size - 1) text other) :
    operator first other = operator first text := by
  cases hoperators : operators first with
  | none => simp only [operator, hoperators]
  | some found =>
      obtain ⟨alone, longer⟩ := found
      cases hsecond : text.head?.bind (longer.lookup ·) with
      | some op =>
          have hsize : (operator first text).size - 1 = 1 := by
            simp only [operator, hoperators, hsecond]
          rw [hsize] at h
          cases h with
          | nil => rfl
          | same => rfl
      | none =>
          have hsize : (operator first text).size - 1 = 0 := by
            simp only [operator, hoperators, hsecond]
          rw [hsize] at h
          have hother : other.head?.bind (longer.lookup ·) = none := by
            cases h with
            | nil => rfl
            | behind hshown _ =>
                rcases hshown with rfl | ⟨_, rfl⟩
                · exact hsecond
                · exact lookup_space hoperators
          simp only [operator, hoperators, hsecond, hother]

/-- A word is still read. -/
theorem word_fades (h : Fades ((word first text).size - 1) text other) :
    word first other = word first text := by
  have hsize : (word first text).size - 1 = run Byte.isWordByte text := by
    simp [word, run]
  rw [hsize] at h
  simp only [word, h.takeWhile (by decide)]

/-- A brace with a dollar sign behind it begins a directive, and one without begins a comment. -/
theorem head?_of_braced (hcomment : (braced text).token ≠ .comment) :
    text.head? = some Byte.dollar := by
  refine Decidable.byContradiction fun hdollar => hcomment ?_
  rw [braced, block_token, if_neg hdollar]

/-- A lexeme that begins with neither a letter nor a digit is still read. -/
theorem symbol_fades (previous : Token) (hcomment : (symbol previous first text).token ≠ .comment)
    (h : Fades ((symbol previous first text).size - 1) text other)
    (hname : first = Byte.caret → beginsTypeName text → beginsTypeName other) :
    symbol previous first other = symbol previous first text := by
  revert hcomment h
  unfold symbol
  split
  · intro _ h
    simp only [hexadecimal, Nat.add_sub_cancel_left] at h
    simp only [hexadecimal, run_fades (by decide) h]
  · intro _ h
    simp only [string, Nat.add_sub_cancel_left] at h
    simp only [string, quotation_fades h]
  · intro _ h
    exact numbered_fades h
  · intro _ h
    exact caret_fades previous h (hname rfl)
  · intro hcomment h
    exact braced_fades (head?_of_braced hcomment) h
  · intro hcomment h
    exact parenthesis_fades hcomment (h.mono (Nat.zero_le _))
  · intro hcomment h
    exact slash_fades hcomment (h.mono (Nat.zero_le _))
  · intro _ h
    exact operator_fades h

/-- A lexeme that is no comment is still read when bytes behind it fade, if a type name behind a
caret does not. -/
theorem read_fades (previous : Token) (hcomment : (read previous first text).token ≠ .comment)
    (h : Fades ((read previous first text).size - 1) text other)
    (hname : first = Byte.caret → beginsTypeName text → beginsTypeName other) :
    read previous first other = read previous first text := by
  unfold read at h hcomment ⊢
  by_cases hletter : Byte.isLetter first
  · simp only [if_pos hletter] at h ⊢
    exact word_fades h
  · by_cases hdigit : Byte.isDigit first
    · simp only [if_neg hletter, if_pos hdigit] at h ⊢
      exact decimal_fades h
    · simp only [if_neg hletter, if_neg hdigit] at h hcomment ⊢
      exact symbol_fades previous hcomment h hname

end Lexeme

end PascalUnits
