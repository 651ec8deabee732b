import PascalUnits.Proofs.Reader.Place

/-!
# The tokens of a reader

From the place of a scanner, a helper of a reader never fails, and reads what the lexeme there says
(`taking`): its token, the text from its first byte on, and its fault at that byte. So each helper
is one equation, such as `string_beside`. A token that begins with the current byte is the lexeme
that the scanner reads (`lexeme_beside`, `comment_beside_of_opens`).
-/

namespace PascalUnits

namespace Reader

/-- What is read where a lexeme begins at `start`, and a scanner that is in the midst of it moves to
its end. -/
def taking (reader : Reader) (scanner : Scanner) (start : Nat) (lexeme : Lexeme) : Taken :=
  let passed := scanner.advance (start + lexeme.size - scanner.offset)
  let diagnostics := lexeme.fault.toList.map fun fault => ⟨passed.file.locate start, fault⟩
  { token := lexeme.token
    literal := lexeme.token.literal ((reader.source.take passed.offset).drop start)
    after := (reader.telling diagnostics).beside (passed.counting diagnostics.length) }

variable {reader : Reader} {scanner : Scanner} {start : Nat} {lexeme : Lexeme}

/-- It does not matter how much of a lexeme has been passed. -/
theorem taking_advance {size : Nat} (hrest : size ≤ scanner.rest.length)
    (hstop : scanner.offset + size ≤ start + lexeme.size) :
    reader.taking (scanner.advance size) start lexeme = reader.taking scanner start lexeme := by
  have hpassed : (scanner.advance size).advance (start + lexeme.size - (scanner.offset + size)) =
      scanner.advance (start + lexeme.size - scanner.offset) := by
    rw [Scanner.advance_advance hrest]
    congr 1
    omega
  show taking reader (scanner.advance size) start lexeme = _
  simp only [taking]
  rw [show (scanner.advance size).offset = scanner.offset + size from rfl, hpassed]

/-- Where nothing is wrong with a lexeme, the reader gets to the end of it and no more. -/
theorem taking_of_faultless (lexeme : Lexeme) {size : Nat} {text : Bytes}
    (hfault : lexeme.fault = none)
    (hstop : start + lexeme.size = scanner.offset + size)
    (htext : lexeme.token.literal ((reader.source.take (scanner.offset + size)).drop start) =
      text) :
    reader.taking scanner start lexeme =
      { token := lexeme.token
        literal := text
        after := reader.beside (scanner.advance size) } := by
  have hsize : start + lexeme.size - scanner.offset = size := by omega
  rw [taking, hsize, hfault, ← htext]
  simp only [Option.toList_none, List.map_nil, List.length_nil, telling_nil,
    Scanner.counting_zero]
  rfl

section Steps

variable (h : scanner.InFile reader.source)

include h

/-- A fault that is met inside the source is reported. -/
theorem report_beside (hstart : start ≤ reader.source.length) (fault : Fault) :
    (reader.beside scanner).report start fault =
      .ok ((reader.telling [⟨scanner.file.locate start, fault⟩]).beside
        (scanner.counting 1)) := by
  have hinside : start ≤ scanner.file.size := h.size_eq ▸ hstart
  have hplace : scanner.file.searched (scanner.file.base + start) =
      .ok (scanner.file.locate start) := by
    rw [h.tabled.searched_eq, (SourceFile.pos_of_le hinside).2.2.2]
  have hnoting : (reader.beside scanner).noting start fault =
      .ok (reader.telling [⟨scanner.file.locate start, fault⟩]).reported := by
    unfold noting telling
    cases hreports : reader.reports with
    | false => simp [beside, hreports, pure, Except.pure]
    | true =>
        simp [beside, hreports, Checked.pos_eq_ok hinside, hplace, bind, Except.bind, pure,
          Except.pure]
  rw [report, hnoting]
  rfl

theorem judge_beside (hstart : start ≤ reader.source.length) (fault : Option Fault) :
    (reader.beside scanner).judge start fault =
      .ok ((reader.telling
          (fault.toList.map fun fault => ⟨scanner.file.locate start, fault⟩)).beside
        (scanner.counting fault.toList.length)) := by
  cases fault with
  | none => simp [judge, telling, Scanner.counting, pure, Except.pure]
  | some fault => exact report_beside h hstart fault

/-- The text of a token is cut out of the source. -/
theorem literal_beside (hstart : start ≤ scanner.offset) :
    (reader.beside scanner).literal start = .ok ((reader.source.take scanner.offset).drop start) :=
  Checked.slice_eq_ok hstart h.stands.offset_le

/-- A reader that has come to the end of a lexeme has read it. -/
theorem finish_beside (lexeme : Lexeme) {size : Nat} (hstart : start ≤ scanner.offset)
    (hrest : size ≤ scanner.rest.length) (hstop : start + lexeme.size = scanner.offset + size)
    (hclass : ∀ text, lexeme.token.literal text = text) :
    (reader.beside (scanner.advance size)).finish lexeme.token start lexeme.fault =
      .ok (reader.taking scanner start lexeme) := by
  have hpassed := h.advance hrest
  have hle : start ≤ (scanner.advance size).offset := Nat.le_add_right_of_le hstart
  have hnone : start + lexeme.size - (scanner.advance size).offset = 0 :=
    Nat.sub_eq_zero_of_le (Nat.le_of_eq hstop)
  rw [finish, judge_beside hpassed (Nat.le_trans hle hpassed.stands.offset_le),
    ← taking_advance hrest (Nat.le_of_eq hstop.symm), taking, hnone, Scanner.advance_zero, hclass]
  simp only [bind, Except.bind, List.length_map,
    @literal_beside (reader.telling _) _ _ (hpassed.counting _) hle]
  rfl

/-- The text between two places. -/
theorem drop_take_source (size : Nat) :
    (reader.source.take (scanner.offset + size)).drop scanner.offset = scanner.rest.take size := by
  rw [List.drop_take, ← h.stands.rest_eq, Nat.add_sub_cancel_left]

/-- A word begins with the current byte. -/
theorem identifier_beside :
    (reader.beside scanner).identifier =
      .ok (reader.taking scanner scanner.offset (.name scanner.rest)) := by
  have htext := drop_take_source h (Lexeme.run Byte.isWordByte scanner.rest)
  rw [Lexeme.take_run] at htext
  have hcut : (reader.beside (scanner.advance (Lexeme.run Byte.isWordByte scanner.rest))).literal
      scanner.offset = .ok (scanner.rest.takeWhile Byte.isWordByte) := by
    rw [literal_beside (h.advance (Lexeme.run_le _ _)) (Nat.le_add_right _ _), ← htext]
    rfl
  rw [taking_of_faultless (.name scanner.rest) rfl rfl
    (show _ = scanner.rest.takeWhile Byte.isWordByte by
      rw [Lexeme.literal_name, ← htext]; rfl), identifier, passWhile_beside h,
    show (reader.beside scanner).offset = scanner.offset from rfl, hcut]
  rfl

theorem fraction_beside (token : Token) :
    fraction (token, reader.beside scanner) =
      (if Lexeme.fraction scanner.rest = 0 then token else .float,
        reader.beside (scanner.advance (Lexeme.fraction scanner.rest))) := by
  have hpeek := peek_beside h
  cases hrest : scanner.rest with
  | nil => simp [fraction, beside, hrest, Lexeme.fraction]
  | cons byte rest =>
      obtain ⟨-, hpassed⟩ := next_passWhile_of_cons h hrest Byte.isDigit
      rw [hrest, List.getElem?_cons_succ, ← List.head?_eq_getElem?] at hpeek
      unfold fraction
      rw [current_of_cons hrest, hpeek, hpassed, Lexeme.fraction_cons, Nat.add_comm 1]
      simp only [Option.some.injEq, Lexeme.head?_any_iff]
      split
      · rfl
      · rw [if_pos rfl, Scanner.advance_zero]

theorem sign_beside :
    (reader.beside scanner).sign = reader.beside (scanner.advance (Lexeme.sign scanner.rest)) := by
  cases hrest : scanner.rest with
  | nil => simp [sign, beside, hrest, Lexeme.sign]
  | cons byte rest =>
      rw [sign, current_of_cons hrest, next_of_cons h hrest, Lexeme.sign]
      simp only [Option.some.injEq]
      split
      · rfl
      · rw [Scanner.advance_zero]

/-- Behind other bytes as well. -/
theorem fraction_advance {size : Nat} (hsize : size ≤ scanner.rest.length) (token : Token) :
    fraction (token, reader.beside (scanner.advance size)) =
      (if Lexeme.fraction (scanner.rest.drop size) = 0 then token else .float,
        reader.beside (scanner.advance (size + Lexeme.fraction (scanner.rest.drop size)))) := by
  rw [fraction_beside (h.advance hsize), Scanner.advance_advance hsize]
  rfl

theorem exponent_beside (token : Token) :
    exponent (token, reader.beside scanner) =
      (if Lexeme.exponent scanner.rest = 0 then token else .float,
        reader.beside (scanner.advance (Lexeme.exponent scanner.rest))) := by
  cases hrest : scanner.rest with
  | nil => simp [exponent, beside, hrest, Lexeme.exponent]
  | cons byte rest =>
      have hsign := sign_beside (inFile_advance_one h hrest)
      rw [rest_advance_one hrest, advance_one_advance hrest] at hsign
      have hle : Lexeme.sign rest + 1 ≤ scanner.rest.length := by
        rw [hrest]
        exact Nat.succ_le_succ (Lexeme.sign_le rest)
      unfold exponent
      rw [current_of_cons hrest, next_of_cons h hrest, hsign, passWhile_advance h hle, hrest,
        List.drop_succ_cons, Lexeme.exponent, Option.any_some]
      split
      · rw [if_neg (by omega), Nat.add_comm _ 1]
      · rw [if_pos rfl, Scanner.advance_zero]

theorem exponent_advance {size : Nat} (hsize : size ≤ scanner.rest.length) (token : Token) :
    exponent (token, reader.beside (scanner.advance size)) =
      (if Lexeme.exponent (scanner.rest.drop size) = 0 then token else .float,
        reader.beside (scanner.advance (size + Lexeme.exponent (scanner.rest.drop size)))) := by
  rw [exponent_beside (h.advance hsize), Scanner.advance_advance hsize]
  rfl

/-- A hexadecimal number begins with a dollar sign. -/
theorem number_of_dollar {rest : Bytes} (hrest : scanner.rest = Byte.dollar :: rest) :
    (reader.beside scanner).number =
      .ok (reader.taking scanner scanner.offset (.hexadecimal rest)) := by
  obtain ⟨hle, hpassed⟩ := next_passWhile_of_cons h hrest Byte.isHexDigit
  have hwidth : Checked.sub (scanner.offset + (1 + Lexeme.run Byte.isHexDigit rest))
      scanner.offset = .ok (1 + Lexeme.run Byte.isHexDigit rest) := by
    rw [Checked.sub_eq_ok (Nat.le_add_right _ _), Nat.add_sub_cancel_left]
  have hfault : (if 1 + Lexeme.run Byte.isHexDigit rest ≤ 1
      then some Fault.hexadecimalWithoutDigits else none) = (Lexeme.hexadecimal rest).fault := by
    simp only [Lexeme.hexadecimal]
    split <;> split <;> first | rfl | omega
  rw [number, if_pos (current_of_cons hrest), hpassed]
  show Checked.sub (scanner.offset + (1 + Lexeme.run Byte.isHexDigit rest)) scanner.offset >>=
    _ = _
  rw [hwidth]
  show finish .integer scanner.offset (if _ then _ else _) _ = _
  rw [hfault]
  exact finish_beside h (.hexadecimal rest) (Nat.le_refl _) hle rfl fun _ => rfl

/-- Any other number begins with digits, if it has any. -/
theorem number_of_ne (hdollar : scanner.rest.head? ≠ some Byte.dollar) :
    (reader.beside scanner).number =
      .ok (reader.taking scanner scanner.offset (.numeral scanner.rest)) := by
  have hwhole := Lexeme.run_le Byte.isDigit scanner.rest
  have hfraction := Lexeme.fraction_drop_le scanner.rest hwhole
  have hexponent := Lexeme.exponent_drop_le scanner.rest hfraction
  have hclass : ∀ text, (Lexeme.numeral scanner.rest).token.literal text = text := by
    intro text
    simp only [Lexeme.numeral]
    split <;> (try split) <;> rfl
  rw [number, if_neg (show (reader.beside scanner).current ≠ _ from hdollar), passWhile_beside h,
    fraction_advance h hwhole, exponent_advance h hfraction]
  exact finish_beside h (.numeral scanner.rest) (Nat.le_refl _) hexponent rfl hclass

section Taken

variable (htaken : 0 < scanner.offset)

include htaken

omit h in
/-- Before a byte that has been taken is the beginning of a token. -/
theorem sub_beside : Checked.sub (reader.beside scanner).offset 1 = .ok (scanner.offset - 1) :=
  Checked.sub_eq_ok htaken

/-- A string goes on behind its opening quote. -/
theorem string_beside :
    (reader.beside scanner).string =
      .ok (reader.taking scanner (scanner.offset - 1) (.string scanner.rest)) := by
  rw [string, sub_beside htaken]
  simp only [bind, Except.bind, passString_beside h, Nat.zero_add]
  refine finish_beside h (.string scanner.rest) (Nat.sub_le _ _)
    (Lexeme.quotation_size_le _) ?_ fun text => ?_
  · show scanner.offset - 1 + (1 + _) = _
    omega
  · simp only [Lexeme.string]
    split <;> rfl

/-- A character given by its number goes on behind the sign `#`. -/
theorem numbered_beside :
    (reader.beside scanner).numbered =
      .ok (reader.taking scanner (scanner.offset - 1) (.numbered scanner.rest)) := by
  rw [numbered, sub_beside htaken]
  simp only [bind, Except.bind]
  by_cases hdollar : scanner.rest.head? = some Byte.dollar
  · obtain ⟨rest, hrest⟩ := List.head?_eq_some_iff.1 hdollar
    obtain ⟨hle, hpassed⟩ := next_passWhile_of_cons h hrest Byte.isHexDigit
    have hnone : scanner.offset + (1 + Lexeme.run Byte.isHexDigit rest) = scanner.offset + 1 ↔
        Lexeme.run Byte.isHexDigit rest = 0 := by omega
    rw [if_pos (current_of_cons hrest), hpassed, next_of_cons h hrest, hrest]
    show finish .char _ (if scanner.offset + (1 + _) = scanner.offset + 1 then _ else _) _ = _
    rw [if_congr hnone rfl rfl]
    refine finish_beside h (.numbered (Byte.dollar :: rest)) (Nat.sub_le _ _) hle ?_
      fun _ => rfl
    show scanner.offset - 1 + (2 + _) = scanner.offset + (1 + _)
    omega
  · have hnone : scanner.offset + Lexeme.run Byte.isDigit scanner.rest = scanner.offset ↔
        Lexeme.run Byte.isDigit scanner.rest = 0 := by omega
    rw [if_neg (show (reader.beside scanner).current ≠ _ from hdollar), passWhile_beside h,
      Lexeme.numbered_of_ne hdollar]
    show finish .char _ (if scanner.offset + _ = scanner.offset then _ else _) _ = _
    rw [if_congr hnone rfl rfl]
    refine finish_beside h { token := .char, size := 1 + _, fault := _ }
      (Nat.sub_le _ _) (Lexeme.run_le _ _) ?_ fun _ => rfl
    show scanner.offset - 1 + (1 + _) = _
    omega

/-- A caret stands alone, or the byte behind it is part of a control character. -/
theorem caret_beside :
    (reader.beside scanner).caret =
      .ok (reader.taking scanner (scanner.offset - 1) (.caret scanner.previous scanner.rest)) := by
  have halone : reader.taking scanner (scanner.offset - 1)
      { token := .operator .caret, size := 1 } =
        { token := .operator .caret, literal := [], after := reader.beside scanner } := by
    have hbegin : scanner.offset - 1 + 1 = scanner.offset + 0 := Nat.sub_add_cancel htaken
    rw [taking_of_faultless { token := .operator .caret, size := 1 } rfl hbegin rfl,
      Scanner.advance_zero]
    rfl
  have hfolded : (if (reader.beside scanner).current.isSome then (reader.beside scanner).next
      else reader.beside scanner) =
        reader.beside (scanner.advance (scanner.rest.take 1).length) := by
    cases hrest : scanner.rest with
    | nil => simp [beside, hrest]
    | cons byte rest =>
        rw [if_pos (by rw [current_of_cons hrest]; rfl), next_of_cons h hrest]
        rfl
  have hprevious : (reader.beside scanner).previous = scanner.previous := rfl
  have hcurrent : (reader.beside scanner).current = scanner.rest.head? := rfl
  rw [caret, Lexeme.caret, Lexeme.beginsTypeName_eq, hprevious, hfolded, peek_beside h, hcurrent]
  by_cases hoperand : Lexeme.endsOperand scanner.previous
  · rw [if_pos hoperand, if_pos (by simp [hoperand]), halone]
    rfl
  · by_cases hname : (scanner.rest.head?.any Byte.isLetter &&
      scanner.rest[1]?.any Byte.isWordByte) = true
    · rw [if_neg hoperand, if_pos hname, if_pos (by simp [hname]), halone]
      rfl
    · rw [if_neg hoperand, if_neg hname, if_neg (by simp [hoperand, hname]), sub_beside htaken]
      refine finish_beside h { token := .char, size := 1 + _ }
        (Nat.sub_le _ _) (by simp) ?_ fun _ => rfl
      show scanner.offset - 1 + (1 + _) = _
      omega

/-- A comment of block form ends behind what closes it, or at the end of the source. -/
theorem finish_block {token : Token} (hclass : ∀ text, token.literal text = text) {skipped : Nat}
    {inside : Bytes} {closing : Option Nat}
    (hinside : skipped + inside.length ≤ scanner.rest.length)
    (hclosing : ∀ size, closing = some size → size ≤ inside.length) :
    (reader.beside (scanner.advance (skipped + closing.getD inside.length))).finish token
        (scanner.offset - 1) (if closing.isSome then none else some .openComment) =
      .ok (reader.taking scanner (scanner.offset - 1)
        (.block token (1 + skipped) inside closing)) := by
  cases closing with
  | none =>
      refine finish_beside h (.block token (1 + skipped) inside none) (Nat.sub_le _ _) hinside ?_
        hclass
      show scanner.offset - 1 + (1 + skipped + inside.length) = scanner.offset + (skipped + _)
      simp only [Option.getD_none]
      omega
  | some size =>
      have hsize := hclosing size rfl
      refine finish_beside h (.block token (1 + skipped) inside (some size)) (Nat.sub_le _ _) ?_ ?_
        hclass
      · simp only [Option.getD_some]
        omega
      · show scanner.offset - 1 + (1 + skipped + size) = scanner.offset + (skipped + size)
        omega

/-- A comment or directive goes on behind its first byte. -/
theorem comment_beside {token : Token} (htrivia : token.isTrivia) (first : UInt8) :
    (reader.beside scanner).comment token first =
      .ok (reader.taking scanner (scanner.offset - 1) (.remark token first scanner.rest)) := by
  have hclass : ∀ text, token.literal text = text := by
    intro text
    cases token <;> first | rfl | cases htrivia
  have hone : (scanner.rest.take 1).length ≤ scanner.rest.length := by simp
  have hinside : (scanner.rest.take 1).length +
      (scanner.rest.drop (scanner.rest.take 1).length).length ≤ scanner.rest.length := by
    rw [List.length_drop]
    omega
  rw [comment, sub_beside htaken]
  show finish token (scanner.offset - 1) _ _ = _
  unfold passComment
  split
  · rw [next_beside h, passWhile_advance h hone]
    refine finish_beside h (.remark token Byte.slash scanner.rest) (Nat.sub_le _ _) ?_ ?_ hclass
    · exact Nat.le_trans (Nat.add_le_add_left (Lexeme.run_le _ _) _) hinside
    · show scanner.offset - 1 + (1 + _ + _) = scanner.offset + (_ + _)
      omega
  · rw [next_beside h, passStar_beside (h.advance hone), Scanner.advance_advance hone]
    exact finish_block h htaken hclass hinside fun size hsize => Lexeme.le_of_pastStar hsize
  · have hblock := finish_block h htaken hclass (Nat.le_of_eq (Nat.zero_add _))
      fun size hsize => @Lexeme.le_of_pastBrace scanner.rest size hsize
    rw [Nat.zero_add] at hblock
    rw [passBrace_beside h, hblock]
    unfold Lexeme.remark
    split
    · contradiction
    · contradiction
    · rfl

end Taken

section Cons

variable {first : UInt8} {rest : Bytes} (hrest : scanner.rest = first :: rest)

include hrest

omit h in
/-- The first byte of a lexeme may have been taken. -/
theorem taking_advance_one (hpos : 0 < lexeme.size) :
    reader.taking (scanner.advance 1) ((scanner.advance 1).offset - 1) lexeme =
      reader.taking scanner scanner.offset lexeme :=
  taking_advance (by simp [hrest]) (Nat.add_le_add_left hpos _)

/-- An operator is chosen by the second byte. -/
theorem choose_beside (alone : Operator) (longer : List (UInt8 × Operator)) :
    (reader.beside (scanner.advance 1)).choose alone longer =
      reader.taking scanner scanner.offset
        (match rest.head?.bind (longer.lookup ·) with
          | some op => { token := .operator op, size := 2 }
          | none => { token := .operator alone, size := 1 }) := by
  have hsecond := current_next_of_cons h hrest
  rw [next_of_cons h hrest] at hsecond
  rw [choose, hsecond]
  cases hchoice : rest.head?.bind (longer.lookup ·) with
  | none => exact (taking_of_faultless { token := .operator alone, size := 1 } rfl rfl rfl).symm
  | some op =>
      obtain ⟨second, hsecond, -⟩ := Option.bind_eq_some_iff.1 hchoice
      obtain ⟨others, rfl⟩ := List.head?_eq_some_iff.1 hsecond
      rw [next_of_cons (inFile_advance_one h hrest) (rest_advance_one hrest),
        advance_one_advance hrest]
      exact (taking_of_faultless { token := .operator op, size := 2 } rfl rfl rfl).symm

/-- A byte that begins no token is illegal. -/
theorem illegal_beside :
    (do return ⟨.illegal, [first], ← (reader.beside (scanner.advance 1)).report scanner.offset
        (.illegalCharacter first)⟩ : Except Mishap Taken) =
      .ok (reader.taking scanner scanner.offset
        { token := .illegal, size := 1, fault := some (.illegalCharacter first) }) := by
  have hsize : scanner.offset + 1 - scanner.offset = 1 := Nat.add_sub_cancel_left _ _
  have htext := drop_take_source h 1
  rw [hrest] at htext
  rw [report_beside (inFile_advance_one h hrest) h.stands.offset_le, taking, hsize]
  show Except.ok (Taken.mk _ _ _) = Except.ok (Taken.mk _ ((reader.source.take _).drop _) _)
  rw [show (scanner.advance 1).offset = scanner.offset + 1 from rfl, htext]
  rfl

/-- An operator that no second byte makes longer. -/
theorem choose_nil_beside (alone : Operator) :
    (reader.beside (scanner.advance 1)).choose alone [] =
      reader.taking scanner scanner.offset { token := .operator alone, size := 1 } := by
  rw [choose_beside h hrest]
  cases rest <;> rfl

/-- A token that begins with neither a letter nor a digit. -/
theorem symbol_beside (hdollar : first ≠ Byte.dollar) (hopens : opens first rest.head? = none) :
    (reader.beside scanner).next.symbol scanner.offset first =
      .ok (reader.taking scanner scanner.offset (.symbol scanner.previous first rest)) := by
  have hone := inFile_advance_one h hrest
  have htaken : 0 < (scanner.advance 1).offset := Nat.succ_pos _
  have hpos := Lexeme.symbol_size_pos scanner.previous first rest
  have hafter := rest_advance_one hrest
  rw [next_of_cons h hrest]
  unfold symbol
  split
  · rw [string_beside hone htaken, hafter]
    exact congrArg _ (taking_advance_one hrest hpos)
  · rw [numbered_beside hone htaken, hafter]
    exact congrArg _ (taking_advance_one hrest hpos)
  · rw [caret_beside hone htaken, hafter]
    exact congrArg _ (taking_advance_one hrest hpos)
  · have hopen : rest.head? ≠ some Byte.star := fun hstar => by
      rw [hstar] at hopens
      cases hopens
    rw [choose_nil_beside h hrest, ← Lexeme.parenthesis_of_ne hopen]
    rfl
  · have hopen : rest.head? ≠ some Byte.slash := fun hslash => by
      rw [hslash] at hopens
      cases hopens
    rw [choose_nil_beside h hrest, ← Lexeme.slash_of_ne hopen]
    rfl
  · have hoperator : Lexeme.symbol scanner.previous first rest = Lexeme.operator first rest := by
      unfold Lexeme.symbol
      split <;> first | contradiction | rfl
    rw [hoperator, Lexeme.operator]
    cases Lexeme.operators first with
    | none => exact illegal_beside h hrest
    | some found => exact congrArg _ (choose_beside h hrest found.1 found.2)

/-- A token of the language begins with the current byte: the lexeme that stands there. -/
theorem lexeme_beside (hopens : opens first rest.head? = none) :
    (reader.beside scanner).lexeme first =
      .ok (reader.taking scanner scanner.offset (.read scanner.previous first rest)) := by
  unfold Reader.lexeme Lexeme.read
  by_cases hletter : Byte.isLetter first
  · rw [if_pos hletter, if_pos hletter, identifier_beside h, hrest, Lexeme.name_of_letter hletter]
  · rw [if_neg hletter, if_neg hletter]
    by_cases hdigit : Byte.isDigit first
    · have hdollar : scanner.rest.head? ≠ some Byte.dollar := by
        rw [hrest]
        rintro heq
        rw [Option.some.inj heq] at hdigit
        cases hdigit
      rw [if_pos (by simp [hdigit]), if_pos hdigit, number_of_ne h hdollar, hrest,
        Lexeme.numeral_of_digit hdigit]
    · rw [if_neg hdigit]
      by_cases hdollar : first = Byte.dollar
      · subst hdollar
        exact number_of_dollar h hrest
      · rw [if_neg (by simp [hdigit, hdollar])]
        exact symbol_beside h hrest hdollar hopens

/-- So does a comment or directive. -/
theorem comment_beside_of_opens {token : Token} (hopens : opens first rest.head? = some token) :
    (Lexeme.read scanner.previous first rest).token = token ∧ token.isTrivia ∧
      (reader.beside scanner).next.comment token first =
        .ok (reader.taking scanner scanner.offset (.read scanner.previous first rest)) := by
  have hone := inFile_advance_one h hrest
  have htaken : 0 < (scanner.advance 1).offset := Nat.succ_pos _
  obtain ⟨htrivia, hread⟩ := Lexeme.read_of_opens hopens scanner.previous
  rw [next_of_cons h hrest, comment_beside hone htaken htrivia, rest_advance_one hrest, hread]
  refine ⟨Lexeme.token_remark _ _ _, htrivia, congrArg _ (taking_advance_one hrest ?_)⟩
  rw [← hread]
  exact Lexeme.read_size_pos _ _ _

end Cons

end Steps

end Reader

end PascalUnits
