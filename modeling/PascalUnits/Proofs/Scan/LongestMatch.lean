import Mathlib.Data.List.Infix
import PascalUnits.Proofs.Scan.Grammar
import PascalUnits.Proofs.Scan.Lookahead

/-!
# A lexeme is what the grammar prescribes

`Lexeme.read` looks at one byte after the other and never goes back. What the grammar prescribes is
what it reads, rule by rule (`Grammar.Lexes.reads`). As the grammar has a token for every byte that
may begin one, the converse holds as well (`Grammar.lexes_iff`), so it never prescribes two tokens
in one place.
-/

namespace PascalUnits

/-- No word of the language is a single character. -/
theorem Word.length_spelling_ne_one (w : Word) : w.spelling.length ≠ 1 := by
  have hall : ∀ spelling ∈ Word.spellings, spelling.length ≠ 1 := by decide +kernel
  exact hall w.spelling w.mem_spellings

namespace Token

/-- A name is the word of its spelling. -/
theorem ofName_of_spelling {name : String} {w : Word} (h : w.spelling = Text.lower name) :
    ofName name = .word w := by
  have hmem : Text.lower name ∈ Word.spellings := h ▸ w.mem_spellings
  have hword : (⟨Text.lower name, hmem⟩ : Word) = w := by
    cases w
    cases h
    rfl
  rw [ofName, Word.ofName?, dif_pos hmem, hword]

/-- A name that spells no word is an identifier. -/
theorem ofName_of_forall_ne {name : String} (h : ∀ w : Word, w.spelling ≠ Text.lower name) :
    ofName name = .identifier := by
  have hmem : Text.lower name ∉ Word.spellings := fun hmem => h ⟨_, hmem⟩ rfl
  rw [ofName, Word.ofName?, dif_neg hmem]

end Token

namespace Grammar

open Lexeme (run word decimal fraction sign exponent quotation block pastBrace? pastStar?)

/-! A piece of the grammar is as long as the piece that is read. -/

section Pieces

variable {accept : UInt8 → Bool} {part rest : Bytes}

theorem Maximal.takeWhile_eq (h : Maximal accept part rest) :
    (part ++ rest).takeWhile accept = part := by
  have hrest : rest.takeWhile accept = [] := by
    cases rest with
    | nil => rfl
    | cons byte rest => exact List.takeWhile_cons_of_neg (by simp [h.stops byte rfl])
  rw [List.takeWhile_append_of_pos h.accepted, hrest, List.append_nil]

theorem Maximal.run_eq (h : Maximal accept part rest) : run accept (part ++ rest) = part.length :=
  congrArg List.length h.takeWhile_eq

theorem Fraction.fraction_eq (h : Fraction part rest) : fraction (part ++ rest) = part.length := by
  cases h with
  | digits hdigits hrun =>
      rw [List.cons_append, Lexeme.fraction_cons, hrun.run_eq,
        if_pos ⟨rfl, mt List.length_eq_zero_iff.1 hdigits⟩, List.length_cons]
  | none hnone =>
      rw [List.nil_append]
      cases rest with
      | nil => rfl
      | cons byte text =>
          rw [Lexeme.fraction_cons, if_neg]
          · rfl
          rintro ⟨rfl, hdigits⟩
          cases text with
          | nil => exact hdigits rfl
          | cons digit after => exact hdigits (by simp [run, hnone digit after rfl])

theorem Sign.sign_eq (h : Sign part rest) : sign (part ++ rest) = part.length := by
  cases h with
  | taken hsign => exact if_pos hsign
  | none hnone =>
      cases rest with
      | nil => rfl
      | cons byte text => exact if_neg (hnone byte rfl)

theorem Exponent.exponent_eq (h : Exponent part rest) : exponent (part ++ rest) = part.length := by
  cases h with
  | @mark _ sign digits _ hmark hsign hdigits =>
      have hsize := hsign.sign_eq
      rw [List.cons_append, exponent, if_pos hmark, List.append_assoc, hsize, List.drop_left,
        hdigits.run_eq, List.length_cons, List.length_append]
      omega
  | none hnone =>
      cases rest with
      | nil => rfl
      | cons byte text => exact if_neg (by simp [hnone byte rfl])

end Pieces

/-- A number takes its digits, its fraction and its exponent. -/
theorem decimal_eq {digits fraction exponent rest : Bytes}
    (hdigits : Maximal Byte.isDigit digits (fraction ++ (exponent ++ rest)))
    (hfraction : Fraction fraction (exponent ++ rest)) (hexponent : Exponent exponent rest) :
    decimal (digits ++ (fraction ++ (exponent ++ rest))) =
      { token := if fraction = [] ∧ exponent = [] then .integer else .float
        size := 1 + digits.length + fraction.length + exponent.length } := by
  have hbehind : (digits ++ (fraction ++ (exponent ++ rest))).drop
      (digits.length + fraction.length) = exponent ++ rest := by
    rw [← List.drop_drop, List.drop_left, List.drop_left]
  simp only [decimal, hdigits.run_eq, List.drop_left, hfraction.fraction_eq, hbehind,
    hexponent.exponent_eq, Nat.add_eq_zero_iff, List.length_eq_zero_iff]

/-- A word takes its run. -/
theorem word_eq {first : UInt8} {part rest : Bytes} (h : Maximal Byte.isWordByte part rest) :
    word first (part ++ rest) =
      { token := Token.ofName (Bytes.latin (first :: part)), size := part.length + 1 } := by
  simp only [word, h.takeWhile_eq, List.length_cons]
  split
  · rename_i hsingle
    -- no word is a single character
    obtain rfl : part = [] := List.length_eq_zero_iff.1 (Nat.succ.inj hsingle)
    rw [Token.ofName_of_forall_ne]
    intro w hw
    refine w.length_spelling_ne_one ?_
    rw [hw]
    simp [Text.lower, Bytes.latin]
  · rfl

/-- The inside of a string literal is read character by character. -/
theorem quotation_doubled {characters : Bytes} (h : Byte.lineFeed ∉ characters) (text : Bytes) :
    quotation (doubled characters ++ text) =
      { size := (doubled characters).length + (quotation text).size
        characters := characters.length + (quotation text).characters
        closed := (quotation text).closed } := by
  induction characters with
  | nil => simp [doubled]
  | cons byte characters ih =>
      obtain ⟨hfeed, hcharacters⟩ := List.ne_and_not_mem_of_not_mem_cons h
      rw [doubled_cons, List.append_assoc, List.length_append, List.length_cons]
      by_cases hquote : byte = Byte.quote
      · subst hquote
        have hpair : quotation (Byte.quote :: Byte.quote :: (doubled characters ++ text)) =
          ⟨(quotation (doubled characters ++ text)).size + 2,
            (quotation (doubled characters ++ text)).characters + 1,
            (quotation (doubled characters ++ text)).closed⟩ := rfl
        rw [if_pos rfl, List.cons_append, List.cons_append, List.nil_append, hpair,
          ih hcharacters]
        simp only [Lexeme.Quotation.mk.injEq, List.length_cons, List.length_nil, and_true]
        omega
      · rw [if_neg hquote, List.cons_append, List.nil_append,
          Lexeme.quotation_cons hquote (Ne.symm hfeed), ih hcharacters]
        simp only [Lexeme.Quotation.mk.injEq, List.length_cons, List.length_nil, and_true]
        omega

/-- Nothing is inside a string literal where the line ends. -/
theorem quotation_of_lineEnd {rest : Bytes}
    (h : ∀ byte, rest.head? = some byte → byte = Byte.lineFeed) :
    quotation rest = ⟨0, 0, false⟩ := by
  cases rest with
  | nil => rfl
  | cons byte rest =>
      obtain rfl := h byte rfl
      rfl

theorem Quoted.quotation_eq {characters inside rest : Bytes}
    (h : Quoted characters inside rest) :
    (quotation (inside ++ rest)).size = inside.length ∧
      (quotation (inside ++ rest)).characters = characters.length := by
  cases h with
  | closed hfeed hrest =>
      rw [List.append_assoc, quotation_doubled hfeed, List.singleton_append,
        Lexeme.quotation_quote hrest]
      simp
  | unclosed hfeed hrest =>
      rw [quotation_doubled hfeed, quotation_of_lineEnd hrest]
      simp

/-- A right brace is looked for behind the bytes that are none. -/
theorem pastBrace?_append {inside : Bytes} (h : Byte.rightBrace ∉ inside) (rest : Bytes) :
    pastBrace? (inside ++ rest) = (pastBrace? rest).map (· + inside.length) := by
  induction inside with
  | nil => simp
  | cons byte inside ih =>
      obtain ⟨hbyte, hinside⟩ := List.ne_and_not_mem_of_not_mem_cons h
      rw [List.cons_append, pastBrace?, if_neg (Ne.symm hbyte), ih hinside, Option.map_map]
      rfl

/-- So is a closing of two bytes, if none is half inside. -/
theorem pastStar?_append {inside rest : Bytes} (h : ¬ [Byte.star, Byte.rightParen] <:+: inside)
    (hrest : rest.head? ≠ some Byte.rightParen) :
    pastStar? (inside ++ rest) = (pastStar? rest).map (· + inside.length) := by
  induction inside with
  | nil => simp
  | cons byte inside ih =>
      rw [List.infix_cons_iff, not_or] at h
      rw [List.cons_append, pastStar?, ih h.2, Option.map_map]
      · rfl
      · rintro after rfl hafter
        cases inside with
        | nil => exact hrest (by rw [← List.nil_append rest, hafter]; rfl)
        | cons second inside =>
            cases hafter
            exact h.1 ⟨inside, rfl⟩

/-- A comment in braces goes through the first right brace. -/
theorem Through.brace_size {inside rest : Bytes} (h : Through [Byte.rightBrace] inside rest)
    (token : Token) (opening : Nat) :
    (block token opening (inside ++ rest) (pastBrace? (inside ++ rest))).size =
      opening + inside.length := by
  cases h with
  | @closed inside _ hinside =>
      have hclosing : pastBrace? ([Byte.rightBrace] ++ rest) = some 1 := rfl
      rw [List.append_assoc, pastBrace?_append (mt (List.singleton_infix_iff _ _).2 hinside),
        hclosing, List.length_append, Nat.add_comm inside.length]
      rfl
  | unclosed hinside =>
      rw [pastBrace?_append (mt (List.singleton_infix_iff _ _).2 hinside), List.append_nil]
      rfl

/-- One with stars goes through the first star with a right parenthesis behind it. -/
theorem Through.star_size {inside rest : Bytes}
    (h : Through [Byte.star, Byte.rightParen] inside rest) (token : Token) (opening : Nat) :
    (block token opening (inside ++ rest) (pastStar? (inside ++ rest))).size =
      opening + inside.length := by
  cases h with
  | @closed inside _ hinside =>
      have hclosing : pastStar? ([Byte.star, Byte.rightParen] ++ rest) = some 2 := rfl
      have hstar : ([Byte.star, Byte.rightParen] ++ rest).head? ≠ some Byte.rightParen :=
        show some Byte.star ≠ some Byte.rightParen by decide
      rw [List.append_assoc, pastStar?_append hinside hstar, hclosing, List.length_append,
        Nat.add_comm inside.length]
      rfl
  | unclosed hinside =>
      rw [pastStar?_append hinside (by simp), List.append_nil]
      rfl

/-- A caret stands alone where the scanner lets it. -/
theorem standsAlone_iff (previous : Option Token) (rest : Bytes) :
    StandsAlone previous rest ↔
      Lexeme.endsOperand (previous.getD .illegal) || Lexeme.beginsTypeName rest := by
  have hoperand : previous ∈ [some .identifier, some (.operator .rightParen),
      some (.operator .rightBracket)] ↔ Lexeme.endsOperand (previous.getD .illegal) := by
    cases previous with
    | none => simp [Lexeme.endsOperand]
    | some token => cases token <;> simp [Lexeme.endsOperand]
  have hname : (∃ first second after, rest = first :: second :: after ∧ Byte.isLetter first ∧
      Byte.isWordByte second) ↔ Lexeme.beginsTypeName rest := by
    cases rest with
    | nil => simp [Lexeme.beginsTypeName]
    | cons first rest => cases rest <;> simp [Lexeme.beginsTypeName]
  rw [StandsAlone, hoperand, hname, Bool.or_eq_true]

/-- The operators but three are found by their first byte. -/
theorem operators_complete (op : Operator) :
    op ∈ [.caret, .leftParen, .slash] ∨
      ∃ first alone longer, Lexeme.operators first = some (alone, longer) ∧
        ((Token.operator op).bytes = [first] ∧ alone = op ∨
          ∃ second, (Token.operator op).bytes = [first, second] ∧
            longer.lookup second = some op) := by
  cases op with
  | caret | leftParen | slash => exact .inl (by simp)
  | assign | ellipsis | lessEqual | notEqual | greaterEqual =>
      exact .inr ⟨_, _, _, rfl, .inr ⟨_, rfl, rfl⟩⟩
  | atSign | plus | minus | star | equal | less | greater | colon | comma | period | semicolon
  | leftBracket | rightParen | rightBracket => exact .inr ⟨_, _, _, rfl, .inl ⟨rfl, rfl⟩⟩

/-- What is read at the beginning of `text ++ rest` is a token of this kind that takes `text`. -/
def Reads (previous : Option Token) (token : Token) (text rest : Bytes) : Prop :=
  ∃ first inside, text = first :: inside ∧
    (Lexeme.read (previous.getD .illegal) first (inside ++ rest)).token = token ∧
    (Lexeme.read (previous.getD .illegal) first (inside ++ rest)).size = text.length

variable {previous : Option Token} {first : UInt8} {inside text rest : Bytes} {token : Token}

theorem Reads.of_eq (lexeme : Lexeme)
    (h : Lexeme.read (previous.getD .illegal) first (inside ++ rest) = lexeme)
    (htoken : lexeme.token = token) (hsize : lexeme.size = inside.length + 1) :
    Reads previous token (first :: inside) rest :=
  ⟨first, inside, rfl, h ▸ htoken, h ▸ hsize⟩

theorem read_letter (previous : Token) (h : Byte.isLetter first) (rest : Bytes) :
    Lexeme.read previous first rest = word first rest :=
  if_pos h

/-- No digit is a letter. -/
theorem isLetter_of_isDigit {byte : UInt8} (h : Byte.isDigit byte) :
    Byte.isLetter byte = false := by
  simp only [Byte.isDigit, Byte.isLetter] at *
  grind

theorem read_digit (previous : Token) (h : Byte.isDigit first) (rest : Bytes) :
    Lexeme.read previous first rest = decimal rest := by
  rw [Lexeme.read, isLetter_of_isDigit h, if_pos h]
  rfl

/-- A byte that begins an operator of the table is read as one. -/
theorem read_of_operators {previous : Token} {found : Operator × List (UInt8 × Operator)}
    (h : Lexeme.operators first = some found) :
    Lexeme.read previous first rest = Lexeme.operator first rest := by
  unfold Lexeme.operators at h
  split at h <;> cases h <;> rfl

/-- An operator of one byte is read where no longer one stands. -/
theorem Longest.operator_single {op : Operator} {longer : List (UInt8 × Operator)}
    (h : Longest op (first :: rest)) (hoperators : Lexeme.operators first = some (op, longer))
    (hbytes : (Token.operator op).bytes = [first]) :
    Lexeme.operator first rest = { token := .operator op, size := 1 } := by
  have hnone : rest.head?.bind (longer.lookup ·) = none := by
    refine Option.eq_none_iff_forall_ne_some.2 fun other hother => ?_
    obtain ⟨second, hsecond, hlookup⟩ := Option.bind_eq_some_iff.1 hother
    obtain ⟨after, rfl⟩ := List.head?_eq_some_iff.1 hsecond
    obtain ⟨before, behind, rfl, -⟩ := List.lookup_eq_some_iff.1 hlookup
    -- the operator of both bytes would be longer
    have hpair := (Lexeme.operators_bytes hoperators).2 (second, other) (by simp)
    have hlength := h.longest other (by rw [← hpair]; exact ⟨after, rfl⟩)
    rw [← hpair, hbytes] at hlength
    exact absurd hlength (by simp)
  simp only [Lexeme.operator, hoperators, hnone]

/-- The longest operator is read, if it does not open a comment. -/
theorem Longest.reads {op : Operator} (hcaret : op ≠ .caret)
    (h : Longest op ((Token.operator op).bytes ++ rest))
    (hcomment : ¬ OpensComment ((Token.operator op).bytes ++ rest)) :
    Reads previous (.operator op) (Token.operator op).bytes rest := by
  obtain hspecial | ⟨first, alone, longer, hoperators, hkind⟩ := operators_complete op
  · simp only [List.mem_cons, hcaret, List.not_mem_nil, or_false, false_or] at hspecial
    rcases hspecial with rfl | rfl
    · have hbytes : (Token.operator .leftParen).bytes = [Byte.leftParen] := by decide
      rw [hbytes] at hcomment ⊢
      refine .of_eq _ (Lexeme.parenthesis_of_ne fun hstar => hcomment ?_) rfl rfl
      obtain ⟨after, rfl⟩ := List.head?_eq_some_iff.1 hstar
      exact .inl ⟨after, rfl⟩
    · have hbytes : (Token.operator .slash).bytes = [Byte.slash] := by decide
      rw [hbytes] at hcomment ⊢
      refine .of_eq _ (Lexeme.slash_of_ne fun hslash => hcomment ?_) rfl rfl
      obtain ⟨after, rfl⟩ := List.head?_eq_some_iff.1 hslash
      exact .inr ⟨after, rfl⟩
  · rcases hkind with ⟨hbytes, rfl⟩ | ⟨second, hbytes, hlookup⟩
    · have hlongest : Longest alone (first :: rest) := by
        rwa [hbytes] at h
      rw [hbytes]
      exact .of_eq _ ((read_of_operators hoperators).trans
        (hlongest.operator_single hoperators hbytes)) rfl rfl
    · rw [hbytes]
      refine .of_eq _ (read_of_operators hoperators) ?_ ?_
      · simp [Lexeme.operator, hoperators, hlookup]
      · simp [Lexeme.operator, hoperators, hlookup]

/-- A byte that begins no token is illegal by itself. -/
theorem reads_illegal (hletter : Byte.isLetter first = false)
    (hdigit : Byte.isDigit first = false)
    (hfirst : first ∉ [Byte.dollar, Byte.quote, Byte.hash, Byte.leftBrace])
    (hoperator : ∀ op, ¬ (Token.operator op).bytes <+: first :: rest) :
    Reads previous .illegal [first] rest := by
  have hfirst' : ∀ op byte, (Token.operator op).bytes = [byte] → first ≠ byte := by
    rintro op _ hbytes rfl
    exact hoperator op (by rw [hbytes]; exact ⟨rest, rfl⟩)
  have hcaret := hfirst' .caret Byte.caret (by decide)
  have hparen := hfirst' .leftParen Byte.leftParen (by decide)
  have hslash := hfirst' .slash Byte.slash (by decide)
  have hnone : Lexeme.operators first = none := by
    refine Option.eq_none_iff_forall_ne_some.2 fun found hfound => ?_
    exact hfirst' found.1 first (Lexeme.operators_bytes hfound).1.symm rfl
  have hsymbol : Lexeme.read (previous.getD .illegal) first ([] ++ rest) =
      Lexeme.operator first rest := by
    simp only [List.mem_cons, List.not_mem_nil, or_false, not_or] at hfirst
    rw [Lexeme.read, hletter, hdigit]
    simp only [Lexeme.symbol]
    split <;> simp_all
  exact .of_eq _ hsymbol (by simp only [Lexeme.operator, hnone])
    (by simp only [Lexeme.operator, hnone]; rfl)

/-- What the grammar prescribes is read. -/
theorem Lexes.reads (h : Lexes previous token text rest) : Reads previous token text rest := by
  cases h with
  | word hletter hrun hw =>
      have hread := (read_letter (previous.getD .illegal) hletter _).trans (word_eq hrun)
      rw [Token.ofName_of_spelling hw] at hread
      exact .of_eq _ hread rfl rfl
  | identifier hletter hrun hname =>
      have hread := (read_letter (previous.getD .illegal) hletter _).trans (word_eq hrun)
      rw [Token.ofName_of_forall_ne hname] at hread
      exact .of_eq _ hread rfl rfl
  | decimal hdigit hdigits hfraction hexponent =>
      have hread := (read_digit (previous.getD .illegal) hdigit _).trans
        (decimal_eq hdigits hfraction hexponent)
      rw [← List.append_assoc _ _ rest, ← List.append_assoc _ _ rest] at hread
      refine .of_eq _ hread rfl ?_
      simp only [List.length_append]
      omega
  | hexadecimal hdigits =>
      exact .of_eq (Lexeme.hexadecimal _) rfl rfl
        ((congrArg (1 + ·) hdigits.run_eq).trans (Nat.add_comm ..))
  | string hquoted =>
      obtain ⟨hsize, hcharacters⟩ := hquoted.quotation_eq
      refine .of_eq (Lexeme.string _) rfl ?_ ?_
      · rw [← hcharacters]
        rfl
      · exact (congrArg (1 + ·) hsize).trans (Nat.add_comm ..)
  | numbered hdigits hdollar =>
      exact .of_eq _ (Lexeme.numbered_of_ne hdollar) rfl
        ((congrArg (1 + ·) hdigits.run_eq).trans (Nat.add_comm ..))
  | hexNumbered hdigits =>
      exact .of_eq _ (Lexeme.numbered_dollar _) rfl
        ((congrArg (2 + ·) hdigits.run_eq).trans (Nat.add_comm ..))
  | caret halone => exact .of_eq _ (if_pos ((standsAlone_iff _ _).1 halone)) rfl rfl
  | control halone => exact .of_eq _ (if_neg (mt (standsAlone_iff _ _).2 halone)) rfl rfl
  | lastCaret halone => exact .of_eq _ (if_neg (mt (standsAlone_iff _ _).2 halone)) rfl rfl
  | braced hthrough =>
      exact .of_eq (Lexeme.braced _) rfl (Lexeme.block_token _ _ _ _)
        ((hthrough.brace_size _ 1).trans (Nat.add_comm ..))
  | starred hthrough =>
      exact .of_eq (block .comment 2 _ (pastStar? _)) rfl (Lexeme.block_token _ _ _ _)
        ((hthrough.star_size _ 2).trans (Nat.add_comm ..))
  | @line inside rest hinside =>
      exact .of_eq (Lexeme.slash (Byte.slash :: (inside ++ rest))) rfl rfl
        ((congrArg (2 + ·) hinside.run_eq).trans (Nat.add_comm ..))
  | operator hcaret hlongest hcomment => exact hlongest.reads hcaret hcomment
  | illegal _ hletter hdigit hfirst hoperator =>
      exact reads_illegal hletter hdigit hfirst hoperator

/-- Nothing else is read: where a token begins, the grammar prescribes what is read there. -/
theorem lexes_iff (hblank : Byte.isBlank first = false) (htext : text ++ rest = first :: inside) :
    Lexes previous token text rest ↔
      token = (Lexeme.read (previous.getD .illegal) first inside).token ∧
        text.length = (Lexeme.read (previous.getD .illegal) first inside).size := by
  -- what the grammar prescribes at this byte has the kind and the length of what is read
  have hread : ∀ {token text rest}, text ++ rest = first :: inside →
      Lexes previous token text rest →
      token = (Lexeme.read (previous.getD .illegal) first inside).token ∧
        text.length = (Lexeme.read (previous.getD .illegal) first inside).size := by
    intro token text rest htext hlexes
    obtain ⟨_, _, rfl, htoken, hsize⟩ := hlexes.reads
    obtain ⟨rfl, rfl⟩ := List.cons.inj htext
    exact ⟨htoken.symm, hsize.symm⟩
  refine ⟨hread htext, fun ⟨htoken, hlength⟩ => ?_⟩
  obtain ⟨other, lexeme, behind, hcut, hlexes⟩ := exists_lexes previous hblank inside
  obtain ⟨hother, hlexeme⟩ := hread hcut.symm hlexes
  obtain ⟨rfl, rfl⟩ := List.append_inj (htext.trans hcut) (hlength.trans hlexeme.symm)
  rwa [htoken, ← hother]

end Grammar

end PascalUnits
