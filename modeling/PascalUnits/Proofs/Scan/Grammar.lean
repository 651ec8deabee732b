import PascalUnits.Proofs.Scan.Lexeme

/-!
# The lexical grammar

`Lexes previous token text rest` says that the bytes `text`, where `rest` follows, are a token of
the kind `token`. Each rule says where a lexeme ends by what may be in it and by what may follow,
and nothing about how that is found: a run is `Maximal`, an operator is the `Longest` one, and a
block comment goes `Through` the first closing. The token `previous`, the last one that was neither
a comment nor a directive, matters to the caret only. Every byte that is no blank begins a token
(`exists_lexes`).
-/

namespace PascalUnits

namespace Grammar

/-- Bytes that are all accepted. The next one, if there is one, is not. -/
structure Maximal (accept : UInt8 → Bool) (run rest : Bytes) : Prop where
  accepted : ∀ byte ∈ run, accept byte
  stops : ∀ byte, rest.head? = some byte → accept byte = false

/-- A period with digits behind it. It is taken wherever a digit follows a period. -/
inductive Fraction : Bytes → Bytes → Prop where
  | digits {digits rest : Bytes} : digits ≠ [] → Maximal Byte.isDigit digits rest →
      Fraction (Byte.period :: digits) rest
  | none {rest : Bytes} :
      (∀ digit after, rest = Byte.period :: digit :: after → Byte.isDigit digit = false) →
      Fraction [] rest

/-- A sign, wherever one stands. -/
inductive Sign : Bytes → Bytes → Prop where
  | taken {byte : UInt8} {rest : Bytes} : byte = Byte.plus ∨ byte = Byte.minus → Sign [byte] rest
  | none {rest : Bytes} :
      (∀ byte, rest.head? = some byte → ¬ (byte = Byte.plus ∨ byte = Byte.minus)) → Sign [] rest

/-- The letter `e` with a sign, if one follows, and any number of digits. -/
inductive Exponent : Bytes → Bytes → Prop where
  | mark {mark : UInt8} {sign digits rest : Bytes} : Byte.isExponentMark mark →
      Sign sign (digits ++ rest) → Maximal Byte.isDigit digits rest →
      Exponent (mark :: (sign ++ digits)) rest
  | none {rest : Bytes} :
      (∀ byte, rest.head? = some byte → Byte.isExponentMark byte = false) → Exponent [] rest

/-- The characters of a string literal as they are written, with every quote doubled. -/
def doubled (characters : Bytes) : Bytes :=
  characters.flatMap fun byte => if byte = Byte.quote then [byte, byte] else [byte]

/-- What follows the opening quote of a string literal: its characters and a quote that is not half
of a doubled one. A literal without such a quote on its line ends with the line. -/
inductive Quoted (characters : Bytes) : Bytes → Bytes → Prop where
  | closed {rest : Bytes} : Byte.lineFeed ∉ characters → rest.head? ≠ some Byte.quote →
      Quoted characters (doubled characters ++ [Byte.quote]) rest
  | unclosed {rest : Bytes} : Byte.lineFeed ∉ characters →
      (∀ byte, rest.head? = some byte → byte = Byte.lineFeed) →
      Quoted characters (doubled characters) rest

/-- What follows the opening of a block comment: all bytes through the first `closing`, or all there
are if none follows. -/
inductive Through (closing : Bytes) : Bytes → Bytes → Prop where
  | closed {inside rest : Bytes} : ¬ closing <:+: inside → Through closing (inside ++ closing) rest
  | unclosed {inside : Bytes} : ¬ closing <:+: inside → Through closing inside []

/-- A caret stands alone after an operand, and before a letter with a letter or digit behind it. -/
def StandsAlone (previous : Option Token) (rest : Bytes) : Prop :=
  previous ∈ [some .identifier, some (.operator .rightParen), some (.operator .rightBracket)] ∨
    ∃ first second after, rest = first :: second :: after ∧ Byte.isLetter first ∧
      Byte.isWordByte second

/-- An operator that a text begins with. No longer one does. -/
structure Longest (op : Operator) (text : Bytes) : Prop where
  stands : (Token.operator op).bytes <+: text
  longest : ∀ other, (Token.operator other).bytes <+: text →
    (Token.operator other).bytes.length ≤ (Token.operator op).bytes.length

/-- Two bytes that are operators elsewhere and begin a comment together. -/
def OpensComment (text : Bytes) : Prop :=
  [Byte.leftParen, Byte.star] <+: text ∨ [Byte.slash, Byte.slash] <+: text

/-- The bytes `text`, with `rest` behind them, are a token of this kind. -/
inductive Lexes (previous : Option Token) : Token → Bytes → Bytes → Prop where
  | word {first : UInt8} {run rest : Bytes} {w : Word} :
      Byte.isLetter first → Maximal Byte.isWordByte run rest →
      w.spelling = Text.lower (Bytes.latin (first :: run)) →
      Lexes previous (.word w) (first :: run) rest
  | identifier {first : UInt8} {run rest : Bytes} :
      Byte.isLetter first → Maximal Byte.isWordByte run rest →
      (∀ w : Word, w.spelling ≠ Text.lower (Bytes.latin (first :: run))) →
      Lexes previous .identifier (first :: run) rest
  | decimal {first : UInt8} {digits fraction exponent rest : Bytes} :
      Byte.isDigit first → Maximal Byte.isDigit digits (fraction ++ (exponent ++ rest)) →
      Fraction fraction (exponent ++ rest) → Exponent exponent rest →
      Lexes previous (if fraction = [] ∧ exponent = [] then .integer else .float)
        (first :: (digits ++ (fraction ++ exponent))) rest
  | hexadecimal {digits rest : Bytes} : Maximal Byte.isHexDigit digits rest →
      Lexes previous .integer (Byte.dollar :: digits) rest
  | string {characters inside rest : Bytes} : Quoted characters inside rest →
      Lexes previous (if characters.length = 1 then .char else .string)
        (Byte.quote :: inside) rest
  | numbered {digits rest : Bytes} : Maximal Byte.isDigit digits rest →
      (digits ++ rest).head? ≠ some Byte.dollar →
      Lexes previous .char (Byte.hash :: digits) rest
  | hexNumbered {digits rest : Bytes} : Maximal Byte.isHexDigit digits rest →
      Lexes previous .char (Byte.hash :: Byte.dollar :: digits) rest
  | caret {rest : Bytes} : StandsAlone previous rest →
      Lexes previous (.operator .caret) [Byte.caret] rest
  | control {byte : UInt8} {rest : Bytes} : ¬ StandsAlone previous (byte :: rest) →
      Lexes previous .char [Byte.caret, byte] rest
  | lastCaret : ¬ StandsAlone previous [] → Lexes previous .char [Byte.caret] []
  | braced {inside rest : Bytes} : Through [Byte.rightBrace] inside rest →
      Lexes previous
        (if (inside ++ rest).head? = some Byte.dollar then .directive else .comment)
        (Byte.leftBrace :: inside) rest
  | starred {inside rest : Bytes} : Through [Byte.star, Byte.rightParen] inside rest →
      Lexes previous .comment (Byte.leftParen :: Byte.star :: inside) rest
  | line {inside rest : Bytes} : Maximal (· != Byte.lineFeed) inside rest →
      Lexes previous .comment (Byte.slash :: Byte.slash :: inside) rest
  | operator {op : Operator} {rest : Bytes} : op ≠ .caret →
      Longest op ((Token.operator op).bytes ++ rest) →
      ¬ OpensComment ((Token.operator op).bytes ++ rest) →
      Lexes previous (.operator op) (Token.operator op).bytes rest
  | illegal {byte : UInt8} {rest : Bytes} :
      Byte.isBlank byte = false → Byte.isLetter byte = false → Byte.isDigit byte = false →
      byte ∉ [Byte.dollar, Byte.quote, Byte.hash, Byte.leftBrace] →
      (∀ op, ¬ (Token.operator op).bytes <+: byte :: rest) →
      Lexes previous .illegal [byte] rest

/-! Every text begins with a piece of each sort, which may be empty. -/

theorem exists_maximal (accept : UInt8 → Bool) (text : Bytes) :
    ∃ run rest, text = run ++ rest ∧ Maximal accept run rest := by
  refine ⟨text.takeWhile accept, text.dropWhile accept, List.takeWhile_append_dropWhile.symm,
    List.all_eq_true.1 List.all_takeWhile, fun byte hbyte => ?_⟩
  have hhead := List.head?_dropWhile_not accept text
  rw [hbyte] at hhead
  simpa using hhead

theorem exists_fraction (text : Bytes) :
    ∃ fraction rest, text = fraction ++ rest ∧ Fraction fraction rest := by
  by_cases hperiod :
      ∃ digit after, text = Byte.period :: digit :: after ∧ Byte.isDigit digit = true
  · obtain ⟨digit, after, rfl, hdigit⟩ := hperiod
    obtain ⟨run, rest, rfl, hrun⟩ := exists_maximal Byte.isDigit after
    exact ⟨Byte.period :: digit :: run, rest, rfl,
      .digits (by simp) ⟨List.forall_mem_cons.2 ⟨hdigit, hrun.accepted⟩, hrun.stops⟩⟩
  · refine ⟨[], text, rfl, .none fun digit after htext => ?_⟩
    exact Bool.eq_false_iff.2 fun hdigit => hperiod ⟨digit, after, htext, hdigit⟩

theorem exists_sign (text : Bytes) : ∃ sign rest, text = sign ++ rest ∧ Sign sign rest := by
  cases text with
  | nil => exact ⟨[], [], rfl, .none nofun⟩
  | cons byte text =>
      by_cases hsign : byte = Byte.plus ∨ byte = Byte.minus
      · exact ⟨[byte], text, rfl, .taken hsign⟩
      · refine ⟨[], byte :: text, rfl, .none fun other hother => ?_⟩
        cases hother
        exact hsign

theorem exists_exponent (text : Bytes) :
    ∃ exponent rest, text = exponent ++ rest ∧ Exponent exponent rest := by
  cases text with
  | nil => exact ⟨[], [], rfl, .none nofun⟩
  | cons byte text =>
      by_cases hmark : Byte.isExponentMark byte
      · obtain ⟨sign, after, rfl, hsign⟩ := exists_sign text
        obtain ⟨digits, rest, rfl, hdigits⟩ := exists_maximal Byte.isDigit after
        exact ⟨byte :: (sign ++ digits), rest, by simp, .mark hmark hsign hdigits⟩
      · refine ⟨[], byte :: text, rfl, .none fun other hother => ?_⟩
        cases hother
        exact Bool.eq_false_iff.2 hmark

theorem doubled_cons (byte : UInt8) (characters : Bytes) :
    doubled (byte :: characters) =
      (if byte = Byte.quote then [byte, byte] else [byte]) ++ doubled characters :=
  List.flatMap_cons

/-- One more character before the others. -/
theorem Quoted.cons {byte : UInt8} {characters inside rest : Bytes}
    (h : Quoted characters inside rest) (hbyte : byte ≠ Byte.lineFeed) :
    Quoted (byte :: characters)
      ((if byte = Byte.quote then [byte, byte] else [byte]) ++ inside) rest := by
  have hfeed : Byte.lineFeed ∉ characters → Byte.lineFeed ∉ byte :: characters :=
    List.not_mem_cons_of_ne_of_not_mem hbyte.symm
  cases h with
  | closed hinside hrest =>
      rw [← List.append_assoc, ← doubled_cons]
      exact .closed (hfeed hinside) hrest
  | unclosed hinside hrest =>
      rw [← doubled_cons]
      exact .unclosed (hfeed hinside) hrest

theorem exists_quoted (text : Bytes) :
    ∃ characters inside rest, text = inside ++ rest ∧ Quoted characters inside rest := by
  fun_induction Lexeme.quotation text with
  | case1 => exact ⟨[], [], [], rfl, .unclosed (by simp) (by simp)⟩
  | case2 text _ ih =>
      obtain ⟨characters, inside, rest, rfl, hquoted⟩ := ih
      exact ⟨_, _, rest, rfl, hquoted.cons (show Byte.quote ≠ Byte.lineFeed by decide)⟩
  | case3 text hsingle =>
      refine ⟨[], [Byte.quote], text, rfl, .closed (by simp) fun hquote => ?_⟩
      obtain ⟨after, rfl⟩ := List.head?_eq_some_iff.1 hquote
      exact hsingle after rfl
  | case4 text =>
      refine ⟨[], [], Byte.lineFeed :: text, rfl, .unclosed (by simp) fun byte hbyte => ?_⟩
      cases hbyte
      rfl
  | case5 byte text _ hquote hfeed _ ih =>
      obtain ⟨characters, inside, rest, rfl, hquoted⟩ := ih
      have hcons := hquoted.cons hfeed
      rw [if_neg (show byte ≠ Byte.quote from hquote)] at hcons
      exact ⟨_, _, rest, rfl, hcons⟩

theorem exists_through (closing : Bytes) (hclosing : closing ≠ []) (text : Bytes) :
    ∃ inside rest, text = inside ++ rest ∧ Through closing inside rest := by
  have hempty : ¬ closing <:+: [] := fun h => hclosing (List.infix_nil.1 h)
  induction text with
  | nil => exact ⟨[], [], rfl, .unclosed hempty⟩
  | cons byte text ih =>
      by_cases hhere : closing <+: byte :: text
      · obtain ⟨rest, hrest⟩ := hhere
        exact ⟨closing, rest, hrest.symm, .closed hempty⟩
      · obtain ⟨inside, rest, rfl, hthrough⟩ := ih
        -- the first closing behind the byte is the first one, as none begins at the byte
        have hcons : ∀ {part}, part <+: inside → ¬ closing <:+: part →
            ¬ closing <:+: byte :: part := by
          intro part hpart hinside hcons
          refine (List.infix_cons_iff.1 hcons).elim (fun hprefix => hhere ?_) hinside
          exact hprefix.trans (List.cons_prefix_cons.2
            ⟨rfl, hpart.trans (List.prefix_append inside rest)⟩)
        cases hthrough with
        | closed hinside =>
            exact ⟨_, rest, rfl, .closed (hcons (List.prefix_append _ _) hinside)⟩
        | unclosed hinside => exact ⟨_, [], rfl, .unclosed (hcons List.prefix_rfl hinside)⟩

/-- An operator is one byte or two. -/
theorem length_operator (op : Operator) :
    (Token.operator op).bytes.length = 1 ∨ (Token.operator op).bytes.length = 2 := by
  cases op <;> decide

theorem exists_longest {text : Bytes} (h : ∃ op, (Token.operator op).bytes <+: text) :
    ∃ op, Longest op text := by
  by_cases hpair : ∃ op, (Token.operator op).bytes <+: text ∧
      (Token.operator op).bytes.length = 2
  · obtain ⟨op, hop, hlength⟩ := hpair
    refine ⟨op, hop, fun other _ => ?_⟩
    have hother := length_operator other
    omega
  · obtain ⟨op, hop⟩ := h
    refine ⟨op, hop, fun other hstands => ?_⟩
    have hlength := length_operator op
    have hother := (length_operator other).resolve_right fun htwo => hpair ⟨other, hstands, htwo⟩
    omega

variable (previous : Option Token) {first : UInt8} {text : Bytes}

/-- A letter begins a word of the language or a name. -/
theorem exists_lexes_letter (hletter : Byte.isLetter first) (text : Bytes) :
    ∃ token lexeme rest, first :: text = lexeme ++ rest ∧ Lexes previous token lexeme rest := by
  obtain ⟨run, rest, rfl, hrun⟩ := exists_maximal Byte.isWordByte text
  by_cases hword : ∃ w : Word, w.spelling = Text.lower (Bytes.latin (first :: run))
  · obtain ⟨w, hw⟩ := hword
    exact ⟨_, _, rest, rfl, .word hletter hrun hw⟩
  · exact ⟨_, _, rest, rfl, .identifier hletter hrun fun w hw => hword ⟨w, hw⟩⟩

/-- A digit begins a number. -/
theorem exists_lexes_digit (hdigit : Byte.isDigit first) (text : Bytes) :
    ∃ token lexeme rest, first :: text = lexeme ++ rest ∧ Lexes previous token lexeme rest := by
  obtain ⟨digits, after, rfl, hdigits⟩ := exists_maximal Byte.isDigit text
  obtain ⟨fraction, behind, rfl, hfraction⟩ := exists_fraction after
  obtain ⟨exponent, rest, rfl, hexponent⟩ := exists_exponent behind
  exact ⟨_, _, rest, by simp, .decimal hdigit hdigits hfraction hexponent⟩

/-- A number sign begins a character. -/
theorem exists_lexes_hash (text : Bytes) :
    ∃ token lexeme rest, Byte.hash :: text = lexeme ++ rest ∧
      Lexes previous token lexeme rest := by
  by_cases hdollar : text.head? = some Byte.dollar
  · obtain ⟨after, rfl⟩ := List.head?_eq_some_iff.1 hdollar
    obtain ⟨digits, rest, rfl, hdigits⟩ := exists_maximal Byte.isHexDigit after
    exact ⟨_, _, rest, rfl, .hexNumbered hdigits⟩
  · obtain ⟨digits, rest, rfl, hdigits⟩ := exists_maximal Byte.isDigit text
    exact ⟨_, _, rest, rfl, .numbered hdigits hdollar⟩

/-- A caret stands alone or begins a control character. -/
theorem exists_lexes_caret (text : Bytes) :
    ∃ token lexeme rest, Byte.caret :: text = lexeme ++ rest ∧
      Lexes previous token lexeme rest := by
  by_cases halone : StandsAlone previous text
  · exact ⟨_, _, text, rfl, .caret halone⟩
  · cases text with
    | nil => exact ⟨_, _, [], rfl, .lastCaret halone⟩
    | cons byte rest => exact ⟨_, _, rest, rfl, .control halone⟩

/-- Two bytes that open a comment begin one. -/
theorem exists_lexes_comment (h : OpensComment text) :
    ∃ token lexeme rest, text = lexeme ++ rest ∧ Lexes previous token lexeme rest := by
  rcases h with ⟨after, rfl⟩ | ⟨after, rfl⟩
  · obtain ⟨inside, rest, rfl, hthrough⟩ :=
      exists_through [Byte.star, Byte.rightParen] (by simp) after
    exact ⟨_, _, rest, rfl, .starred hthrough⟩
  · obtain ⟨inside, rest, rfl, hline⟩ := exists_maximal (· != Byte.lineFeed) after
    exact ⟨_, _, rest, rfl, .line hline⟩

/-- Only a caret begins a caret. -/
theorem ne_caret_of_stands (hcaret : first ≠ Byte.caret) {op : Operator}
    (h : (Token.operator op).bytes <+: first :: text) : op ≠ .caret := by
  rintro rfl
  have hbytes : (Token.operator .caret).bytes = [Byte.caret] := by decide
  rw [hbytes] at h
  exact hcaret (List.cons_prefix_cons.1 h).1.symm

/-- Every byte that is no blank begins a token. -/
theorem exists_lexes (hblank : Byte.isBlank first = false) (text : Bytes) :
    ∃ token lexeme rest, first :: text = lexeme ++ rest ∧ Lexes previous token lexeme rest := by
  by_cases hletter : Byte.isLetter first
  · exact exists_lexes_letter previous hletter text
  by_cases hdigit : Byte.isDigit first
  · exact exists_lexes_digit previous hdigit text
  by_cases hdollar : first = Byte.dollar
  · subst hdollar
    obtain ⟨digits, rest, rfl, hdigits⟩ := exists_maximal Byte.isHexDigit text
    exact ⟨_, _, rest, rfl, .hexadecimal hdigits⟩
  by_cases hquote : first = Byte.quote
  · subst hquote
    obtain ⟨characters, inside, rest, rfl, hquoted⟩ := exists_quoted text
    exact ⟨_, _, rest, rfl, .string hquoted⟩
  by_cases hhash : first = Byte.hash
  · exact hhash ▸ exists_lexes_hash previous text
  by_cases hcaret : first = Byte.caret
  · exact hcaret ▸ exists_lexes_caret previous text
  by_cases hbrace : first = Byte.leftBrace
  · subst hbrace
    obtain ⟨inside, rest, rfl, hthrough⟩ := exists_through [Byte.rightBrace] (by simp) text
    exact ⟨_, _, rest, rfl, .braced hthrough⟩
  by_cases hcomment : OpensComment (first :: text)
  · exact exists_lexes_comment previous hcomment
  by_cases hoperator : ∃ op, (Token.operator op).bytes <+: first :: text
  · obtain ⟨op, hlongest⟩ := exists_longest hoperator
    obtain ⟨rest, hrest⟩ := hlongest.stands
    have hop := ne_caret_of_stands hcaret hlongest.stands
    rw [← hrest] at hlongest hcomment ⊢
    exact ⟨_, _, rest, rfl, .operator hop hlongest hcomment⟩
  · refine ⟨_, [first], text, rfl, .illegal hblank (Bool.eq_false_iff.2 hletter)
      (Bool.eq_false_iff.2 hdigit) ?_ fun op hop => hoperator ⟨op, hop⟩⟩
    simp only [List.mem_cons, List.not_mem_nil, or_false, not_or]
    exact ⟨hdollar, hquote, hhash, hbrace⟩

end Grammar

end PascalUnits
