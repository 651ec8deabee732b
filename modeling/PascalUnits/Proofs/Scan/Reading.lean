import PascalUnits.Proofs.Scan.LongestMatch
import PascalUnits.Scan.Scanner

/-!
# How the grammar reads a text

`Reading source comments previous start pieces` says that the text from `start` on is cut into
`pieces`: each is what the grammar prescribes where it stands, and nothing else than what `Passes`
allows stands before it. Blanks may be passed, and comments if they are skipped, but no other byte
is left out. A token never begins with a blank (`Lexes.exists_cons`) and is the only one in its
place (`Lexes.unique`), so passing ends in one place only (`Passes.unique`) and there is no other
reading (`Reading.unique`).
-/

namespace PascalUnits

/-- The last significant token behind one more token: itself, if it is no comment and no
directive. -/
def Token.orPrevious (token : Token) (previous : Option Token) : Option Token :=
  if token.isTrivia then previous else some token

theorem Token.getD_orPrevious (token : Token) (previous : Option Token) :
    (token.orPrevious previous).getD .illegal =
      if token.isTrivia then previous.getD .illegal else token := by
  unfold Token.orPrevious
  split <;> rfl

namespace Grammar

/-- A token, the offset at which it stands, and its bytes. -/
structure Piece where
  token : Token
  offset : Nat
  text : Bytes
  deriving DecidableEq, Repr

/-- From `start` up to `stop` there is nothing but blanks, and comments if these are skipped. -/
inductive Passes (source : Bytes) (comments : Comments) (previous : Option Token) :
    Nat → Nat → Prop where
  | done {start : Nat} : Passes source comments previous start start
  | blank {start stop : Nat} {byte : UInt8} : source[start]? = some byte → Byte.isBlank byte →
      Passes source comments previous (start + 1) stop → Passes source comments previous start stop
  | comment {start stop : Nat} {text rest : Bytes} : comments = .skipped →
      text ++ rest = source.drop start → Lexes previous .comment text rest →
      Passes source comments previous (start + text.length) stop →
      Passes source comments previous start stop

/-- A token stands at this offset that is not passed. -/
structure Stands (source : Bytes) (comments : Comments) (previous : Option Token) (token : Token)
    (offset : Nat) (text rest : Bytes) : Prop where
  text_eq : text ++ rest = source.drop offset
  lexes : Lexes previous token text rest
  not_passed : comments = .skipped → token ≠ .comment

/-- The text from `start` on is cut into these pieces, up to its end. Each is prescribed behind the
last one before it that is neither a comment nor a directive. -/
inductive Reading (source : Bytes) (comments : Comments) :
    Option Token → Nat → List Piece → Prop where
  | done {previous : Option Token} {start : Nat} :
      Passes source comments previous start source.length →
      Reading source comments previous start []
  | piece {previous : Option Token} {token : Token} {start offset : Nat} {text rest : Bytes}
      {pieces : List Piece} : Passes source comments previous start offset →
      Stands source comments previous token offset text rest →
      Reading source comments (token.orPrevious previous) (offset + text.length) pieces →
      Reading source comments previous start ({ token, offset, text } :: pieces)

variable {source : Bytes} {comments : Comments} {previous : Option Token} {token other : Token}
  {start middle stop offset : Nat} {text rest otherText otherRest : Bytes}
  {pieces others : List Piece}

/-- No token begins with a blank. -/
theorem Lexes.exists_cons (h : Lexes previous token text rest) :
    ∃ first inside, text = first :: inside ∧ Byte.isBlank first = false := by
  cases h with
  | word hletter | identifier hletter => exact ⟨_, _, rfl, Byte.isBlank_of_isLetter hletter⟩
  | decimal hdigit => exact ⟨_, _, rfl, Byte.isBlank_of_isDigit hdigit⟩
  | hexadecimal | string | numbered | hexNumbered | caret | control | lastCaret | braced | starred
  | line => exact ⟨_, _, rfl, by decide⟩
  | @operator op =>
      have hbytes : ∃ first inside, (Token.operator op).bytes = first :: inside ∧
          Byte.isBlank first = false := by
        cases op <;> exact ⟨_, _, rfl, by decide⟩
      exact hbytes
  | illegal hblank => exact ⟨_, _, rfl, hblank⟩

/-- No other token stands in the same place. -/
theorem Lexes.unique (h : Lexes previous token text rest)
    (hother : Lexes previous other otherText otherRest)
    (htext : text ++ rest = otherText ++ otherRest) : token = other ∧ text = otherText := by
  obtain ⟨first, inside, rfl, htoken, hsize⟩ := h.reads
  obtain ⟨first', inside', rfl, htoken', hsize'⟩ := hother.reads
  obtain ⟨rfl, hinside⟩ := List.cons.inj htext
  have hbehind : inside ++ rest = inside' ++ otherRest := hinside
  rw [hbehind] at htoken hsize
  exact ⟨htoken.symm.trans htoken', List.append_inj_left htext (hsize.symm.trans hsize')⟩

namespace Passes

/-- What may be passed may be passed in two steps. -/
theorem trans (h : Passes source comments previous start middle)
    (hnext : Passes source comments previous middle stop) :
    Passes source comments previous start stop := by
  induction h with
  | done => exact hnext
  | blank hbyte hblank _ ih => exact .blank hbyte hblank (ih hnext)
  | comment hskipped htext hlexes _ ih => exact .comment hskipped htext hlexes (ih hnext)

/-- Where comments are kept only blanks are passed, which may be passed anyway. -/
theorem of_kept (h : Passes source .kept previous start stop) :
    Passes source comments previous start stop := by
  induction h with
  | done => exact .done
  | blank hbyte hblank _ ih => exact .blank hbyte hblank ih
  | comment hskipped => cases hskipped

/-- Blanks may be passed. -/
theorem of_blanks {start : Nat} (hle : start ≤ stop) (hstop : stop ≤ source.length)
    (hblank : ∀ index byte, source[index]? = some byte → start ≤ index → index < stop →
      Byte.isBlank byte) : Passes source comments previous start stop := by
  by_cases hend : start = stop
  · exact hend ▸ .done
  · have hlt : start < source.length := by omega
    refine .blank (List.getElem?_eq_getElem hlt) ?_ (of_blanks (by omega) hstop ?_)
    · exact hblank start _ (List.getElem?_eq_getElem hlt) (Nat.le_refl _) (by omega)
    · exact fun index byte hbyte hindex => hblank index byte hbyte (by omega)
termination_by stop - start

end Passes

/-- Where a token stands there is a byte that is no blank. -/
theorem Lexes.exists_getElem? (h : Lexes previous token text rest)
    (htext : text ++ rest = source.drop offset) :
    ∃ byte, source[offset]? = some byte ∧ Byte.isBlank byte = false := by
  obtain ⟨first, inside, rfl, hblank⟩ := h.exists_cons
  refine ⟨first, ?_, hblank⟩
  have hfirst : (source.drop offset)[0]? = some first := by
    rw [← htext]
    rfl
  rwa [List.getElem?_drop] at hfirst

/-- No blank is the beginning of a token. -/
theorem Lexes.not_blank (h : Lexes previous token text rest)
    (htext : text ++ rest = source.drop offset) {byte : UInt8}
    (hbyte : source[offset]? = some byte) : Byte.isBlank byte ≠ true := by
  obtain ⟨first, hfirst, hblank⟩ := h.exists_getElem? htext
  obtain rfl : byte = first := Option.some.inj (hbyte.symm.trans hfirst)
  exact Bool.eq_false_iff.1 hblank

/-- The end of the text, or a token that is not passed. -/
def Stops (source : Bytes) (comments : Comments) (previous : Option Token) (offset : Nat) : Prop :=
  offset = source.length ∨
    ∃ token text rest, Stands source comments previous token offset text rest

namespace Passes

/-- Nothing is passed where passing stops. -/
theorem eq_of_stops (h : Passes source comments previous start stop)
    (hstart : Stops source comments previous start) : stop = start := by
  have hnone : ∀ {byte : UInt8}, source[start]? = some byte → start ≠ source.length := by
    rintro byte hbyte rfl
    rw [List.getElem?_length] at hbyte
    cases hbyte
  cases h with
  | done => rfl
  | blank hbyte hblank _ =>
      rcases hstart with hend | ⟨token, text, rest, hstands⟩
      · exact absurd hend (hnone hbyte)
      · exact absurd hblank (hstands.lexes.not_blank hstands.text_eq hbyte)
  | comment hskipped htext hlexes _ =>
      rcases hstart with hend | ⟨token, text, rest, hstands⟩
      · obtain ⟨byte, hbyte, -⟩ := hlexes.exists_getElem? htext
        exact absurd hend (hnone hbyte)
      · obtain ⟨hcomment, -⟩ := hlexes.unique hstands.lexes (htext.trans hstands.text_eq.symm)
        exact absurd hcomment.symm (hstands.not_passed hskipped)

/-- Passing stops in one place only. -/
theorem unique (h : Passes source comments previous start stop)
    (hother : Passes source comments previous start offset)
    (hstop : Stops source comments previous stop)
    (hotherStop : Stops source comments previous offset) : stop = offset := by
  induction h with
  | done => exact (hother.eq_of_stops hstop).symm
  | blank hbyte hblank hrest ih =>
      cases hother with
      | done => exact (Passes.blank hbyte hblank hrest).eq_of_stops hotherStop
      | blank _ _ hotherRest => exact ih hotherRest hstop
      | comment _ htext hlexes _ => exact absurd hblank (hlexes.not_blank htext hbyte)
  | comment hskipped htext hlexes hrest ih =>
      cases hother with
      | done => exact (Passes.comment hskipped htext hlexes hrest).eq_of_stops hotherStop
      | blank hbyte hblank _ => exact absurd hblank (hlexes.not_blank htext hbyte)
      | comment _ hotherText hotherLexes hotherRest =>
          obtain ⟨-, rfl⟩ := hlexes.unique hotherLexes (htext.trans hotherText.symm)
          exact ih hotherRest hstop

end Passes

/-- Before a token that is not passed the text does not end. -/
theorem Stands.not_passes_end (h : Stands source comments previous token offset text rest)
    (hpasses : Passes source comments previous start offset) :
    ¬ Passes source comments previous start source.length := by
  intro hend
  obtain rfl := hpasses.unique hend (.inr ⟨_, _, _, h⟩) (.inl rfl)
  obtain ⟨byte, hbyte, -⟩ := h.lexes.exists_getElem? h.text_eq
  rw [List.getElem?_length] at hbyte
  cases hbyte

/-- A text has one reading. -/
theorem Reading.unique (h : Reading source comments previous start pieces)
    (hother : Reading source comments previous start others) : pieces = others := by
  induction h generalizing others with
  | done hpasses =>
      cases hother with
      | done => rfl
      | piece hotherPasses hstands _ =>
          exact absurd hpasses (hstands.not_passes_end hotherPasses)
  | piece hpasses hstands _ ih =>
      cases hother with
      | done hotherPasses => exact absurd hotherPasses (hstands.not_passes_end hpasses)
      | piece hotherPasses hotherStands hotherRest =>
          obtain rfl := hpasses.unique hotherPasses (.inr ⟨_, _, _, hstands⟩)
            (.inr ⟨_, _, _, hotherStands⟩)
          obtain ⟨rfl, rfl⟩ := hstands.lexes.unique hotherStands.lexes
            (hstands.text_eq.trans hotherStands.text_eq.symm)
          rw [ih hotherRest]

end Grammar

end PascalUnits
