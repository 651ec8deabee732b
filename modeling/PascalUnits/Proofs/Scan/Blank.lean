import PascalUnits.Proofs.Scan.Lookahead
import PascalUnits.Proofs.Scan.Tiling

/-!
# Texts with blanks for comments

`blank` puts spaces in the place of comments and leaves line feeds alone. So a blanked text is a
faded one (`fades_blank`), it has the same lines (`SourceFile.addLines_fades`), and nothing but
blanks is left of a comment (`isBlank_of_mem_blank`).
-/

namespace PascalUnits

/-- The byte at `index` belongs to a comment among the tokens. -/
def InComment (tokens : List Scanned) (index : Nat) : Prop :=
  ∃ found ∈ tokens, found.token = .comment ∧ found.Spans index

instance (tokens : List Scanned) (index : Nat) : Decidable (InComment tokens index) :=
  inferInstanceAs (Decidable (∃ found ∈ tokens,
    found.token = .comment ∧ found.offset ≤ index ∧ index < found.stop))

/-- The text that begins at `offset`, with a space in place of every byte of a comment among the
tokens. Line feeds stay. -/
def blank (tokens : List Scanned) (offset : Nat) : Bytes → Bytes
  | [] => []
  | byte :: text =>
    (if byte ≠ Byte.lineFeed ∧ InComment tokens offset then Byte.space else byte) ::
      blank tokens (offset + 1) text

section Blank

variable {tokens others : List Scanned} {offset : Nat} {text other : Bytes}

@[simp] theorem length_blank (tokens : List Scanned) (offset : Nat) (text : Bytes) :
    (blank tokens offset text).length = text.length := by
  induction text generalizing offset with
  | nil => rfl
  | cons byte text ih => simp [blank, ih]

theorem blank_append (tokens : List Scanned) (offset : Nat) (text other : Bytes) :
    blank tokens offset (text ++ other) =
      blank tokens offset text ++ blank tokens (offset + text.length) other := by
  induction text generalizing offset with
  | nil => rfl
  | cons byte text ih => simp [blank, ih, Nat.add_assoc, Nat.add_comm 1]

/-- A text outside all comments stays. -/
theorem blank_eq_self
    (h : ∀ index, offset ≤ index → index < offset + text.length → ¬InComment tokens index) :
    blank tokens offset text = text := by
  induction text generalizing offset with
  | nil => rfl
  | cons byte text ih =>
      have hfirst : ¬InComment tokens offset :=
        h offset (Nat.le_refl _) (by simp only [List.length_cons]; omega)
      have hrest : blank tokens (offset + 1) text = text :=
        ih fun index hle hlt => h index (by omega) (by simp only [List.length_cons]; omega)
      rw [blank, hrest, if_neg fun hblank => hfirst hblank.2]

/-- Inside a comment nothing is left but blanks. -/
theorem isBlank_of_mem_blank
    (h : ∀ index, offset ≤ index → index < offset + text.length → InComment tokens index)
    {byte : UInt8} (hbyte : byte ∈ blank tokens offset text) : Byte.isBlank byte := by
  induction text generalizing offset with
  | nil => cases hbyte
  | cons first text ih =>
      have hfirst : InComment tokens offset :=
        h offset (Nat.le_refl _) (by simp only [List.length_cons]; omega)
      rcases List.mem_cons.1 hbyte with rfl | hrest
      · by_cases hfeed : first = Byte.lineFeed
        · simp [hfeed, Byte.isBlank]
        · simp [hfeed, hfirst, Byte.isBlank]
      · exact ih (fun index hle hlt => h index (by omega)
          (by simp only [List.length_cons]; omega)) hrest

/-- Comments that end before a text do not matter to it. -/
theorem blank_congr (h : ∀ index, offset ≤ index →
    (InComment tokens index ↔ InComment others index)) (text : Bytes) :
    blank tokens offset text = blank others offset text := by
  induction text generalizing offset with
  | nil => rfl
  | cons byte text ih =>
      have hrest : blank tokens (offset + 1) text = blank others (offset + 1) text :=
        ih fun index hle => h index (by omega)
      simp only [blank, h offset (Nat.le_refl _), hrest]

/-- A blanked text is a faded one. -/
theorem fades_blank (tokens : List Scanned) (offset : Nat) (text : Bytes) :
    Lexeme.Fades 0 text (blank tokens offset text) := by
  induction text generalizing offset with
  | nil => exact .nil
  | cons byte text ih =>
      refine .behind ?_ (ih (offset + 1))
      by_cases hblank : byte ≠ Byte.lineFeed ∧ InComment tokens offset
      · exact .inr ⟨hblank.1, if_pos hblank⟩
      · exact .inl (if_neg hblank)

end Blank

namespace SourceFile

/-- The same lines are found in a faded text. -/
theorem addLines_fades {size : Nat} {text other : Bytes} (file : SourceFile) (offset : Nat)
    (h : Lexeme.Fades size text other) :
    file.addLines offset other = file.addLines offset text := by
  induction h generalizing file offset with
  | nil => rfl
  | same _ ih => simp only [addLines, ih]
  | behind hshown _ ih =>
      rcases hshown with rfl | ⟨hfeed, rfl⟩
      · simp only [addLines, ih]
      · have hspace : Byte.space ≠ Byte.lineFeed := by decide
        simp only [addLines, if_neg hfeed, if_neg hspace, ih]

end SourceFile

end PascalUnits
