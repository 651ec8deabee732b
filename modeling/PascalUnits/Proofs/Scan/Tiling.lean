import PascalUnits.Proofs.Scan.Run

/-!
# No byte of a text is lost

The lexemes of a run that keeps comments tile the text. Read `Tiles` first: each lexeme is the text
at its offset, they follow one another, and what stands between them is blank. The main statement
is `run_tiles_source`; only the byte order mark at the very beginning belongs to no lexeme without
being blank.
-/

namespace PascalUnits

namespace Scanned

/-- The bytes that a token stands for: its literal, or the spelling of its kind. -/
def lexeme (found : Scanned) : Bytes :=
  if found.literal.isEmpty then found.token.bytes else found.literal

/-- The offset of the first byte after a token. -/
def stop (found : Scanned) : Nat :=
  found.offset + found.lexeme.length

/-- Whether the byte at `index` belongs to a token. -/
def Spans (found : Scanned) (index : Nat) : Prop :=
  found.offset ≤ index ∧ index < found.stop

end Scanned

/-- The lexemes of the tokens lie one after the other in the part of `source` that begins at
`start`. Each is what stands there in the source, and every byte outside them is blank. -/
structure Tiles (source : Bytes) (start : Nat) (tokens : List Scanned) : Prop where
  nonempty : ∀ found ∈ tokens, found.lexeme ≠ []
  reads : ∀ found ∈ tokens, found.lexeme = (source.drop found.offset).take found.lexeme.length
  after_start : ∀ found ∈ tokens, start ≤ found.offset
  inside : ∀ found ∈ tokens, found.stop ≤ source.length
  ordered : tokens.Pairwise fun earlier later =>
    earlier.offset < later.offset ∧ earlier.stop ≤ later.offset
  blank : ∀ index byte, source[index]? = some byte → start ≤ index →
    (∀ found ∈ tokens, ¬ found.Spans index) → Byte.isBlank byte

namespace Tiles

variable {source : Bytes} {start : Nat} {tokens : List Scanned}

/-- Nothing but blanks up to the end. -/
theorem nil (h : ∀ index byte, source[index]? = some byte → start ≤ index → Byte.isBlank byte) :
    Tiles source start [] :=
  ⟨nofun, nofun, nofun, nofun, .nil, fun index byte hbyte hle _ => h index byte hbyte hle⟩

/-- A token after blanks, followed by a tiling of what comes after it. -/
theorem cons {found : Scanned} (hstart : start ≤ found.offset) (hnonempty : found.lexeme ≠ [])
    (hreads : found.lexeme = (source.drop found.offset).take found.lexeme.length)
    (hinside : found.stop ≤ source.length)
    (hblank : ∀ index byte, source[index]? = some byte → start ≤ index →
      index < found.offset → Byte.isBlank byte)
    (hrest : Tiles source found.stop tokens) : Tiles source start (found :: tokens) := by
  have hpositive : 0 < found.lexeme.length := List.length_pos_iff.2 hnonempty
  have hstop : found.stop = found.offset + found.lexeme.length := rfl
  refine ⟨?_, ?_, ?_, ?_, ?_, ?_⟩
  · exact List.forall_mem_cons.2 ⟨hnonempty, hrest.nonempty⟩
  · exact List.forall_mem_cons.2 ⟨hreads, hrest.reads⟩
  · refine List.forall_mem_cons.2 ⟨hstart, fun later hlater => ?_⟩
    have := hrest.after_start later hlater
    omega
  · exact List.forall_mem_cons.2 ⟨hinside, hrest.inside⟩
  · refine .cons (fun later hlater => ?_) hrest.ordered
    have := hrest.after_start later hlater
    omega
  · intro index byte hbyte hle houtside
    obtain ⟨hfound, hothers⟩ := List.forall_mem_cons.1 houtside
    by_cases hbefore : index < found.offset
    · exact hblank index byte hbyte hle hbefore
    · refine hrest.blank index byte hbyte ?_ hothers
      exact Nat.le_of_not_lt fun hlt => hfound ⟨Nat.le_of_not_lt hbefore, hlt⟩

end Tiles

namespace Scanner

variable {scanner : Scanner} {source : Bytes}

/-- The bytes that an accepted lexeme stands for are those that it takes. -/
theorem lexeme_accept {lexeme : Lexeme} {first : UInt8} {rest : Bytes}
    (hrest : scanner.rest = first :: rest) (hspelled : lexeme.Spelled first rest)
    (hpositive : 0 < lexeme.size) :
    (scanner.accept lexeme).1.lexeme = scanner.rest.take lexeme.size := by
  have hliteral : (scanner.accept lexeme).1.literal =
    lexeme.token.literal (scanner.rest.take lexeme.size) := rfl
  have htoken : (scanner.accept lexeme).1.token = lexeme.token := rfl
  have htake : scanner.rest.take lexeme.size ≠ [] := by
    rw [hrest, Ne, List.take_eq_nil_iff]
    rintro (hzero | hnil)
    · omega
    · cases hnil
  rw [Scanned.lexeme, hliteral, htoken]
  cases hkind : lexeme.token with
  | operator op => rw [hrest]; exact (hspelled.take_operator op hkind).symm
  | illegal | eof | comment | directive | identifier | integer | float | char | string | word =>
      exact if_neg fun hempty => htake (List.isEmpty_iff.1 hempty)

/-- An accepted lexeme takes as many bytes as it stands for. -/
theorem stop_accept {lexeme : Lexeme} (hsize : lexeme.size ≤ scanner.rest.length)
    (hlexeme : (scanner.accept lexeme).1.lexeme = scanner.rest.take lexeme.size) :
    (scanner.accept lexeme).1.stop = (scanner.accept lexeme).2.offset := by
  show scanner.offset + (scanner.accept lexeme).1.lexeme.length = scanner.offset + lexeme.size
  rw [hlexeme, List.length_take, Nat.min_eq_left hsize]

/-- What a scanner that keeps comments hands out before the end tiles the text before it. -/
theorem run_tiles {scanner : Scanner} (h : scanner.StandsIn source) :
    ∃ tokens last, scanner.run .kept = tokens ++ [last] ∧ last.token = .eof ∧
      (∀ found ∈ tokens, found.token ≠ .eof) ∧ Tiles source scanner.offset tokens := by
  have hskip := h.skipBlanks
  have hle : scanner.offset ≤ scanner.skipBlanks.offset := Nat.le_add_right _ _
  rw [run]
  cases hrest : scanner.skipBlanks.rest with
  | nil =>
      rw [next_of_nil hrest]
      refine ⟨[], _, rfl, rfl, nofun, .nil fun index byte hbyte hindex => ?_⟩
      -- nothing is left, so the blanks reach up to the end
      have hend : source.length ≤ scanner.skipBlanks.offset :=
        Nat.le_of_eq (hskip.offset_eq hrest).symm
      have hlt : index < source.length := (List.getElem?_eq_some_iff.1 hbyte).1
      exact h.blank hbyte hindex (Nat.lt_of_lt_of_le hlt hend)
  | cons first rest =>
      have hspelled : (scanner.skipBlanks.lexeme first rest).Spelled first rest :=
        Lexeme.read_spelled _ _ _
      have hsize : (scanner.skipBlanks.lexeme first rest).size ≤ scanner.skipBlanks.rest.length :=
        hrest ▸ Lexeme.read_size_le _ _ _
      have hpositive : 0 < (scanner.skipBlanks.lexeme first rest).size :=
        Lexeme.read_size_pos _ _ _
      have hlexeme := lexeme_accept hrest hspelled hpositive
      have hstop := stop_accept hsize hlexeme
      have hstands := hskip.accept hsize
      have htoken :
          (scanner.skipBlanks.accept (scanner.skipBlanks.lexeme first rest)).1.token ≠ .eof :=
        hspelled.token_ne_eof
      have hshorter :=
        Nat.lt_of_lt_of_le (rest_length_accept _ hrest) (rest_length_skipBlanks scanner)
      obtain ⟨tokens, last, hrun, hlast, htokens, htiles⟩ := run_tiles hstands
      rw [next_of_cons hrest fun _ => rfl, dif_neg htoken, hrun]
      refine ⟨_ :: tokens, last, rfl, hlast,
        List.forall_mem_cons.2 ⟨htoken, htokens⟩, .cons hle ?_ ?_ ?_ ?_ ?_⟩
      · rw [hlexeme, hrest]
        exact fun hnil => by simp [Nat.ne_of_gt hpositive] at hnil
      · show _ = (source.drop scanner.skipBlanks.offset).take _
        rw [← hskip.rest_eq, hlexeme, List.length_take, Nat.min_eq_left hsize]
      · rw [hstop]
        exact hstands.offset_le
      · exact fun index byte hbyte hindex hlt => h.blank hbyte hindex hlt
      · rw [hstop]
        exact htiles
termination_by scanner.rest.length

end Scanner

/-- The tokens of a file, scanned with its comments up to the end, tile its source. The scan always
comes to the end, and it loses nothing but a byte order mark at the very beginning: all lexemes are
stretches of the source in their order, and whatever stands outside them is blank. -/
theorem run_tiles_source (name : String) (base : Nat) (source : Bytes) :
    ∃ scanner tokens last,
      Scanner.start (.fresh name base source.length) source = .ok scanner ∧
      scanner.run .kept = tokens ++ [last] ∧ last.token = .eof ∧
      (∀ found ∈ tokens, found.token ≠ .eof) ∧
      Tiles source (if [0xEF, 0xBB, 0xBF] <+: source then 3 else 0) tokens := by
  have hsize : (SourceFile.fresh name base source.length).size = source.length := rfl
  obtain ⟨scanner, hstart, hstands, hoffset⟩ := Scanner.start_stands hsize
  obtain ⟨tokens, last, hrun, hlast, htokens, htiles⟩ := Scanner.run_tiles hstands
  rw [hoffset] at htiles
  exact ⟨scanner, tokens, last, hstart, hrun, hlast, htokens, htiles⟩

end PascalUnits
