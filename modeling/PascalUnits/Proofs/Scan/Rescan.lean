import PascalUnits.Proofs.Scan.Comments
import PascalUnits.Proofs.Source.Places

/-!
# Places stay right when a file is scanned again

A file may be scanned again and again, with comments or without, and every scan may be left after
any number of calls. The step is `Tracks.next`: a call of a scanner makes the lines known up to
where it ends, and hands out nothing that lies behind. A `Chronicle` lists such calls, of any number
of scans, with the lines known ever further. The main statement is `rescans_place_tokens`: what a
call hands out is found at the right line and column then and ever after.
-/

namespace PascalUnits

/-- A scan that is begun and left: what becomes of comments, and the number of calls. -/
structure Pass where
  comments : Comments
  calls : Nat

namespace Scanned

/-- The offsets that a call hands out: that of its token, and those of the faults. -/
def offsets (found : Scanned) : List Nat :=
  found.offset :: found.diagnostics.map (·.position.offset)

/-- What a call hands out lies up to `reach` in the source, and the faults are placed right. -/
structure Placed (name : String) (source : Bytes) (reach : Nat) (found : Scanned) : Prop where
  offset_le : ∀ offset ∈ found.offsets, offset ≤ reach ∧ offset ≤ source.length
  position_eq : ∀ diagnostic ∈ found.diagnostics,
    diagnostic.position = placeIn name source diagnostic.position.offset
  eof : found.token = .eof → found.offset = source.length

end Scanned

namespace Scanner

/-- The first calls of a scanner, each with the scanner that it leaves, and the scanner after
them. -/
def calls (comments : Comments) : Nat → Scanner → List (Scanned × Scanner) × Scanner
  | 0, scanner => ([], scanner)
  | count + 1, scanner =>
    let found := scanner.next comments
    let following := calls comments count found.2
    (found :: following.1, following.2)

end Scanner

/-- The calls of scans of a file, one scan after the other. -/
def SourceFile.rescans (source : Bytes) (file : SourceFile) :
    List Pass → Except Error (List (Scanned × Scanner))
  | [] => .ok []
  | pass :: passes => do
    let scanner ← Scanner.start file source
    let read := scanner.calls pass.comments pass.calls
    return read.1 ++ (← rescans source read.2.file passes)

/-- A scanner that stands in `source`, in a file of which the lines up to `reach` are known. That is
at least as far as the scanner. -/
structure Scanner.Tracks (name : String) (base : Nat) (source : Bytes) (reach : Nat)
    (scanner : Scanner) : Prop where
  stands : scanner.StandsIn source
  knows : Knows name base source reach scanner.file
  offset_le : scanner.offset ≤ reach

/-- Calls that hand out what lies in `source`. After each of them the lines are known as far as it
reaches, and never less far than before. -/
inductive Chronicle (name : String) (base : Nat) (source : Bytes) :
    Nat → List (Scanned × Scanner) → Nat → Prop where
  | nil {reach more : Nat} : reach ≤ more → Chronicle name base source reach [] more
  | cons {reach middle more : Nat} {call : Scanned × Scanner} {later : List (Scanned × Scanner)} :
      reach ≤ middle → Knows name base source middle call.2.file →
      call.1.Placed name source middle → Chronicle name base source middle later more →
      Chronicle name base source reach (call :: later) more

variable {name : String} {base reach : Nat} {source : Bytes}

/-- What lies up to one offset lies up to a later one. -/
theorem Scanned.Placed.mono {found : Scanned} {more : Nat} (h : found.Placed name source reach)
    (hmore : reach ≤ more) : found.Placed name source more := by
  refine ⟨fun offset hoffset => ?_, h.position_eq, h.eof⟩
  obtain ⟨hle, hinside⟩ := h.offset_le offset hoffset
  exact ⟨Nat.le_trans hle hmore, hinside⟩

/-- Faults that are reported with a token may lie before it. -/
theorem Scanned.Placed.report {before found : Scanned} {more : Nat}
    (hbefore : before.Placed name source reach) (hmore : reach ≤ more)
    (h : found.Placed name source more) :
    Placed name source more
      { found with diagnostics := before.diagnostics ++ found.diagnostics } := by
  have hbefore := hbefore.mono hmore
  refine ⟨fun offset hoffset => ?_, fun diagnostic hdiagnostic => ?_, h.eof⟩
  · simp only [offsets, List.map_append, List.mem_cons, List.mem_append] at hoffset
    rcases hoffset with hown | hfirst | hsecond
    · exact h.offset_le offset (hown ▸ List.mem_cons_self)
    · exact hbefore.offset_le offset (List.mem_cons_of_mem _ hfirst)
    · exact h.offset_le offset (List.mem_cons_of_mem _ hsecond)
  · rcases List.mem_append.1 hdiagnostic with hfirst | hsecond
    · exact hbefore.position_eq diagnostic hfirst
    · exact h.position_eq diagnostic hsecond

namespace Scanner

variable {scanner : Scanner}

/-- Moving on makes the lines known as far. -/
theorem Tracks.advance (h : scanner.Tracks name base source reach) {size : Nat}
    (hsize : size ≤ scanner.rest.length) :
    ∃ more, reach ≤ more ∧ (scanner.advance size).Tracks name base source more := by
  have htext : scanner.rest.take size <+: source.drop scanner.offset := by
    rw [← h.stands.rest_eq]
    exact List.take_prefix _ _
  obtain ⟨more, hmore, hend, hknows⟩ := h.knows.addLines h.offset_le htext
  rw [List.length_take_of_le hsize] at hend
  exact ⟨more, hmore, h.stands.advance hsize, hknows, hend⟩

/-- A lexeme that is taken is placed where the scanner was, and so is what is wrong with it. -/
theorem Tracks.accept (h : scanner.Tracks name base source reach) {lexeme : Lexeme}
    (hsize : lexeme.size ≤ scanner.rest.length) (heof : lexeme.token ≠ .eof) :
    ∃ more, reach ≤ more ∧ (scanner.accept lexeme).2.Tracks name base source more ∧
      (scanner.accept lexeme).1.Placed name source more := by
  obtain ⟨more, hmore, hafter⟩ := h.advance hsize
  have hle : scanner.offset ≤ more := Nat.le_trans h.offset_le hmore
  have hlocate := hafter.knows.locate_eq hle h.stands.offset_le
  have hposition : ∀ diagnostic ∈ (scanner.accept lexeme).1.diagnostics,
      diagnostic.position = placeIn name source scanner.offset := by
    intro diagnostic hdiagnostic
    obtain ⟨fault, -, rfl⟩ := List.mem_map.1 hdiagnostic
    exact hlocate
  refine ⟨more, hmore, ⟨h.stands.accept hsize, hafter.knows, hafter.offset_le⟩, ?_, ?_,
    fun htoken => absurd htoken heof⟩
  · intro offset hoffset
    have hsame : offset = scanner.offset := by
      rcases List.mem_cons.1 hoffset with hown | hfault
      · exact hown
      · obtain ⟨diagnostic, hdiagnostic, rfl⟩ := List.mem_map.1 hfault
        rw [hposition diagnostic hdiagnostic]
        rfl
    rw [hsame]
    exact ⟨hle, h.stands.offset_le⟩
  · intro diagnostic hdiagnostic
    rw [hposition diagnostic hdiagnostic]
    rfl

/-- A call that keeps comments makes the lines known as far as it reads, and what it hands out lies
there. -/
theorem Tracks.next_kept (h : scanner.Tracks name base source reach) :
    ∃ more, reach ≤ more ∧ (scanner.next .kept).2.Tracks name base source more ∧
      (scanner.next .kept).1.Placed name source more := by
  obtain ⟨middle, hmiddle, hadvance⟩ := h.advance (Lexeme.run_le Byte.isBlank scanner.rest)
  have hskip : scanner.skipBlanks.Tracks name base source middle := hadvance
  cases hrest : scanner.skipBlanks.rest with
  | nil =>
      rw [next_of_nil hrest]
      refine ⟨middle, hmiddle, ⟨⟨hskip.stands.offset_le, hskip.stands.rest_eq⟩, hskip.knows,
        hskip.offset_le⟩, ?_, nofun, fun _ => hskip.stands.offset_eq hrest⟩
      exact List.forall_mem_singleton.2 ⟨hskip.offset_le, hskip.stands.offset_le⟩
  | cons first rest =>
      have hsize : (scanner.skipBlanks.lexeme first rest).size ≤ scanner.skipBlanks.rest.length :=
        hrest ▸ Lexeme.read_size_le _ _ _
      obtain ⟨more, hmore, hafter⟩ :=
        hskip.accept hsize (Lexeme.read_spelled _ _ _).token_ne_eof
      rw [next_of_cons hrest fun _ => rfl]
      exact ⟨more, Nat.le_trans hmiddle hmore, hafter⟩

/-- So does a call that passes over comments. -/
theorem Tracks.next_skipped {scanner : Scanner} (h : scanner.Tracks name base source reach) :
    ∃ more, reach ≤ more ∧ (scanner.next .skipped).2.Tracks name base source more ∧
      (scanner.next .skipped).1.Placed name source more := by
  induction scanner using kept_induction generalizing reach with
  | eof scanner _ hnext => exact hnext ▸ h.next_kept
  | comment scanner hcomment ih =>
      obtain ⟨middle, hmiddle, hbehind, hplaced⟩ := h.next_kept
      obtain ⟨more, hmore, hafter, hfound⟩ := ih hbehind
      rw [next_skipped_of_comment hcomment]
      exact ⟨more, Nat.le_trans hmiddle hmore, hafter, hplaced.report hmore hfound⟩
  | other scanner _ _ hnext _ => exact hnext ▸ h.next_kept

/-- The step: a call makes the lines known as far as it reads, and what it hands out lies there. -/
theorem Tracks.next (h : scanner.Tracks name base source reach) (comments : Comments) :
    ∃ more, reach ≤ more ∧ (scanner.next comments).2.Tracks name base source more ∧
      (scanner.next comments).1.Placed name source more := by
  cases comments with
  | kept => exact h.next_kept
  | skipped => exact h.next_skipped

/-- So it is with every call up to the end of the text. -/
theorem Tracks.trace {scanner : Scanner} {reach : Nat}
    (h : scanner.Tracks name base source reach) (comments : Comments) :
    ∀ call ∈ scanner.trace comments,
      ∃ more, Knows name base source more call.2.file ∧ call.1.Placed name source more := by
  obtain ⟨more, -, hafter, hplaced⟩ := h.next comments
  by_cases heof : (scanner.next comments).1.token = .eof
  · rw [trace_of_eof heof]
    exact List.forall_mem_singleton.2 ⟨more, hafter.knows, hplaced⟩
  · rw [trace_of_ne_eof heof]
    exact List.forall_mem_cons.2 ⟨⟨more, hafter.knows, hplaced⟩, hafter.trace comments⟩
termination_by scanner.rest.length
decreasing_by exact rest_length_lt comments scanner heof

/-- The calls of a scan make a chronicle. -/
theorem Tracks.calls (h : scanner.Tracks name base source reach) (comments : Comments)
    (count : Nat) :
    ∃ more, Chronicle name base source reach (scanner.calls comments count).1 more ∧
      (scanner.calls comments count).2.Tracks name base source more := by
  induction count generalizing scanner reach with
  | zero => exact ⟨reach, .nil (Nat.le_refl _), h⟩
  | succ count ih =>
      obtain ⟨middle, hmiddle, hafter, hplaced⟩ := h.next comments
      obtain ⟨more, hchronicle, hend⟩ := ih hafter
      exact ⟨more, .cons hmiddle hafter.knows hplaced hchronicle, hend⟩

/-- A scan of a file can begin at any time, and takes nothing from what is known of it. -/
theorem exists_start {file : SourceFile} (h : Knows name base source reach file) :
    ∃ scanner more, Scanner.start file source = .ok scanner ∧ reach ≤ more ∧
      scanner.Tracks name base source more := by
  obtain ⟨scanner, hstart, hstands, hoffset⟩ := start_stands h.size_eq
  have hfile : scanner.file = file := (of_start_eq_ok hstart).1
  by_cases hmark : byteOrderMark <+: source
  · rw [if_pos hmark] at hoffset
    have htext : byteOrderMark <+: source.drop 0 := by rwa [List.drop_zero]
    have hnone : file.addLines 0 byteOrderMark = file := rfl
    obtain ⟨more, hmore, hend, hknows⟩ := h.addLines (Nat.zero_le reach) htext
    rw [Nat.zero_add] at hend
    rw [hnone] at hknows
    exact ⟨scanner, more, hstart, hmore, hstands, hfile ▸ hknows, hoffset ▸ hend⟩
  · rw [if_neg hmark] at hoffset
    exact ⟨scanner, reach, hstart, Nat.le_refl _, hstands, hfile ▸ h, hoffset ▸ Nat.zero_le _⟩

end Scanner

namespace Chronicle

variable {middle more : Nat} {calls others : List (Scanned × Scanner)}

/-- A chronicle may begin where less is known. -/
theorem weaken (h : Chronicle name base source middle calls more) (hle : reach ≤ middle) :
    Chronicle name base source reach calls more := by
  cases h with
  | nil hmore => exact .nil (Nat.le_trans hle hmore)
  | cons hmore hknows hplaced hlater => exact .cons (Nat.le_trans hle hmore) hknows hplaced hlater

/-- One chronicle after another is one. -/
theorem append (h : Chronicle name base source reach calls middle)
    (hothers : Chronicle name base source middle others more) :
    Chronicle name base source reach (calls ++ others) more := by
  induction h with
  | nil hle => exact hothers.weaken hle
  | cons hle hknows hplaced _ ih => exact .cons hle hknows hplaced (ih hothers)

/-- After each call the lines are known at least as far as before the first. -/
theorem knows (h : Chronicle name base source reach calls more) :
    ∀ call ∈ calls, ∃ known, reach ≤ known ∧ Knows name base source known call.2.file := by
  induction h with
  | nil _ => exact List.forall_mem_nil _
  | @cons reach middle more call later hle hknows hplaced _ ih =>
      refine List.forall_mem_cons.2 ⟨⟨middle, hle, hknows⟩, fun other hother => ?_⟩
      obtain ⟨known, hbeyond, hother⟩ := ih other hother
      exact ⟨known, Nat.le_trans hle hbeyond, hother⟩

/-- What a call hands out lies where the lines are known after it, and after every later call. -/
theorem placed (h : Chronicle name base source reach calls more) {call : Scanned × Scanner}
    {later : List (Scanned × Scanner)} (hlater : call :: later <:+ calls) :
    ∃ known, call.1.Placed name source known ∧ ∀ other ∈ call :: later,
      ∃ further, known ≤ further ∧ Knows name base source further other.2.file := by
  induction h with
  | nil _ => exact absurd (List.suffix_nil.1 hlater) (by simp)
  | @cons reach middle more first rest hle hknows hplaced hrest ih =>
      rcases List.suffix_cons_iff.1 hlater with hall | hpart
      · obtain ⟨rfl, rfl⟩ := List.cons.inj hall
        refine ⟨middle, hplaced, List.forall_mem_cons.2 ⟨?_, hrest.knows⟩⟩
        exact ⟨middle, Nat.le_refl _, hknows⟩
      · exact ih hpart

end Chronicle

/-- Scans of a file can always be begun, and their calls make a chronicle. -/
theorem SourceFile.exists_rescans {file : SourceFile} (h : Knows name base source reach file)
    (passes : List Pass) :
    ∃ calls more, file.rescans source passes = .ok calls ∧
      Chronicle name base source reach calls more := by
  induction passes generalizing file reach with
  | nil => exact ⟨[], reach, rfl, .nil (Nat.le_refl _)⟩
  | cons pass passes ih =>
      obtain ⟨scanner, middle, hstart, hmiddle, htracks⟩ := Scanner.exists_start h
      obtain ⟨known, hfirst, hafter⟩ := htracks.calls pass.comments pass.calls
      obtain ⟨others, more, hothers, hsecond⟩ := ih hafter.knows
      refine ⟨_, more, ?_, (hfirst.weaken hmiddle).append hsecond⟩
      rw [rescans, hstart]
      simp only [bind, Except.bind, hothers]
      rfl

/-- A source is scanned any number of times in the same file, each time with its comments or
without them, and left after any number of calls. What a call hands out, its token as well as its
faults, has a position in the file. Resolved at that time or after any later call, that position is
at the line and column where it stands in the source, and it is there that a fault is reported.
Always the lines that are known are the first ones of the source, and from the first end of the text
on they are all known. -/
theorem rescans_place_tokens (name : String) (base : Nat) (source : Bytes) (passes : List Pass) :
    let fresh := SourceFile.fresh name base source.length
    ∃ calls, fresh.rescans source passes = .ok calls ∧
      (∀ file ∈ fresh :: calls.map (·.2.file),
        file.lineTable <+: lineStarts source source.length) ∧
      (∀ call ∈ calls, ∀ diagnostic ∈ call.1.diagnostics,
        diagnostic.position = placeIn name source diagnostic.position.offset) ∧
      ∀ call later, call :: later <:+ calls → ∀ other ∈ call :: later,
        (∀ offset ∈ call.1.offsets, ∃ pos, call.2.file.pos offset = .ok pos ∧
          other.2.file.position pos = placeIn name source offset) ∧
        (call.1.token = .eof → call.1.offset = source.length ∧
          other.2.file.lineTable = lineStarts source source.length) := by
  intro fresh
  have hfresh : Knows name base source 0 fresh := .fresh name base source
  obtain ⟨calls, more, hcalls, hchronicle⟩ := SourceFile.exists_rescans hfresh passes
  refine ⟨calls, hcalls, ?_, ?_, ?_⟩
  · refine List.forall_mem_cons.2 ⟨?_, fun file hfile => ?_⟩
    · rw [hfresh.lineTable_eq]
      exact lineStarts_prefix_length source 0
    · obtain ⟨call, hcall, rfl⟩ := List.mem_map.1 hfile
      obtain ⟨known, -, hknows⟩ := hchronicle.knows call hcall
      rw [hknows.lineTable_eq]
      exact lineStarts_prefix_length source known
  · intro call hcall
    obtain ⟨earlier, later, rfl⟩ := List.append_of_mem hcall
    obtain ⟨known, hplaced, -⟩ := hchronicle.placed (List.suffix_append earlier _)
    exact hplaced.position_eq
  · intro call later hlater other hother
    obtain ⟨known, hplaced, hothers⟩ := hchronicle.placed hlater
    obtain ⟨now, -, hcall⟩ := hothers call List.mem_cons_self
    obtain ⟨further, hfurther, hknows⟩ := hothers other hother
    refine ⟨fun offset hoffset => ?_, fun heof => ⟨hplaced.eof heof, ?_⟩⟩
    · obtain ⟨hle, hinside⟩ := hplaced.offset_le offset hoffset
      obtain ⟨hpos, -⟩ := SourceFile.pos_of_le (hcall.size_eq.symm ▸ hinside)
      have hother : offset ≤ other.2.file.size := hknows.size_eq.symm ▸ hinside
      obtain ⟨-, -, -, hposition⟩ := SourceFile.pos_of_le hother
      refine ⟨_, hpos, ?_⟩
      rw [hcall.base_eq, ← hknows.base_eq, hposition]
      exact hknows.locate_eq (Nat.le_trans hle hfurther) hinside
    · have hend : source.length ≤ known :=
        hplaced.eof heof ▸ (hplaced.offset_le _ List.mem_cons_self).1
      rw [hknows.lineTable_eq]
      exact lineStarts_of_length_le (Nat.le_trans hend hfurther)

end PascalUnits
