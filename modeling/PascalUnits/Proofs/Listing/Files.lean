import Mathlib.Data.List.Flatten
import Mathlib.Tactic.Choose
import PascalUnits.Proofs.Listing.Line
import PascalUnits.Proofs.Scan.Malformed
import PascalUnits.Proofs.Scan.Progress
import PascalUnits.Proofs.Scan.Rescan

/-!
# A token listing tells what it lists

Each line of a listing is read back by itself, so what is left to find out is where a file ends and
the next one begins. No file has a line twice (`Listing.Lists.nodup_ofFile`): its tokens stand one
behind the other (`Scanner.ascends_tokens`), and so do its faults (`Scanner.ascends_faults`), no two
offsets stand in one place, and the line of a token is not that of a fault. A path that is given
twice is listed alike each time. So a file ends where another path follows, or where its first line
comes again (`Listing.byFile_flatMap`). The main statement is `token_listing_reads_back`.
-/

namespace PascalUnits

namespace Listing

/-- The lines of a file: those of its tokens, then those of its faults. -/
def ofFile (file : FileTokens) : List Line :=
  file.tokens.map .ofToken ++ file.diagnostics.map .ofDiagnostic

/-- Whether a line still belongs to the file with the line `first` at its beginning. -/
def goesOn (first line : Line) : Bool :=
  line.place.path = first.place.path ∧ line ≠ first

/-- The lines of a listing, file by file. -/
def byFile : List Line → List (List Line)
  | [] => []
  | first :: rest =>
    (first :: rest.takeWhile (goesOn first)) :: byFile (rest.dropWhile (goesOn first))
termination_by lines => lines.length
decreasing_by exact Nat.lt_succ_of_le (List.dropWhile_sublist _).length_le

/-- What a listing tells: the lines of each file that has any. -/
def read? (text : String) : Option (List (List Line)) :=
  (readLines? text).map byFile

/-- Whether lines are those of a file with this path. -/
def belong (path : String) (lines : List Line) : Bool :=
  lines.any (·.place.path = path)

/-- The lines that a listing has for a path. -/
def linesOf (listed : List (List Line)) (path : String) : List Line :=
  (listed.find? (belong path)).getD []

section Paths

variable {paths : List String} {listing : String → List Line}

/-- A line that begins a file, behind a file that `first` begins, does not go on with that one. -/
theorem goesOn_head?_flatMap
    (hpath : ∀ path ∈ paths, ∀ line ∈ listing path, line.place.path = path) {first line : Line}
    (hfirst : (listing first.place.path).head? = some first)
    (hline : (paths.flatMap listing).head? = some line) : goesOn first line = false := by
  rw [List.head?_flatMap] at hline
  obtain ⟨path, hmem, hhead⟩ := List.exists_of_findSome?_eq_some hline
  have hplace := hpath path hmem line (List.mem_of_head? hhead)
  rw [goesOn, decide_eq_false_iff_not]
  rintro ⟨hsame, hne⟩
  rw [hplace] at hsame
  rw [hsame, hfirst] at hhead
  exact hne (Option.some.inj hhead).symm

/-- A file ends where a line does not go on with it. -/
theorem byFile_append {first : Line} {inside later : List Line}
    (hgoes : ∀ line ∈ inside, goesOn first line = true)
    (hstops : ∀ line, later.head? = some line → goesOn first line = false) :
    byFile (first :: (inside ++ later)) = (first :: inside) :: byFile later := by
  have hlater : later.takeWhile (goesOn first) = [] ∧ later.dropWhile (goesOn first) = later := by
    cases later with
    | nil => exact ⟨rfl, rfl⟩
    | cons line later =>
        have hstop := hstops line rfl
        exact ⟨List.takeWhile_cons_of_neg (by simp [hstop]),
          List.dropWhile_cons_of_neg (by simp [hstop])⟩
  rw [byFile, List.takeWhile_append_of_pos hgoes, List.dropWhile_append_of_pos hgoes, hlater.1,
    hlater.2, List.append_nil]

/-- The files of a listing are told apart, where none has a line twice. -/
theorem byFile_flatMap
    (hpath : ∀ path ∈ paths, ∀ line ∈ listing path, line.place.path = path)
    (hnodup : ∀ path ∈ paths, (listing path).Nodup) :
    byFile (paths.flatMap listing) = (paths.map listing).filter (· ≠ []) := by
  induction paths with
  | nil =>
      rw [List.flatMap_nil, byFile]
      rfl
  | cons path paths ih =>
      obtain ⟨hown, hpaths⟩ := List.forall_mem_cons.1 hpath
      obtain ⟨honce, hothers⟩ := List.forall_mem_cons.1 hnodup
      have ih := ih hpaths hothers
      rw [List.flatMap_cons, List.map_cons]
      cases hlines : listing path with
      | nil => exact ih
      | cons first inside =>
          rw [hlines] at hown honce
          obtain ⟨hfirst, hinside⟩ := List.forall_mem_cons.1 hown
          have hgoes : ∀ line ∈ inside, goesOn first line = true := by
            intro line hline
            rw [goesOn, decide_eq_true_eq]
            exact ⟨(hinside line hline).trans hfirst.symm,
              ne_of_mem_of_not_mem hline (List.nodup_cons.1 honce).1⟩
          have hstops : ∀ line, (paths.flatMap listing).head? = some line →
              goesOn first line = false := fun line hline =>
            goesOn_head?_flatMap hpaths (by rw [hfirst, hlines]; rfl) hline
          rw [List.cons_append, byFile_append hgoes hstops, ih, List.filter_cons_of_pos (by simp)]

/-- Files without lines do not show, but the lines of each path are found. -/
theorem linesOf_eq (hpath : ∀ path ∈ paths, ∀ line ∈ listing path, line.place.path = path)
    {path : String} (hmem : path ∈ paths) :
    linesOf ((paths.map listing).filter (· ≠ [])) path = listing path := by
  rw [linesOf]
  cases hfind : ((paths.map listing).filter (· ≠ [])).find? (belong path) with
  | none =>
      refine (List.eq_nil_iff_forall_not_mem.2 fun line hline => ?_).symm
      have hshown : listing path ∈ (paths.map listing).filter (· ≠ []) :=
        List.mem_filter.2 ⟨List.mem_map_of_mem hmem, by simp [List.ne_nil_of_mem hline]⟩
      refine List.find?_eq_none.1 hfind (listing path) hshown (List.any_eq_true.2 ?_)
      exact ⟨line, hline, by simpa using hpath path hmem line hline⟩
  | some lines =>
      obtain ⟨other, hother, rfl⟩ :=
        List.mem_map.1 (List.mem_filter.1 (List.mem_of_find?_eq_some hfind)).1
      have hbelong : belong path (listing other) = true := List.find?_some hfind
      obtain ⟨line, hline, hsame⟩ := List.any_eq_true.1 hbelong
      have hplace := hpath other hother line hline
      obtain rfl : other = path := hplace.symm.trans (by simpa using hsame)
      rfl

end Paths

end Listing

/-- Positions in a source, each behind the one before it. -/
structure Ascends (name : String) (source : Bytes) (positions : List Position) : Prop where
  placed : ∀ position ∈ positions, position.offset ≤ source.length ∧
    position = placeIn name source position.offset
  ordered : positions.Pairwise fun earlier later => earlier.offset < later.offset

namespace Ascends

variable {name : String} {source : Bytes} {positions : List Position}

/-- A part of them is in the same order. -/
theorem sublist {others : List Position} (h : Ascends name source positions)
    (hothers : others.Sublist positions) : Ascends name source others :=
  ⟨fun position hposition => h.placed position (hothers.subset hposition),
    h.ordered.sublist hothers⟩

/-- Each of them is shown with the name of the file. -/
theorem shown (h : Ascends name source positions) {position : Position}
    (hposition : position ∈ positions) : position.filename = name ∧ position.isValid := by
  rw [(h.placed position hposition).2]
  exact ⟨rfl, decide_eq_true (Nat.lt_of_lt_of_le Nat.one_pos (Nat.le_add_right 1 _))⟩

/-- No two of them are shown alike. -/
theorem nodup (h : Ascends name source positions) :
    (positions.map Listing.Place.ofPosition).Nodup := by
  refine List.pairwise_map.2 (h.ordered.imp_of_mem ?_)
  intro earlier later hearlier hlater hlt hsame
  obtain ⟨hle, hplace⟩ := h.placed earlier hearlier
  obtain ⟨hle', hplace'⟩ := h.placed later hlater
  obtain ⟨-, hline, hcolumn⟩ := Listing.Place.mk.inj hsame
  rw [hplace, hplace'] at hline hcolumn
  exact Nat.ne_of_lt hlt (eq_of_placeIn hle hle' hline hcolumn)

end Ascends

namespace Scanner

variable {name : String} {base reach : Nat} {source : Bytes} {scanner : Scanner}
  {comments : Comments}

/-- Tokens stand one behind the other, in the order in which they are handed out. -/
theorem ascends_tokens (h : scanner.Tracks name base source reach) :
    Ascends name source (((scanner.trace comments).filter (·.1.token ≠ .eof)).map
      fun call => (call.2.placed call.1).position) := by
  have hplaced : ∀ call ∈ scanner.trace comments,
      (call.2.placed call.1).position = placeIn name source call.1.offset ∧
        call.1.offset ≤ source.length := by
    intro call hcall
    obtain ⟨more, hknows, hfound⟩ := h.trace comments call hcall
    obtain ⟨hle, hinside⟩ := hfound.offset_le call.1.offset List.mem_cons_self
    exact ⟨hknows.locate_eq hle hinside, hinside⟩
  refine ⟨?_, ?_⟩
  · intro position hposition
    obtain ⟨call, hcall, rfl⟩ := List.mem_map.1 hposition
    obtain ⟨hplace, hinside⟩ := hplaced call (List.mem_filter.1 hcall).1
    rw [hplace]
    exact ⟨hinside, rfl⟩
  · refine List.pairwise_map.2 (((pairwise_trace comments scanner).sublist
      List.filter_sublist).imp_of_mem fun {earlier later} hearlier hlater hle => ?_)
    obtain ⟨hearlier, hne⟩ := List.mem_filter.1 hearlier
    rw [(hplaced earlier hearlier).1, (hplaced later (List.mem_filter.1 hlater).1).1]
    exact Nat.lt_of_lt_of_le (offset_lt_of_mem_trace earlier hearlier (of_decide_eq_true hne)) hle

/-- So do faults. -/
theorem ascends_faults (h : scanner.Tracks name base source reach) :
    Ascends name source ((faults (scanner.trace comments)).map (·.position)) := by
  refine ⟨?_, ?_⟩
  · intro position hposition
    obtain ⟨diagnostic, hdiagnostic, rfl⟩ := List.mem_map.1 hposition
    obtain ⟨call, hcall, hmem⟩ := List.mem_flatMap.1 hdiagnostic
    obtain ⟨more, -, hfound⟩ := h.trace comments call hcall
    have hoffset : diagnostic.position.offset ∈ call.1.offsets :=
      List.mem_cons_of_mem _ (List.mem_map_of_mem (f := fun d => d.position.offset) hmem)
    exact ⟨(hfound.offset_le _ hoffset).2, hfound.position_eq diagnostic hmem⟩
  · have hkept := pairwise_faults h.stands h.knows.zero_mem
    cases comments with
    | kept => exact List.pairwise_map.2 hkept
    | skipped => exact List.pairwise_map.2 (scanner.faults_trace_skipped ▸ hkept)

end Scanner

/-- The tokens of a file stand in its source one behind the other, and so do the faults. -/
structure FileTokens.StandsIn (file : FileTokens) (source : Bytes) : Prop where
  tokens : Ascends file.path source (file.tokens.map (·.position))
  faults : Ascends file.path source (file.diagnostics.map (·.position))

/-- The tokens of a source stand in it. -/
theorem exists_tokenize (path : String) (source : Bytes) (comments : Comments) :
    ∃ file, tokenize path source comments = .ok file ∧ file.path = path ∧
      file.StandsIn source := by
  obtain ⟨scanner, more, hstart, -, htracks⟩ :=
    Scanner.exists_start (Knows.fresh path FileSet.empty.base source)
  have hcalls : (tolerated (scanner.trace comments)).Sublist (scanner.trace comments) :=
    List.take_sublist _ _
  refine ⟨scanner.collect path comments, ?_, ?_, ?_, ?_⟩
  · rw [tokenize, hstart]
    rfl
  · rw [Scanner.collect_eq]
  · rw [Scanner.collect_eq, List.map_map]
    exact (Scanner.ascends_tokens htracks).sublist ((hcalls.filter _).map _)
  · rw [Scanner.collect_eq]
    exact (Scanner.ascends_faults htracks).sublist ((hcalls.flatMap _).map _)

namespace Listing

/-- A file that is listed under a path which no field and no line ends in. -/
structure Lists (path : String) (file : FileTokens) : Prop where
  path_eq : file.path = path
  path_ne : path ≠ ""
  not_mem : ∀ separator ∈ ['\t', '\n'], separator ∉ path.toList
  stands : ∃ source, file.StandsIn source

namespace Lists

variable {path : String} {file : FileTokens} (h : Lists path file)

include h

/-- The lines of a file show its path. -/
theorem path_of_mem {line : Line} (hline : line ∈ ofFile file) : line.place.path = path := by
  obtain ⟨source, hstands⟩ := h.stands
  rw [← h.path_eq]
  rcases List.mem_append.1 hline with htoken | hfault
  · obtain ⟨found, hfound, rfl⟩ := List.mem_map.1 htoken
    exact (hstands.tokens.shown (List.mem_map_of_mem hfound)).1
  · obtain ⟨diagnostic, hdiagnostic, rfl⟩ := List.mem_map.1 hfault
    exact (hstands.faults.shown (List.mem_map_of_mem hdiagnostic)).1

theorem legible_of_mem {line : Line} (hline : line ∈ ofFile file) : line.Legible := by
  have hplace : ∀ separator ∈ ['\t', '\n'], separator ∉ line.place.path.toList := by
    rw [h.path_of_mem hline]
    exact h.not_mem
  rcases List.mem_append.1 hline with htoken | hfault
  · obtain ⟨found, -, rfl⟩ := List.mem_map.1 htoken
    exact Line.legible_ofToken hplace
  · obtain ⟨diagnostic, -, rfl⟩ := List.mem_map.1 hfault
    exact Line.legible_ofDiagnostic hplace

/-- No file has a line twice. -/
theorem nodup_ofFile : (ofFile file).Nodup := by
  obtain ⟨source, hstands⟩ := h.stands
  have htokens := hstands.tokens.nodup
  have hfaults := hstands.faults.nodup
  refine List.nodup_append.2 ⟨?_, ?_, ?_⟩
  · refine .of_map Line.place ?_
    rw [List.map_map] at htokens ⊢
    exact htokens
  · refine .of_map Line.place ?_
    rw [List.map_map] at hfaults ⊢
    exact hfaults
  · intro line htoken other hfault
    obtain ⟨found, -, rfl⟩ := List.mem_map.1 htoken
    obtain ⟨diagnostic, -, rfl⟩ := List.mem_map.1 hfault
    exact Line.noConfusion

/-- What is printed of a file is the text of its lines. -/
theorem tokenLines_eq : Program.tokenLines file = (ofFile file).map Line.text := by
  obtain ⟨source, hstands⟩ := h.stands
  have hshown : ∀ {positions : List Position}, Ascends file.path source positions →
      ∀ position ∈ positions, position.display = (Place.ofPosition position).text := by
    intro positions hascends position hposition
    obtain ⟨hname, hvalid⟩ := hascends.shown hposition
    refine (Place.text_ofPosition ?_ hvalid).symm
    rw [hname, h.path_eq]
    exact h.path_ne
  rw [Program.tokenLines, ofFile, List.map_append, List.map_map, List.map_map]
  congr 1
  · refine List.map_congr_left fun found hfound => ?_
    rw [hshown hstands.tokens _ (List.mem_map_of_mem hfound)]
    rfl
  · refine List.map_congr_left fun diagnostic hdiagnostic => ?_
    rw [hshown hstands.faults _ (List.mem_map_of_mem hdiagnostic)]
    rfl

end Lists

section Paths

variable {paths : List String} {file : String → FileTokens}
  (h : ∀ path ∈ paths, Lists path (file path))

include h

/-- What is printed of files is the text of their lines. -/
theorem flatMap_tokenLines :
    (paths.map file).flatMap Program.tokenLines =
      (paths.flatMap fun path => ofFile (file path)).map Line.text := by
  rw [List.flatMap_map, List.map_flatMap]
  exact List.flatMap_congr fun path hpath => (h path hpath).tokenLines_eq

/-- It is read back. -/
theorem read?_flatMap :
    read? (Report.lines ((paths.flatMap fun path => ofFile (file path)).map Line.text)) =
      some ((paths.map fun path => ofFile (file path)).filter (· ≠ [])) := by
  have hlegible : ∀ line ∈ paths.flatMap fun path => ofFile (file path), line.Legible := by
    intro line hline
    obtain ⟨path, hpath, hmem⟩ := List.mem_flatMap.1 hline
    exact (h path hpath).legible_of_mem hmem
  rw [read?, readLines?_lines hlegible, Option.map_some,
    byFile_flatMap (fun path hpath _ hline => (h path hpath).path_of_mem hline)
      fun path hpath => (h path hpath).nodup_ofFile]

end Paths

end Listing

/-- A file that can be read is listed under its path. -/
theorem exists_lists {workspace : Workspace} {path : String} {source : Bytes}
    (hread : workspace.read path = .ok source) (hpath : '\t' ∉ path.toList ∧ '\n' ∉ path.toList)
    (comments : Comments) :
    ∃ file, tokenizeFile workspace comments path = .ok file ∧ Listing.Lists path file := by
  obtain ⟨file, htokenize, hname, hstands⟩ := exists_tokenize path source comments
  refine ⟨file, by rw [tokenizeFile, hread, ← htokenize], hname, ?_, by simpa using hpath,
    source, hstands⟩
  rintro rfl
  cases hread

/-- Files that can all be read are listed one after the other. -/
theorem Program.value_showTokens {workspace : Workspace} {paths : List String}
    {comments : Comments} {files : List FileTokens}
    (h : tokenizeFiles workspace comments paths = files.map .ok) :
    (showTokens workspace paths comments false).value =
      { output := Report.lines (files.flatMap tokenLines), workspace } := by
  have hkept : (keepRead (tokenizeFiles workspace comments paths)).value = files := by
    rw [h]
    exact (List.filterMap_map ..).trans List.filterMap_some
  show ({ output := Report.lines ((keepRead _).value.flatMap tokenLines), workspace } : Outcome) = _
  rw [hkept]

/-- A token listing tells exactly what it lists, with comments or without them. Files that can be
read, whose paths have neither tabs nor line ends in them, are listed with one line for each token
and each fault. The listing is read back by itself, but for files that have no lines: it tells the
tokens of each file in order, with their places and literals, and behind them the faults, with their
places and messages. So for each of the paths it tells what has been listed. -/
theorem token_listing_reads_back (workspace : Workspace) (settings : Settings)
    {paths : List String} (comments : Bool)
    (hread : ∀ path ∈ paths, ∃ source, workspace.read path = .ok source)
    (hpaths : ∀ path ∈ paths, '\t' ∉ path.toList ∧ '\n' ∉ path.toList) :
    ∃ (files : List FileTokens) (lines : List String) (listed : List (List Listing.Line)),
      tokenizeFiles workspace (if comments then .kept else .skipped) paths = files.map .ok ∧
      files.map (·.path) = paths ∧
      (Program.runCommand workspace settings (.tokenize paths comments false)).value =
        { output := Report.lines lines, workspace } ∧
      (∀ line ∈ lines, '\n' ∉ line.toList) ∧
      lines.length = (files.map fun file => file.tokens.length + file.diagnostics.length).sum ∧
      Listing.read? (Report.lines lines) = some listed ∧
      listed = (files.map Listing.ofFile).filter (· ≠ []) ∧
      paths.map (Listing.linesOf listed) = files.map Listing.ofFile := by
  have hfiles : ∀ path ∈ paths, ∃ file : FileTokens,
      tokenizeFile workspace (if comments then .kept else .skipped) path = .ok file ∧
        Listing.Lists path file := by
    intro path hpath
    obtain ⟨source, hsource⟩ := hread path hpath
    exact exists_lists hsource (hpaths path hpath) _
  have : Nonempty FileTokens := ⟨⟨"", [], [], false⟩⟩
  choose! file htokenize hlists using hfiles
  have hresults : tokenizeFiles workspace (if comments then .kept else .skipped) paths =
      (paths.map file).map .ok := by
    rw [tokenizeFiles, List.map_map]
    exact List.map_congr_left htokenize
  have htext := Listing.flatMap_tokenLines hlists
  refine ⟨paths.map file, (paths.map file).flatMap Program.tokenLines, _, hresults, ?_,
    Program.value_showTokens hresults, ?_, ?_, ?_, rfl, ?_⟩
  · rw [List.map_map]
    exact (List.map_congr_left fun path hpath => (hlists path hpath).path_eq).trans (List.map_id _)
  · rw [htext]
    intro line hline
    obtain ⟨told, htold, rfl⟩ := List.mem_map.1 hline
    obtain ⟨path, hpath, hmem⟩ := List.mem_flatMap.1 htold
    exact ((hlists path hpath).legible_of_mem hmem).not_mem_text
  · rw [List.length_flatMap]
    simp [Program.tokenLines]
  · rw [htext, List.map_map]
    exact Listing.read?_flatMap hlists
  · rw [List.map_map]
    exact List.map_congr_left fun path hpath =>
      Listing.linesOf_eq (fun path hpath _ => (hlists path hpath).path_of_mem) hpath

/-- A file with a tab in a comment, which is listed twice, and an empty one between, for
instance. -/
theorem token_listing_of_repeated_path :
    let workspace : Workspace :=
      { tree := (FileTree.empty.write ["m.pas"] [0x7B, 0x09, 0x7D, 0x31]).write ["e.pas"] []
        here := [], systemScratch := "/", run := "1" }
    let paths := ["m.pas", "e.pas", "m.pas"]
    let outcome := (Program.runCommand workspace {} (.tokenize paths true false)).value
    let lines : List Listing.Line :=
      [.token ⟨"m.pas", 1, 1⟩ .comment [0x7B, 0x09, 0x7D], .token ⟨"m.pas", 1, 4⟩ .integer [0x31]]
    (∀ path ∈ paths, ∃ source, workspace.read path = .ok source) ∧
    (∀ path ∈ paths, '\t' ∉ path.toList ∧ '\n' ∉ path.toList) ∧
    Listing.read? outcome.output = some [lines, lines] := by
  intro workspace paths outcome lines
  have hread : ∀ path ∈ paths, ∃ source, workspace.read path = .ok source := by
    have hall : ∀ path ∈ paths, (workspace.read path).toOption.isSome := by decide +kernel
    intro path hpath
    cases hsource : workspace.read path with
    | ok source => exact ⟨source, rfl⟩
    | error fault =>
        have hsome := hall path hpath
        rw [hsource] at hsome
        cases hsome
  have hpaths : ∀ path ∈ paths, '\t' ∉ path.toList ∧ '\n' ∉ path.toList := by decide
  refine ⟨hread, hpaths, ?_⟩
  obtain ⟨files, printed, listed, hfiles, -, hprinted, -, -, htold, rfl, -⟩ :=
    token_listing_reads_back workspace {} true hread hpaths
  have hlines : (tokenizeFiles workspace .kept paths).map (·.toOption.map Listing.ofFile) =
      [lines, [], lines].map some := by decide +kernel
  rw [show tokenizeFiles workspace .kept paths = files.map .ok from hfiles, List.map_map] at hlines
  have hlisted : files.map Listing.ofFile = [lines, [], lines] :=
    List.map_injective_iff.2 (Option.some_injective _) (by rw [← hlines, List.map_map]; rfl)
  show Listing.read? (Program.runCommand workspace {} (.tokenize paths true false)).value.output = _
  rw [hprinted]
  show Listing.read? (Report.lines printed) = _
  rw [htold, hlisted]
  rfl

end PascalUnits
