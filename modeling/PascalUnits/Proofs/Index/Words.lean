import PascalUnits.Proofs.Graph.Basic
import PascalUnits.Proofs.Index.Expansion
import PascalUnits.Proofs.Scan.GrammaticalRun

/-!
# Words that an index takes for names

An index takes notice of identifiers. The words of the language are none, the directives among them,
wherever they stand. So a unit that has such a word for its name is never mentioned
(`not_mentions_of_word`), and every other word of a source is an identifier
(`Scanner.Follows.token_of_spells`). The main statement, `load_uses_word`, says which of the units
that a source names are recorded when it is loaded.
-/

namespace PascalUnits

/-- A token that is a word, which begins with a letter, and spells `name` in some letter case. -/
def Scanned.Spells (found : Scanned) (name : String) : Prop :=
  (∃ first, found.literal.head? = some first ∧ Byte.isLetter first) ∧
    UnitName.key (Bytes.latin found.literal) = UnitName.key name

/-- What a token stands for is its literal, if it has one. -/
theorem Scanned.lexeme_of_literal {found : Scanned} (h : found.literal ≠ []) :
    found.lexeme = found.literal :=
  if_neg fun hempty => h (List.isEmpty_iff.1 hempty)

namespace Grammar

variable {previous : Option Token} {token : Token} {text rest : Bytes}

/-- A token that begins with a letter is the word that it spells. -/
theorem Lexes.token_of_isLetter {first : UInt8} (h : Lexes previous token text rest)
    (hfirst : text.head? = some first) (hletter : Byte.isLetter first) :
    token = Token.ofName (Bytes.latin text) := by
  cases h with
  | word _ _ hspelling => exact (Token.ofName_of_spelling hspelling).symm
  | identifier _ _ hspelling => exact (Token.ofName_of_forall_ne hspelling).symm
  | decimal hdigit =>
      cases hfirst
      rw [isLetter_of_isDigit hdigit] at hletter
      cases hletter
  | @operator op => cases op <;> cases hfirst <;> cases hletter
  | illegal _ hother =>
      cases hfirst
      rw [hother] at hletter
      cases hletter
  | _ =>
      -- all other rules begin with a byte of their own, which is no letter
      cases hfirst
      cases hletter

/-- An identifier spells no word of the language. -/
theorem Lexes.not_mem_spellings (h : Lexes previous token text rest)
    (htoken : token = .identifier) : UnitName.key (Bytes.latin text) ∉ Word.spellings := by
  cases h with
  | identifier _ _ hspelling => exact fun hmem => hspelling ⟨_, hmem⟩ rfl
  | decimal | string | braced => split at htoken <;> cases htoken
  | _ => cases htoken

end Grammar

namespace Scanner

variable {scanner : Scanner} {source : Bytes} {comments : Comments} {previous : Option Token}
  {call : Scanned × Scanner}

/-- A scanner at the beginning of a source has no token behind it. -/
theorem follows_of_start {name : String} {base : Nat}
    (h : Scanner.start (.fresh name base source.length) source = .ok scanner) :
    scanner.Follows source none := by
  have hsize : (SourceFile.fresh name base source.length).size = source.length := rfl
  obtain ⟨other, hother, hstands, -⟩ := start_stands hsize
  obtain rfl := Except.ok.inj (hother.symm.trans h)
  exact ⟨hstands, (of_start_eq_ok h).2.1⟩

/-- Every token of a scan is one of the grammar. -/
theorem Follows.lexes_of_mem (h : scanner.Follows source previous)
    (hcall : call ∈ scanner.trace comments) (hne : call.1.token ≠ .eof) :
    ∃ before rest, Grammar.Lexes before call.1.token call.1.lexeme rest := by
  obtain ⟨calls, last, htrace, hlast, -, hcalls⟩ := h.trace comments
  rw [htrace, List.mem_append, List.mem_singleton] at hcall
  rcases hcall with hcall | rfl
  · obtain ⟨-, -, _, hprescribed⟩ := hcalls.of_mem hcall
    obtain ⟨rest, hrest⟩ := hprescribed.stands
    exact ⟨_, rest, (hprescribed.lexes_iff _ _ rest hrest).2 ⟨rfl, rfl⟩⟩
  · exact absurd hlast hne

/-- A word of a source is the token that the name it spells is. -/
theorem Follows.token_of_spells {name : String} (h : scanner.Follows source previous)
    (hcall : call ∈ scanner.trace comments) (hspells : call.1.Spells name) :
    call.1.token = Token.ofName name := by
  obtain ⟨⟨first, hfirst, hletter⟩, hkey⟩ := hspells
  have hliteral : call.1.literal ≠ [] := by
    intro hnil
    rw [hnil] at hfirst
    cases hfirst
  have hne : call.1.token ≠ .eof := by
    intro heof
    have hend : ∀ call ∈ scanner.trace comments, call.1.token = .eof → call.1.literal = [] :=
      forall_mem_trace (fun _ => literal_of_eof) scanner
    exact hliteral (hend call hcall heof)
  obtain ⟨before, rest, hlexes⟩ := h.lexes_of_mem hcall hne
  rw [Scanned.lexeme_of_literal hliteral] at hlexes
  have hlower : Text.lower (Bytes.latin call.1.literal) = Text.lower name := hkey
  rw [hlexes.token_of_isLetter hfirst hletter, Token.ofName, Token.ofName, Word.ofName?,
    Word.ofName?]
  simp only [hlower]

/-- An identifier of a source spells no word of the language. -/
theorem Follows.not_mem_spellings (h : scanner.Follows source previous)
    (hcall : call ∈ scanner.trace comments) (htoken : call.1.token = .identifier) :
    UnitName.key (Bytes.latin call.1.literal) ∉ Word.spellings := by
  obtain ⟨before, rest, hlexes⟩ := h.lexes_of_mem hcall (by simp [htoken])
  by_cases hliteral : call.1.literal = []
  · rw [hliteral]
    decide
  · rw [Scanned.lexeme_of_literal hliteral] at hlexes
    exact hlexes.not_mem_spellings htoken

end Scanner

/-- No call is left out where there are not too many faults. -/
theorem tolerated_eq_self {calls : List (Scanned × Scanner)}
    (h : ∀ call ∈ calls, call.2.errorCount ≤ maxErrors) : tolerated calls = calls := by
  induction calls with
  | nil => rfl
  | cons call rest ih =>
      obtain ⟨hcall, hrest⟩ := List.forall_mem_cons.1 h
      rw [tolerated_cons, if_neg (Nat.not_lt.2 hcall), ih hrest]

/-- A source without too many faults is delivered up to its end. -/
theorem delivered_of_errorCount_le {source : Bytes} {scanner : Scanner}
    (hstart : Scanner.start (.fresh "" FileSet.empty.base source.length) source = .ok scanner)
    (herrors : (scanner.atEnd .skipped).errorCount ≤ maxErrors) :
    delivered source =
      (scanner.trace .skipped).map fun call => (call.1.token, call.1.literal) := by
  obtain ⟨other, hother, hdelivered⟩ := delivered_eq source
  obtain rfl := Except.ok.inj (hstart.symm.trans hother)
  rw [hdelivered, tolerated_eq_self]
  exact fun call hcall => Nat.le_trans (Scanner.errorCount_le_of_mem hcall) herrors

/-- Delivered identifiers spell no word of the language. -/
theorem not_mem_spellings_of_delivered {source literal : Bytes}
    (h : (.identifier, literal) ∈ delivered source) :
    UnitName.key (Bytes.latin literal) ∉ Word.spellings := by
  obtain ⟨scanner, hstart, hdelivered⟩ := delivered_eq source
  rw [hdelivered] at h
  obtain ⟨call, hcall, hfound⟩ := List.mem_map.1 h
  obtain ⟨htoken, rfl⟩ := Prod.mk.inj hfound
  exact (Scanner.follows_of_start hstart).not_mem_spellings (List.mem_of_mem_take hcall) htoken

variable {workspace : Workspace} {index : Index} {unit name path : String}

/-- Nor do those of include files. -/
theorem Occurs.not_mem_spellings {includes : NameTable String} {depth : Nat}
    (h : Occurs workspace includes depth path name) : UnitName.key name ∉ Word.spellings := by
  induction h with
  | here _ hdelivered => exact not_mem_spellings_of_delivered hdelivered
  | followed _ _ _ _ _ ih => exact ih

/-- No source mentions a unit that has a word of the language for its name. -/
theorem not_mentions_of_word {key other : String} (hword : other ∈ Word.spellings) :
    ¬ Mentions workspace index key other := by
  rintro ⟨path, name, -, hoccurs, -, rfl, -⟩
  exact hoccurs.not_mem_spellings hword

namespace Index

/-- Where both parts count, loading a unit records the units that its source mentions. -/
theorem uses_load_iff (hpath : index.unitPaths.find? unit = some path)
    (hunloaded : index.isLoaded unit = false) (hboth : index.interfaceOnly = false)
    {key : String} :
    (index.load workspace unit).value.1.Uses unit key ↔
      Mentions workspace index (UnitName.key unit) key := by
  have hunrecorded := ((index.lists_counted unit
    (index.sourceFindings workspace unit path)).2.1 hboth).2
  rw [← mem_keys_reading hpath, Reading.mem_keys, hunrecorded, Uses, get?_load,
    if_pos ⟨hunloaded, rfl⟩]
  simp [usesOf, hpath]

end Index

/-- Which of the units that a source names are uses. Let the source of a registered unit have no
more faults than a scan puts up with, and let one of its tokens be a word that spells the name of
another registered unit, which is no reserved word. When both parts count, a load of a unit that is
not loaded records the other one among its uses, unless its name is a directive. What is known of a
loaded unit stays as it is. -/
theorem load_uses_word (workspace : Workspace) {index : Index} {unit name path : String}
    {source : Bytes} {scanner : Scanner} (hpath : index.unitPaths.find? unit = some path)
    (hread : workspace.read path = .ok source)
    (hstart : Scanner.start (.fresh "" FileSet.empty.base source.length) source = .ok scanner)
    (herrors : (scanner.atEnd .skipped).errorCount ≤ maxErrors)
    (hword : ∃ call ∈ scanner.trace .skipped, call.1.Spells name)
    (hregistered : index.unitPaths.contains name) (hother : UnitName.key name ≠ UnitName.key unit)
    (hreserved : UnitName.key name ∉ Word.reserved) (hboth : index.interfaceOnly = false) :
    (index.load workspace unit).value.1.Uses unit (UnitName.key name) ↔
      if index.isLoaded unit then index.Uses unit (UnitName.key name)
      else UnitName.key name ∉ Word.directives ++ Word.contextual := by
  cases hloaded : index.isLoaded unit with
  | true => rw [Index.load_index, if_pos hloaded, if_pos rfl]
  | false =>
      have hspellings : UnitName.key name ∈ Word.spellings ↔
          UnitName.key name ∈ Word.directives ++ Word.contextual := by
        rw [Word.spellings, List.append_assoc, List.mem_append, or_iff_right hreserved]
      rw [Index.uses_load_iff hpath hloaded hboth, if_neg Bool.false_ne_true, ← hspellings]
      refine ⟨fun hmentions hmem => not_mentions_of_word hmem hmentions, fun hname => ?_⟩
      -- the name spells no word of the language, so the token that spells it is an identifier
      have hnone : ∀ w : Word, w.spelling ≠ Text.lower name := by
        intro w hw
        rw [UnitName.key, ← hw] at hname
        exact hname w.mem_spellings
      obtain ⟨call, hcall, hspells⟩ := hword
      have htoken := (Scanner.follows_of_start hstart).token_of_spells hcall hspells
      rw [Token.ofName_of_forall_ne hnone] at htoken
      have hdelivered : (.identifier, call.1.literal) ∈ delivered source := by
        rw [delivered_of_errorCount_le hstart herrors, ← htoken]
        exact List.mem_map_of_mem hcall
      refine ⟨path, _, ?_, .here hread hdelivered, ?_, hspells.2, hother⟩
      · rwa [NameTable.find?_key]
      · rwa [index.unitPaths.contains_congr hspells.2]

/-- Another unit of one letter, for instance. -/
theorem load_uses_letter :
    let workspace : Workspace :=
      { tree := FileTree.empty.write ["m.pas"] (Bytes.ofText "B")
        here := [], systemScratch := "/tmp", run := "1" }
    let index : Index :=
      { unitPaths := (NameTable.empty.insert "m" "m.pas").insert "b" "b.pas" }
    index.unitPaths.find? "m" = some "m.pas" ∧ index.isLoaded "m" = false ∧
      (index.load workspace "m").value.1.Uses "m" (UnitName.key "B") := by
  intro workspace index
  have hpath : index.unitPaths.find? "m" = some "m.pas" := by decide +kernel
  have hread : workspace.read "m.pas" = .ok [66] := by decide +kernel
  let scanner : Scanner :=
    { file := .fresh "" FileSet.empty.base 1, offset := 0, rest := [66] }
  have hword : ∃ call ∈ scanner.trace .skipped, call.1.Spells "B" := by
    refine ⟨scanner.next .skipped, ?_, ⟨66, ?_, ?_⟩, ?_⟩ <;> decide +kernel
  have hunloaded : index.isLoaded "m" = false := by decide +kernel
  refine ⟨hpath, hunloaded, ?_⟩
  rw [load_uses_word workspace hpath hread (Scanner.start_eq_ok rfl) (by decide +kernel) hword
    (by decide +kernel) (by decide +kernel) (by decide +kernel) rfl, hunloaded,
    if_neg Bool.false_ne_true]
  decide +kernel

/-- A unit whose name is a directive, on the other hand, is no use of the unit that names it. -/
theorem load_misses_directive :
    let source := Bytes.ofText "unit Main;\ninterface\nuses Index;\nimplementation\nend."
    let workspace : Workspace :=
      { tree := (FileTree.empty.write ["Index.pas"] (Bytes.ofText "unit Index; end.")).write
          ["Main.pas"] source
        here := [], systemScratch := "/tmp", run := "1" }
    let index : Index :=
      (Index.addUnitPath (Index.addUnitPath {} "Index.pas").value "Main.pas").value
    index.unitPaths.find? "Main" = some "Main.pas" ∧ index.isLoaded "Main" = false ∧
      index.unitPaths.contains "Index" ∧ UnitName.key "Index" ∉ Word.reserved ∧
      index.interfaceOnly = false ∧ workspace.read "Main.pas" = .ok source ∧
      (∃ scanner, Scanner.start (.fresh "" FileSet.empty.base source.length) source = .ok scanner ∧
        (scanner.atEnd .skipped).errorCount ≤ maxErrors ∧
        ∃ call ∈ scanner.trace .skipped, call.1.Spells "Index") ∧
      ¬ (index.load workspace "Main").value.1.Uses "Main" (UnitName.key "Index") := by
  intro source workspace index
  have hpath : index.unitPaths.find? "Main" = some "Main.pas" := by decide +kernel
  have hunloaded : index.isLoaded "Main" = false := by decide +kernel
  refine ⟨hpath, hunloaded, by decide +kernel, by decide +kernel, rfl, by decide +kernel,
    ⟨_, Scanner.start_eq_ok rfl, by decide +kernel, ?_⟩, ?_⟩
  · -- the sixth token
    refine ⟨_, List.getElem_mem (n := 5) (by decide +kernel), ⟨73, ?_, ?_⟩, ?_⟩ <;> decide +kernel
  · rw [Index.uses_load_iff hpath hunloaded rfl]
    exact not_mentions_of_word (by decide +kernel)

end PascalUnits
