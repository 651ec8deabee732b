import PascalUnits.Toml.Double
import PascalUnits.Toml.Fault

/-!
# TOML documents

A document has fields of its own and tables, each under a header of one or more keys. A field with
a key of several parts stands for nested tables, which grow from field to field but cannot grow
into any other value. `Branch.check` says which tables may stand in one document: no table is there
twice, except for the elements of an array of tables, and an array of tables comes before any table
below it.
-/

namespace PascalUnits.Toml

/-- A value. Dates and times count only as such. -/
inductive Value where
  | text (value : String)
  | boolean (value : Bool)
  | integer (value : Int)
  | float (value : Double)
  | moment
  | array (items : List (Placed Value))
  | inlineTable (fields : List (String × Placed Value))
  /-- The table that keys of several parts stand for. -/
  | dottedTable (fields : List (String × Placed Value))

instance : Inhabited Value := ⟨.moment⟩

/-- Fields in the order of the text. -/
abbrev Fields := List (String × Placed Value)

/-- Puts `change fields` for the nested table under `key`, which need not be there yet. A table that
is not there yet is placed at `offset`. -/
def Fields.nest (key : String) (offset : Nat) (change : Fields → Except Fault Fields) :
    Fields → Except Fault Fields
  | [] => (change []).map fun inner => [(key, { offset, value := .dottedTable inner })]
  | (other, place) :: rest =>
    if other = key then
      match place.value with
      | .dottedTable inner => (change inner).map fun inner =>
        (key, { place with value := .dottedTable inner }) :: rest
      | _ => .error { cause := .dottedKey, offset := place.offset }
    else (nest key offset change rest).map ((other, place) :: ·)

/-- Adds a field whose key may have several parts. -/
def Fields.add (value : Placed Value) : List String → Fields → Except Fault Fields
  | [], fields => .ok fields
  | [key], fields => .ok (fields ++ [(key, value)])
  | key :: rest, fields => fields.nest key value.offset (Fields.add value rest)

/-- The header of a table. -/
structure Header where
  keys : List String
  /-- Whether it begins an element of an array of tables. -/
  array : Bool
  /-- The number of bytes before it. -/
  offset : Nat
  deriving DecidableEq, Repr

/-- The name of a table: its keys with periods between them. -/
def Header.name (header : Header) : String :=
  ".".intercalate header.keys

/-- A table with its header. -/
structure Table where
  header : Header
  fields : Fields

/-- What a text stands for. -/
structure Document where
  fields : Fields
  tables : List Table

/-- Where the last table begins; the document itself begins with its text. -/
def Document.lastTable (document : Document) : Nat :=
  (document.tables.getLast?.map (·.header.offset)).getD 0

/-- A header seen from a table that it lies below, or that is its own. -/
structure Branch where
  header : Header
  /-- The keys that lead from there. -/
  keys : List String
  deriving DecidableEq, Repr

/-- Headers with the same first key, or a header without keys. -/
inductive Limb where
  | own (header : Header)
  | below (key : String) (branches : List Branch)
  deriving DecidableEq, Repr

namespace Branch

/-- Whether a header begins an element of the array of tables that it is seen from. -/
def isElement (branch : Branch) : Bool :=
  branch.keys.isEmpty && branch.header.array

/-- Adds a header to those with its first key, or at the end. -/
def addTo (header : Header) (key : String) (rest : List String) : List Limb → List Limb
  | [] => [.below key [{ header, keys := rest }]]
  | .below other branches :: limbs =>
    if other = key then .below key (branches ++ [{ header, keys := rest }]) :: limbs
    else .below other branches :: addTo header key rest limbs
  | .own other :: limbs => .own other :: addTo header key rest limbs

/-- Headers gathered by their first keys, each key where it comes first. -/
def limbs (branches : List Branch) : List Limb :=
  branches.foldl
    (fun limbs branch =>
      match branch.keys with
      | [] => limbs ++ [.own branch.header]
      | key :: rest => addTo branch.header key rest limbs) []

/-- Headers between the elements of an array of tables, for each element. -/
def splitElements : List Branch → List (List Branch)
  | [] => [[]]
  | branch :: rest =>
    if branch.isElement then [] :: splitElements rest
    else
      match splitElements rest with
      | [] => [[branch]]
      | part :: parts => (branch :: part) :: parts

/-- Goes on with a header that names the table itself, which must not be there already and must not
begin an element. -/
def checkOwn (known : Bool) (header : Header) : Except Fault Bool :=
  if known then
    .error {
      cause := .repeatedTable header.name, offset := header.offset, keys := header.keys }
  else if header.array then
    .error { cause := .tableAsArray, offset := header.offset, keys := header.keys }
  else .ok true

/-- Checks that headers with one first key may stand in one document, where `check` checks what lies
below a table, given whether the table is there already. The first header may begin an array of
tables; then every element is a table of its own. -/
def checkBelow (check : Bool → List Branch → Except Fault Unit) : List Branch → Except Fault Unit
  | [] => .ok ()
  | first :: rest =>
    if first.isElement then (splitElements rest).forM (check true)
    else check false (first :: rest)

/-- Checks that headers may stand in one document, seen from a table that all of them lie below. The
first argument is a bound on the number of their keys, and `known` says whether the table itself is
there already. -/
def check : Nat → Bool → List Branch → Except Fault Unit
  | 0, _, _ => .ok ()
  | bound + 1, known, branches => do
    let checkLimb (known : Bool) : Limb → Except Fault Bool
      | .own header => checkOwn known header
      | .below _ branches => (checkBelow (check bound) branches).map fun _ => known
    let _ ← (limbs branches).foldlM checkLimb known

end Branch

/-- The headers of a document by their first keys, each key where it comes first. -/
def Document.limbs (document : Document) : List Limb :=
  Branch.limbs (document.tables.map fun table =>
    { header := table.header, keys := table.header.keys })

/-- The number of keys in the longest header of a document. -/
def Document.depth (document : Document) : Nat :=
  (document.tables.map (·.header.keys.length)).foldl max 0

/-- Checks that the headers with one first key may stand in a document. -/
def Document.checkBelow (document : Document) : List Branch → Except Fault Unit :=
  Branch.checkBelow (Branch.check document.depth)

end PascalUnits.Toml
