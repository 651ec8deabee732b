import PascalUnits.Text.Split

/-!
# Paths

A path is a text whose segments are separated by slashes. Empty segments and the segment `.` mean
nothing; `..` means the parent directory. The file name is the last segment with a meaning, unless
that is `..`; its stem and its extension part at its last period, except that a period at the very
beginning belongs to the stem.
-/

namespace PascalUnits.Path

/-- The segments of a path with a meaning, in order. -/
def segments (path : String) : List String :=
  (Text.splitOn '/' path).filter fun segment => segment != "" && segment != "."

/-- Whether a path begins at the root directory. -/
def isAbsolute (path : String) : Bool :=
  path.toList.head? == some '/'

/-- Whether a path ends with a slash. -/
def endsWithSlash (path : String) : Bool :=
  path.toList.getLast? == some '/'

/-- Whether a path stands for the standard input when a tree is walked: it is `-` alone. -/
def isStandardInput (path : String) : Bool :=
  path.toList.head? == some '-' && segments path == ["-"]

/-- The name of the file or directory that a path leads to. -/
def fileName? (path : String) : Option String :=
  match (segments path).getLast? with
  | some ".." => none
  | last => last

/-- The stem and the extension of a file name. -/
def splitName (name : String) : String × Option String :=
  match Text.cutLast? '.' name with
  | none => (name, none)
  | some ("", _) => (name, none)
  | some (stem, extension) => (stem, some extension)

/-- The file name without its extension. -/
def stem? (path : String) : Option String :=
  (fileName? path).map fun name => (splitName name).1

/-- The part of the file name after its last period. -/
def extension? (path : String) : Option String :=
  (fileName? path).bind fun name => (splitName name).2

/-- `child` seen from the directory `base`; an absolute child stands for itself. -/
def join (base child : String) : String :=
  if isAbsolute child then child
  else if base.isEmpty || endsWithSlash base then base ++ child
  else base ++ "/" ++ child

/-- Segments that mean nothing, taken off the end; the first segment stays. -/
def dropVoid : List String → List String
  | segment :: earlier :: rest =>
    if segment = "" ∨ segment = "." then dropVoid (earlier :: rest) else segment :: earlier :: rest
  | segments => segments

/-- The path less its last segment; the root directory and the empty path have no parent. -/
def parent? (path : String) : Option String :=
  match dropVoid (Text.splitOn '/' path).reverse with
  | [] => none
  | [segment] => if segment = "" then none else some ""
  | _ :: rest =>
    match dropVoid rest with
    | [""] => some "/"
    | rest => some ("/".intercalate rest.reverse)

/-- The path from the root directory, read from the directory `here`. Segments without a meaning go,
`..` and a slash at the end stay, and exactly two slashes at the beginning stay two. The empty path
leads nowhere. -/
def absolute? (here path : String) : Option String :=
  if path.isEmpty then none
  else
    let steps := "/".intercalate (segments path)
    let slashes := (path.toList.takeWhile (· == '/')).length
    let full :=
      if slashes = 0 then if steps.isEmpty then here else join here steps
      else if slashes = 2 then "//" ++ steps
      else "/" ++ steps
    some (if endsWithSlash path && !endsWithSlash full then full ++ "/" else full)

end PascalUnits.Path
