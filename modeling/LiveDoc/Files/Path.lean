import LiveDoc.Text.CodeRanges
import LiveDoc.Text.Search

/-!
Paths as they are written: names with slashes between them. A slash too many and a dot between
slashes do not count, but a dot in front and two dots do. Two paths are spelled alike if they have
the same components.
-/
namespace LiveDoc.Path

inductive Component where
  | root
  /-- The dot that a path begins with. -/
  | here
  | up
  | name (s : List Char)
deriving DecidableEq, Repr

def isAbsolute (path : String) : Bool := path.toList.head? == some '/'

/-- What stands between the slashes. -/
def parts (path : String) : List (List Char) := Text.pieces (· = '/') path.toList

/-- A part that does not lead anywhere. -/
def isIdle (part : List Char) : Bool := part.isEmpty || part == ['.']

def componentOf (part : List Char) : Component :=
  if part == ['.', '.'] then .up else .name part

def components (path : String) : List Component :=
  let parts := parts path
  let start :=
    if isAbsolute path then [Component.root]
    else if parts.head? == some ['.'] then [.here] else []
  start ++ (parts.filter (! isIdle ·)).map componentOf

def sameSpelling (p q : String) : Bool := components p == components q

/-- The parts in front of the last name and the name itself, if the path ends with a name. -/
def splitName? (path : String) : Option (List (List Char) × List Char) :=
  match (parts path).reverse.dropWhile isIdle with
  | last :: before => if last == ['.', '.'] then none else some (before.reverse, last)
  | [] => none

def fileName? (path : String) : Option String :=
  (splitName? path).map fun (_, name) => String.ofList name

/-- A name without its last dot and what follows it; a dot in front belongs to the name. -/
def stem (name : List Char) : List Char :=
  let before := (name.reverse.dropWhile (· != '.')).drop 1
  if before.isEmpty then name else before.reverse

/-- What stands behind the last dot of a name, unless the name begins with it. -/
def extension (name : List Char) : List Char := name.drop ((stem name).length + 1)

/-- A path that loses at its end as many characters as the extension of its last name has. -/
def withoutExtension (path : String) : String :=
  match splitName? path with
  | none => path
  | some (_, name) => String.ofList (path.toList.take (path.length - (extension name).length))

/--
The path with another extension of its last name, or unchanged if it does not end with one. Two
dots with an extension behind them lose it, and then they are no name.
-/
def withExtension (extension path : String) : String :=
  let cut := withoutExtension path
  match splitName? cut with
  | none => cut
  | some (before, name) =>
    String.ofList (Text.intercalate ['/'] (before ++ [stem name ++ '.' :: extension.toList]))

/-- A relative path inside of a folder. -/
def join (folder path : String) : String :=
  if isAbsolute path then path
  else if folder.isEmpty || folder.toList.getLast? == some '/' then folder ++ path
  else folder ++ "/" ++ path

end LiveDoc.Path
