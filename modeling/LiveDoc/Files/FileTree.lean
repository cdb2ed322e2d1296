import LiveDoc.Files.Path
import LiveDoc.Files.System

/-!
A tree of files in memory. A place in it is the list of the names that lead to it from the root. A
path leads from a place through folders only; two dots lead to the folder around, and a slash or a
dot at the end can only follow a folder. Names and paths have a largest size.
-/
namespace LiveDoc

abbrev Place := List String

structure FileTree where
  folders : List Place
  files : List (Place × ByteArray)

namespace FileTree

def isFolderAt (t : FileTree) (place : Place) : Bool := place.isEmpty || t.folders.contains place

def isFileAt (t : FileTree) (place : Place) : Bool := (t.files.lookup place).isSome

/-- The size of the longest name, in bytes. -/
def maxNameSize : Nat := 255

/-- The size of the longest path, in bytes. -/
def maxPathSize : Nat := 4095

/-- Where a path leads from a place. -/
def walk (t : FileTree) (place : Place) : List (List Char) → Except IoError Place
  | [] => .ok place
  | part :: rest =>
    if ! t.isFolderAt place then
      if t.isFileAt place then .error .notFolder else .error .notFound
    else if Path.isIdle part then t.walk place rest
    else if part == ['.', '.'] then t.walk place.dropLast rest
    else
      let name := String.ofList part
      if maxNameSize < name.utf8ByteSize then .error .nameTooLong
      else t.walk (place ++ [name]) rest

/-- The place that a path leads to from the working folder, whether anything is there or not. -/
def destination (t : FileTree) (working : Place) (path : String) : Except IoError Place :=
  if path.isEmpty then .error .notFound
  else if maxPathSize < path.utf8ByteSize then .error .nameTooLong
  else t.walk (if Path.isAbsolute path then [] else working) (Path.parts path)

/-- The place of the file or folder that a path leads to. -/
def locate (t : FileTree) (working : Place) (path : String) : Except IoError Place := do
  let place ← t.destination working path
  if t.isFolderAt place || t.isFileAt place then .ok place else .error .notFound

def read (t : FileTree) (working : Place) (path : String) : Except IoError String := do
  match t.files.lookup (← t.locate working path) with
  | none => .error .isFolder
  | some bytes =>
    match String.fromUTF8? bytes with
    | some text => .ok text
    | none => .error .notText

/-- The place of a file that can be written; a slash at the end of its path is for folders. -/
def writable (t : FileTree) (working : Place) (path : String) : Except IoError Place := do
  let bare := String.ofList (path.toList.reverse.dropWhile (· = '/')).reverse
  let place ← if bare.isEmpty then t.destination working path else t.destination working bare
  if t.isFolderAt place || bare != path then .error .isFolder else .ok place

def setFile (place : Place) (bytes : ByteArray) :
    List (Place × ByteArray) → List (Place × ByteArray)
  | [] => [(place, bytes)]
  | (p, old) :: rest =>
    if p = place then (p, bytes) :: rest else (p, old) :: setFile place bytes rest

def write (t : FileTree) (place : Place) (bytes : ByteArray) : FileTree :=
  { t with files := setFile place bytes t.files }

end FileTree

/-- A system in memory. -/
structure Desk where
  tree : FileTree
  working : Place
  input : String
  output : String
  /-- What was written beside the output, newest first. -/
  complaints : List String

namespace Desk

def createFile (path : String) (d : Desk) : Except IoError Unit × Desk :=
  match d.tree.writable d.working path with
  | .error e => (.error e, d)
  | .ok place => (.ok (), { d with tree := d.tree.write place .empty })

def appendFile (path text : String) (d : Desk) : Except IoError Unit × Desk :=
  match d.tree.writable d.working path with
  | .error e => (.error e, d)
  | .ok place =>
    let old := (d.tree.files.lookup place).getD .empty
    (.ok (), { d with tree := d.tree.write place (old ++ text.toUTF8) })

/-- Whether a text is as long as a limit allows, if there is one. -/
def isWithin (limit : Option Nat) (text : String) : Bool :=
  match limit with
  | some limit => text.utf8ByteSize ≤ limit
  | none => true

/-- Writes to the output, which takes a text as a whole or not at all. -/
def print (limit : Option Nat) (text : String) (d : Desk) : Except IoError Unit × Desk :=
  let output := d.output ++ text
  if isWithin limit output then (.ok (), { d with output }) else (.error .noRoom, d)

def complain (text : String) (d : Desk) : Except IoError Unit × Desk :=
  (.ok (), { d with complaints := text :: d.complaints })

def canonical? (path : String) (d : Desk) : Option String :=
  (d.tree.locate d.working path).toOption.map fun place =>
    "/" ++ "/".intercalate place

/-- A system the output of which takes as many bytes as the limit says, if there is one. -/
def systemWithin (limit : Option Nat) : System (StateM Desk) where
  readFile path := do return (← get).tree.read (← get).working path
  readInput := modifyGet fun d => (.ok d.input, { d with input := "" })
  isFolder path := do
    let d ← get
    return match d.tree.locate d.working path with
      | .ok place => d.tree.isFolderAt place
      | .error _ => false
  isThere path := do return ((← get).tree.locate (← get).working path).isOk
  canonical? path := do return (← get).canonical? path
  createFile path := modifyGet (createFile path)
  appendFile path text := modifyGet (appendFile path text)
  print text := modifyGet (print limit text)
  showsColors := return false
  complain text := modifyGet (complain text)

/-- A system without a limit. -/
def system : System (StateM Desk) := systemWithin none

end Desk

end LiveDoc
