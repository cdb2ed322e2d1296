import LiveDoc.Files.System
import LiveDoc.Host
import LiveDoc.Settings.Toml.Document

/-!
The settings of a command, read from a file that is named on the command line or from one in the
working folder, if it is there. A file holds known keys only, each with a value of its own type.
-/
namespace LiveDoc

inductive ColorMode where
  | auto
  | always
  | never
deriving DecidableEq, Repr

namespace ColorMode

def all : List ColorMode := [auto, always, never]

def name : ColorMode → String
  | auto => "auto"
  | always => "always"
  | never => "never"

end ColorMode

structure Settings where
  onError : ErrorAction
  force : Bool
  color : ColorMode
deriving DecidableEq, Repr

namespace Settings

open Toml (Entry Item Position Refusal)

/-- What holds without a file. -/
def initial : Settings := ⟨.halt, false, .auto⟩

/-- The place of what a key stands for, which is that of the key if it has none of its own. -/
def placeOf (e : Entry Item) : Toml.Place := e.place.getD e.key.place

def isEmptyItem : Item → Bool
  | .array isEmpty => isEmpty
  | .table _ entries => entries.isEmpty
  | _ => false

/-- What is said of a name that is none of those that are known. -/
def unknown (what : String) (known : List String) (name : String) : String :=
  "unknown " ++ what ++ " `" ++ name ++ "`, expected one of " ++
    ", ".intercalate (known.map fun k => "`" ++ k ++ "`")

/-- One of several names: as a text, or as the only key of a table, with nothing behind it. -/
def choice {α : Type} (known : List α) (nameOf : α → String) (e : Entry Item) :
    Except Refusal α :=
  let find (name : String) (place : Toml.Place) : Except Refusal α :=
    match known.find? (nameOf · == name) with
    | some a => .ok a
    | none => .error ⟨place, unknown "variant" (known.map nameOf) name⟩
  match e.item with
  | .text s => find (String.ofList s) (placeOf e)
  | .table _ [inner] => do
    let a ← find (String.ofList inner.key.name) inner.key.place
    if isEmptyItem inner.item then return a else throw ⟨inner.place.getD (placeOf e), none⟩
  | _ => .error ⟨placeOf e, none⟩

/-- The settings with one of them changed. -/
def change (settings : Settings) (e : Entry Item) : Except Refusal Settings := do
  match String.ofList e.key.name with
  | "on_error" => return { settings with onError := ← choice ErrorAction.all ErrorAction.name e }
  | "force" =>
    match e.item with
    | .bool force => return { settings with force }
    | _ => throw ⟨placeOf e, none⟩
  | "color" => return { settings with color := ← choice ColorMode.all ColorMode.name e }
  | name => throw ⟨e.key.place, unknown "field" ["on_error", "force", "color"] name⟩

/-- What is wrong with a file: where, and why as far as it is told. -/
structure Flaw where
  position : Position
  reason : Option String
deriving DecidableEq, Repr

def Flaw.ofRefusal (text : List Char) (r : Refusal) : Flaw :=
  ⟨Toml.positionOf text r.place, r.reason⟩

def Flaw.message (f : Flaw) : String :=
  "TOML parse error at line " ++ f.position.line.repr ++ ", column " ++ f.position.column.repr ++
    match f.reason with
    | some reason => "\n" ++ reason ++ "\n"
    | none => "\n"

def ofText (text : List Char) : Except Flaw Settings :=
  let settings := do (← Toml.read text).foldlM change initial
  settings.mapError (.ofRefusal text)

inductive Error where
  | unreadable (path : String) (e : IoError)
  | invalid (path : String) (f : Flaw)
deriving DecidableEq, Repr

/-- The file and what is wrong with it, and that once more. -/
def Error.message : Error → String
  | unreadable path e =>
    "failed to read config file at " ++ path ++ ": " ++ e.message ++ ": " ++ e.message
  | invalid path f =>
    "failed to parse config file at " ++ path ++ ": " ++ f.message ++ ": " ++ f.message

/-- The file in the working folder. -/
def fileName : String := "tfd.toml"

variable {m : Type → Type} [Monad m]

def ofFile (sys : System m) (path : String) : m (Except Error Settings) := do
  match ← sys.readFile path with
  | .error e => return .error (.unreadable path e)
  | .ok text => return (ofText text.toList).mapError (.invalid path)

/-- A named file must be there. -/
def load (sys : System m) (path : Option String) : m (Except Error Settings) := do
  match path with
  | some path => ofFile sys path
  | none => if ← sys.isThere fileName then ofFile sys fileName else return .ok initial

end Settings

end LiveDoc
