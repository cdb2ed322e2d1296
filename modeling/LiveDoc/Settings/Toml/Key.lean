import LiveDoc.Settings.Toml.Text

/-!
Keys: words or texts in quotes, and paths of them with dots in between.
-/
namespace LiveDoc.Toml

open Reader

structure Key where
  name : List Char
  place : Place

def isBareKey (c : Char) : Bool := c.isAlphanum || c = '_' || c = '-'

/-- A character as it is written between double quotes. -/
def escaped (c : Char) : List Char :=
  match c with
  | '\x08' => ['\\', 'b']
  | '\t' => ['\\', 't']
  | '\n' => ['\\', 'n']
  | '\x0c' => ['\\', 'f']
  | '\x0d' => ['\\', 'r']
  | '"' => ['\\', '"']
  | '\\' => ['\\', '\\']
  | c =>
    if isShown c then [c]
    else '\\' :: 'u' :: '0' :: '0' :: Nat.digitChar (c.toNat / 16) ::
      [(Nat.digitChar (c.toNat % 16)).toUpper]

/-- A key as it is written in a document: in quotes unless it is a word. -/
def Key.shown (k : Key) : String :=
  if k.name.isEmpty || ! k.name.all isBareKey then
    "\"" ++ String.ofList (k.name.flatMap escaped) ++ "\""
  else String.ofList k.name

def readName : Reader (List Char) := do
  match ← next? with
  | some '"' => readBasic
  | some '\'' => readLiteral
  | _ => takeSome isBareKey

def readKey : Reader Key := do
  skipBlanks
  let (place, name) ← placed readName
  skipBlanks
  return ⟨name, place⟩

/-- A path of keys leads less deep than this. -/
def pathLimit : Nat := 80

/-- The keys of a path before its last one, and that one. -/
def readPath : Reader (List Key × Key) := do
  let start ← get
  let first ← readKey
  let others ← many do
    expectChar '.'
    readKey
  if others.length + 1 < pathLimit then
    return ((first :: others).dropLast, others.getLast?.getD first)
  else failAt start

end LiveDoc.Toml
