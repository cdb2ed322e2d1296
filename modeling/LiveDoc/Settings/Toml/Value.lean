import LiveDoc.Settings.Toml.Numeral
import LiveDoc.Settings.Toml.Table

/-!
Values: texts, truth values, numbers, dates, arrays, and tables in braces. An array may be spread
over lines, a table in braces may not.
-/
namespace LiveDoc.Toml

open Reader

def readTruth (word : String) (b : Bool) : Reader Item := do
  commit (readWord word)
  return .bool b

/-- A value without brackets, by its first character. -/
def readScalar (first : Char) : Reader Item := do
  if first = '"' || first = '\'' then return .text (← readText)
  else if first = 't' then readTruth "true" true
  else if first = 'f' then readTruth "false" false
  else
    if first = 'i' then readWord "inf"
    else if first = 'n' then readWord "nan"
    else if first = '_' then readInteger
    else if first = '.' then readFloat
    else if first = '+' || first = '-' || first.isDigit then readNumeral
    else fail
    return .other

/-- A line break inside of an array, with a comment in front of it if there is one. -/
def skipLineInside : Reader Unit := do
  match ← next? with
  | some '#' =>
    skipComment
    newline
  | _ => newline

/-- Blanks, comments and line breaks between the values of an array. -/
def skipSpread : (fuel : List Char) → Reader Unit
  | [] => return
  | _ :: fuel => do
    skipBlanks
    match ← next? with
    | none => return
    | some c =>
      if c = '#' || c = '\n' || c = '\x0d' then
        skipLineInside
        skipSpread fuel

def skipAround {α : Type} (read : Reader α) : Reader α := do
  skipSpread (← get)
  let a ← read
  skipSpread (← get)
  return a

def readArray (read : Reader Item) : Reader Item := do
  expectChar '['
  commit do
    let items ← separated ',' (skipAround read)
    if ! items.isEmpty then
      let _ ← maybe (expectChar ',')
    skipSpread (← get)
    expectChar ']'
    return .array items.isEmpty

/-- A key and its value, and the path in front of the key. -/
def readPair (read : Reader Item) : Reader (List Key × Entry Item) := do
  let (path, key) ← readPath
  commit do
    expectChar '='
    skipBlanks
    let (place, item) ← placed read
    return (path, ⟨key, some place, item⟩)

/-- A table in braces; what is defined twice in it is a failure behind the first brace. -/
def readBraces (read : Reader Item) : Reader Item := do
  expectChar '\x7b'
  commit do
    let entries ← checked do
      let pairs ← separated ',' do
        let pair ← readPair read
        skipBlanks
        return pair
      skipBlanks
      let table : Except Conflict Table :=
        pairs.foldlM (fun (t : Table) (path, e) => t.define none e path) []
      return table.mapError Conflict.reason?
    expectChar '\x7d'
    return .table .braces entries

/-- How deep arrays and tables in braces may nest. -/
def maxDepth : Nat := 79

/-- A value in which brackets nest no deeper than `depth`. -/
def readValueWithin : (depth : Nat) → Reader Item
  | 0 => do
    match ← next? with
    | none => fail
    | some c => if c = '[' || c = '\x7b' then commit fail else readScalar c
  | depth + 1 => do
    match ← next? with
    | none => fail
    | some '[' => readArray (readValueWithin depth)
    | some '\x7b' => readBraces (readValueWithin depth)
    | some c => readScalar c

def readValue : Reader Item := readValueWithin maxDepth

end LiveDoc.Toml
