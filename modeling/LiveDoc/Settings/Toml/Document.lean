import LiveDoc.Settings.Toml.Value

/-!
Reading of a document in the TOML format, line by line: pairs of a key and a value, and headers
that open tables for the pairs below them.
-/
namespace LiveDoc.Toml

open Reader

/-- All that is defined, and the path of keys to the table that the last header opened. -/
structure Document where
  table : Table
  path : List Key

namespace Document

def initial : Document := ⟨[], []⟩

/-- A line with a key and a value; what is defined already is a failure where the line begins. -/
def readPairLine (d : Document) : Reader Document := checked do
  let (path, e) ← readPair readValue
  closeLine
  let table := d.table.within (·.define (some d.path) e path) d.path
  return (table.map fun table => { d with table }).mapError Conflict.reason?

/-- A header, between double brackets if it opens one of several tables. -/
def readHeader (d : Document) : Reader Document := checked do
  let place ← get
  let isElement := "[[".toList.isPrefixOf place
  if place.length = 1 then fail
  expect (if isElement then "[[".toList else "[".toList)
  let (path, key) ← readPath
  expect (if isElement then "]]".toList else "]".toList)
  closeLine
  let change := if isElement then Table.openElement key place else Table.openTable key place
  let table := d.table.within change path
  return (table.map fun table => ⟨table, path ++ [key]⟩).mapError Conflict.reason?

def readLine (d : Document) (first : Char) : Reader Document := do
  if first = '#' then
    skipComment
    endLine
    return d
  else if first = '\n' || first = '\x0d' then
    if (← maybe newline).isNone then fail
    return d
  else if first = '[' then readHeader d
  else readPairLine d

def readLines (d : Document) : (fuel : List Char) → Reader Document
  | [] => return d
  | _ :: fuel => do
    skipBlanks
    match ← next? with
    | none => return d
    | some c => readLines (← readLine d c) fuel

end Document

def byteOrderMark : List Char := ['\ufeff']

/-- All that a document defines, or why and where it cannot be read on. -/
def read (text : List Char) : Except Refusal Table :=
  let body := if byteOrderMark.isPrefixOf text then text.drop 1 else text
  match (Document.readLines .initial body).run body with
  | .ok (d, _) => .ok d.table
  | .error f => .error f.toRefusal

/-- A line and a column, both counted from one. -/
structure Position where
  line : Nat
  column : Nat
deriving DecidableEq, Repr

/--
The position of a place in its text. A column counts characters, but bytes in front of a character
above ASCII; the end of the text is one column behind the last character.
-/
def positionOf (text : List Char) (place : Place) : Position :=
  let before := text.take (text.length - place.length)
  -- A line break at the end of the text belongs to the last line.
  let earlier := if place.isEmpty then before.dropLast else before
  let line := before.drop (earlier.length - (earlier.reverse.takeWhile (· != '\n')).length)
  let size := match place with
    | c :: _ => if c.toNat < 0x80 then line.length else (String.ofList line).utf8ByteSize
    | [] => line.length
  ⟨earlier.count '\n' + 1, size + 1⟩

end LiveDoc.Toml
