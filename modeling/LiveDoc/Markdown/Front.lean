import LiveDoc.Markdown.LinkTarget

/-!
The front of a line. Blanks are taken from it by columns: a tab reaches to the next of the columns
that are four apart, and what is not taken of it is left for later.
-/
namespace LiveDoc.Markdown

structure Front where
  rest : List Char
  /-- The characters since the begin of the line or since the last tab. -/
  column : Nat
  /-- The columns that are left of the last tab. -/
  pending : Nat

namespace Front

def ofLine (text : List Char) : Front := ⟨text, 0, 0⟩

/-- Takes blanks of at most `wanted` columns; gives what is missing of that. -/
def takeFrom (wanted column : Nat) : List Char → Nat × Front
  | [] => (wanted, ⟨[], column, 0⟩)
  | c :: rest =>
    if wanted = 0 then (0, ⟨c :: rest, column, 0⟩)
    else if c = ' ' then takeFrom (wanted - 1) (column + 1) rest
    else if c = '\t' then
      let width := 4 - column % 4
      if width ≤ wanted then takeFrom (wanted - width) 0 rest else (0, ⟨rest, 0, width - wanted⟩)
    else (wanted, ⟨c :: rest, column, 0⟩)

def takeBlanks (wanted : Nat) (f : Front) : Nat × Front :=
  if wanted < f.pending then (0, { f with pending := f.pending - wanted })
  else takeFrom (wanted - f.pending) f.column f.rest

/-- Takes characters of one column each. -/
def drop (n : Nat) (f : Front) : Front := { f with rest := f.rest.drop n, column := f.column + n }

/-- Takes all blanks. -/
def skipAll (f : Front) : Front :=
  { f with rest := f.rest.dropWhile fun c => c = ' ' || c = '\t', pending := 0 }

def atEnd (f : Front) : Bool :=
  match f.rest with
  | [] => true
  | c :: _ => c = '\x0d'

end Front

/-- The text behind a line of which only blanks are left. -/
def afterBlankLine (text : List Char) : Option (List Char) :=
  match skipBlanks text with
  | [] => some []
  | '\x0d' :: rest => some rest
  | _ => none

def isBlankLine (text : List Char) : Bool := (afterBlankLine text).isSome

/-- The text behind a line. -/
def afterLine (text : List Char) : List Char := (text.dropWhile (· ≠ '\x0d')).drop 1

end LiveDoc.Markdown
