/-!
A document's text and its lines. Offsets count the bytes of UTF-8 and lines are numbered from one;
a line ends in front of its newline. `lineOffset` finds the line of an offset among the starts of
the lines: the number of newlines before the offset.
-/
namespace LiveDoc

/-- The bytes from `start` up to `stop`, which is excluded. -/
structure Span where
  start : Nat
  stop : Nat
deriving DecidableEq, Repr

/-- The number of bytes of a text. -/
def byteLength : List Char → Nat
  | [] => 0
  | c :: rest => c.utf8Size + byteLength rest

structure Source where
  name : String
  text : String
  fileId : Nat
deriving DecidableEq

namespace Source

/-- The offsets behind the newlines of a text that begins at `offset`. -/
def startsFrom (offset : Nat) : List Char → List Nat
  | [] => []
  | c :: rest =>
    let next := offset + c.utf8Size
    if c = '\n' then next :: startsFrom next rest else startsFrom next rest

/-- Where each line begins. -/
def lineStarts (s : Source) : List Nat := 0 :: startsFrom 0 s.text.toList

def lineCount (s : Source) : Nat := s.lineStarts.length

/-- The place of an offset among some that ascend, or else the place where it would stand. -/
def search (starts : List Nat) (offset : Nat) : Except Nat Nat :=
  let place := (starts.takeWhile (· < offset)).length
  if starts[place]? = some offset then .ok place else .error place

/-- A line begins at the offset, or else the line that begins last in front of it goes on there. -/
def lineOffset (s : Source) (offset : Nat) : Nat :=
  match search s.lineStarts offset with
  | .ok place => place
  | .error place => place - 1

def lineNumber (s : Source) (offset : Nat) : Nat := s.lineOffset offset + 1

/-- The column of an offset, for a text that begins at `here` in a column of its own. -/
def columnFrom (offset here column : Nat) : List Char → Nat
  | [] => column
  | c :: rest =>
    if offset ≤ here then column
    else columnFrom offset (here + c.utf8Size) (if c = '\n' then 1 else column + 1) rest

/-- The characters of a line are counted from one. -/
def columnNumber (s : Source) (offset : Nat) : Nat := columnFrom offset 0 1 s.text.toList

/-- The bytes of a line without its newline. -/
def lineSpan (s : Source) (line : Nat) : Option Span :=
  if line = 0 then none
  else
    (s.lineStarts[line - 1]?).map fun start =>
      ⟨start, match s.lineStarts[line]? with
        | some next => next - 1
        | none => s.text.utf8ByteSize⟩

end Source

end LiveDoc
