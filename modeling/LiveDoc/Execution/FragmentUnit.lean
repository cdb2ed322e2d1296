import LiveDoc.Diagnostic
import LiveDoc.Document.Tree
import LiveDoc.Execution.Failure

/-!
The fragments that a document is run as. A block of code is run as it stands between its fences;
any other text becomes one statement that emits it. A failure of a fragment is shown in the
document: the line it happened on is marked in a listing of the lines that the fragment is from.
-/
namespace LiveDoc

/-- How a character is written inside the format string that emits it. -/
def inFormatString (c : Char) : List Char :=
  match c with
  | '\\' => ['\\', '\\']
  | '"' => ['\\', '"']
  | '\n' => ['\\', 'n']
  | '\r' => ['\\', 'r']
  | '{' => ['{', '{']
  | '}' => ['}', '}']
  | c => [c]

/-- A statement of one line that emits a text as it is. -/
def textStatement (text : List Char) : List Char :=
  "text(f\"".toList ++ text.flatMap inFormatString ++ "\", end=\"\")\n".toList

/-- A fragment and the node of the document that it is made from. -/
structure FragmentUnit where
  origin : Document.Node
  /-- The document's name and the line on which the node begins. -/
  name : String
  fragment : List Char
  /-- The newlines of the document in front of the node. -/
  linesBefore : Nat
  /-- The lines of the node in front of the fragment. -/
  linesSkipped : Nat
deriving DecidableEq

namespace FragmentUnit

def isCode (u : FragmentUnit) : Bool := u.origin.kind == .code

/-- The line of the document on which the node begins. -/
def firstLine (u : FragmentUnit) : Nat := u.linesBefore + 1

def nameAt (s : Source) (line : Nat) : String := "<" ++ s.name ++ ":" ++ line.repr ++ ">"

def ofFragment (s : Source) (origin : Document.Node) (fragment : List Char) (linesSkipped : Nat) :
    FragmentUnit :=
  let linesBefore := s.lineOffset origin.span.start
  ⟨origin, nameAt s (linesBefore + 1), fragment, linesBefore, linesSkipped⟩

def ofText (s : Source) (origin : Document.Node) : FragmentUnit :=
  ofFragment s origin (textStatement origin.raw) 0

def ofContent (s : Source) (c : Document.Content) : FragmentUnit :=
  match c with
  | .code _ body _ => ofFragment s (.content c) (Document.rawOf body) 1
  | .text _ _ => ofText s (.content c)

end FragmentUnit

/-- A failure in its place in the document. -/
structure FragmentError where
  failure : Failure
  /-- The name of the fragment that failed. -/
  unitName : String
  /-- The line of the document. -/
  line : Nat
  /-- The lines of the node with their numbers in the document. -/
  listing : String
  span : Span
  fileId : Nat
deriving DecidableEq

namespace FragmentError

/-- A line without its newline and a carriage return in front of that. -/
def shown (l : Document.Line) : List Char :=
  if l.ended && l.text.getLast? == some '\r' then l.text.dropLast else l.text

/-- A number behind spaces, in `width` columns. -/
def padded (width number : Nat) : String :=
  let digits := number.repr
  String.ofList (List.replicate (width - digits.length) ' ') ++ digits

def row (width marked number : Nat) (l : Document.Line) : String :=
  "  " ++ padded width number ++ (if number = marked then "|> " else "|  ") ++
    String.ofList (shown l)

/-- One row for each of the lines, which are numbered from `first` on. -/
def numberedListing (lines : List Document.Line) (first marked : Nat) : String :=
  let width := (first + (lines.length - 1)).repr.length
  "\n".intercalate (lines.zipIdx.map fun (l, i) => row width marked (first + i) l)

/-- A line outside of the node is moved to the nearest line of the node. -/
def ofFailure (s : Source) (u : FragmentUnit) (f : Failure) : FragmentError :=
  let lines := u.origin.lines
  let first := u.firstLine
  let last := first + (lines.length - 1)
  let line := max first (min (u.linesBefore + f.line + u.linesSkipped) last)
  { failure := f
    unitName := u.name
    line
    listing := numberedListing lines first line
    span := (s.lineSpan line).getD u.origin.span
    fileId := s.fileId }

def summary (e : FragmentError) : String := e.failure.kind.name ++ ": " ++ e.failure.text

def listingText (e : FragmentError) : String := "Code block (in document):\n" ++ e.listing

/-- Summary, place and listing. -/
def text (e : FragmentError) : String :=
  e.summary ++ " (line " ++ e.line.repr ++ " of " ++ e.unitName ++ ")\n\n" ++ e.listingText

def diagnostic (e : FragmentError) : Diagnostic :=
  { message := e.summary
    labels := [⟨e.fileId, e.span, e.failure.exception ++ " raised here"⟩]
    notes := [e.listingText] }

end FragmentError

end LiveDoc
