import LiveDoc.Source

/-!
Errors as they are shown to a user: a message, places in the document with a remark each, and
notes. All of them have the severity of an error, and every label is the primary one.
-/
namespace LiveDoc

structure Label where
  fileId : Nat
  span : Span
  message : String
deriving DecidableEq

structure Diagnostic where
  message : String
  labels : List Label
  notes : List String
deriving DecidableEq

namespace Diagnostic

/-- How diagnostics on a document are shown. -/
structure Style where
  documentName : String
  colored : Bool

/-- The message. With colors there are escape sequences around its two parts. -/
def heading (d : Diagnostic) (style : Style) : String :=
  if style.colored then
    "\x1b[0m\x1b[1m\x1b[38;5;9merror\x1b[0m\x1b[1m: " ++ d.message ++ "\x1b[0m"
  else "error: " ++ d.message

/-- The place of a label. -/
def place (style : Style) (s : Source) (l : Label) : String :=
  "\n  ┌─ " ++ style.documentName ++ ":" ++ (s.lineNumber l.span.start).repr ++ ":" ++
    (s.columnNumber l.span.start).repr

/-- A note, whose lines are set off from the message. -/
def noteText (note : String) : String :=
  let setOff (c : Char) : List Char := if c = '\n' then "\n    ".toList else [c]
  "\n  = " ++ String.ofList (note.toList.flatMap setOff)

/-- The message, the places of the labels and the notes, on lines of their own. -/
def text (d : Diagnostic) (style : Style) (s : Source) : String :=
  d.heading style ++ String.join (d.labels.map (place style s)) ++
    String.join (d.notes.map noteText)

end Diagnostic

end LiveDoc
