import LiveDoc.Diagnostic
import LiveDoc.Document.Title
import LiveDoc.Document.Tree

/-!
Reading a document. The lines are grouped from the first to the last: a header if the first line
opens one, content up to the first heading, and then each heading with the content up to the next.
A heading is looked for before a fence and a fence before text, and a text run holds lines of one
blankness. Only a header or a fence that is never closed makes reading fail.
-/
namespace LiveDoc.Document

/-- Why a document cannot be read, with the line that opens what is never closed. -/
inductive StructureError where
  | emptyInput
  | unterminatedHeader (opening : Span)
  | unterminatedFence (opening : Span)
deriving DecidableEq, Repr

namespace StructureError

def message : StructureError → String
  | emptyInput => "empty document"
  | unterminatedHeader _ => "unterminated document header"
  | unterminatedFence _ => "unterminated executable code block"

def span : StructureError → Span
  | emptyInput => ⟨0, 0⟩
  | unterminatedHeader opening => opening
  | unterminatedFence opening => opening

def notes : StructureError → List String
  | emptyInput => []
  | unterminatedHeader _ =>
    ["a header opened with `---` must be closed by another `---` line"]
  | unterminatedFence _ => ["close the block with a line containing only ``` or ~~~"]

def diagnostic (fileId : Nat) (e : StructureError) : Diagnostic :=
  { message := e.message
    labels := match e with
      | emptyInput => []
      | _ => [⟨fileId, e.span, "opened here"⟩]
    notes := e.notes }

end StructureError

/-- What makes the first of some lines a heading: level, raw title and the underline, if any. -/
structure HeadingMark where
  level : Nat
  rawTitle : List Char
  underline : Option Line

def headingMark? : List Line → Option HeadingMark
  | [] => none
  | l :: rest =>
    match hashHeading? l.text with
    | some (level, title) => some ⟨level, title, none⟩
    | none =>
      match Text.isBlank l.text, rest with
      | false, u :: _ => (underlineLevel? u.text).map fun level => ⟨level, l.text, some u⟩
      | _, _ => none

def startsHeading (lines : List Line) : Bool := (headingMark? lines).isSome

/-- The lines before the first one that `p` picks, that line, and the lines behind it. -/
def breakAt (p : Line → Bool) : List Line → Option (List Line × Line × List Line)
  | [] => none
  | l :: rest =>
    if p l then some ([], l, rest)
    else (breakAt p rest).map fun (before, found, after) => (l :: before, found, after)

theorem eq_append_of_breakAt {p : Line → Bool} {lines before after : List Line} {found : Line}
    (h : breakAt p lines = some (before, found, after)) : lines = before ++ found :: after := by
  induction lines generalizing before with
  | nil => simp [breakAt] at h
  | cons l rest ih =>
    rw [breakAt] at h
    split at h
    · simp_all
    · obtain ⟨⟨b, f, a⟩, hr, he⟩ := Option.map_eq_some_iff.1 h
      simp only [Prod.mk.injEq] at he
      obtain ⟨rfl, rfl, rfl⟩ := he
      simp [ih hr]

/-- The lines that go on a text run, and those behind it. -/
def takeTextRun (blank : Bool) : List Line → List Line × List Line
  | [] => ([], [])
  | l :: rest =>
    if Text.isBlank l.text != blank || isCodeStart l.text || startsHeading (l :: rest) then
      ([], l :: rest)
    else
      let (run, after) := takeTextRun blank rest
      (l :: run, after)

theorem takeTextRun_append (blank : Bool) (lines : List Line) :
    (takeTextRun blank lines).1 ++ (takeTextRun blank lines).2 = lines := by
  induction lines with
  | nil => rfl
  | cons l rest ih =>
    rw [takeTextRun]
    split
    · rfl
    · simpa using ih

/-- The content up to the next heading, and the lines from there on. -/
def takeContents : List Line → Except StructureError (List Content × List Line)
  | [] => .ok ([], [])
  | l :: rest =>
    if startsHeading (l :: rest) then .ok ([], l :: rest)
    else if isCodeStart l.text then
      match _h : breakAt (isCodeEnd ·.text) rest with
      | none => .error (.unterminatedFence ⟨l.start, l.textStop⟩)
      | some (body, closing, after) => do
        let (children, left) ← takeContents after
        .ok (.code l body closing :: children, left)
    else do
      let run := takeTextRun (Text.isBlank l.text) rest
      let (children, left) ← takeContents run.2
      .ok (.text l run.1 :: children, left)
termination_by lines => lines.length
decreasing_by
  · have := congrArg List.length (eq_append_of_breakAt _h)
    simp at this ⊢
    omega
  · have := congrArg List.length (takeTextRun_append (Text.isBlank l.text) rest)
    simp at this ⊢
    omega

/-- The heading at the head of some lines, and the lines behind it. -/
def takeHeading? : List Line → Option (Heading × List Line)
  | [] => none
  | l :: rest =>
    (headingMark? (l :: rest)).map fun mark =>
      let title := String.ofList (plainTitle mark.rawTitle)
      match mark.underline with
      | none => (⟨mark.level, title, .atx, l, none⟩, rest)
      | some u => (⟨mark.level, title, .setext, l, some u⟩, rest.drop 1)

/-- The sections of some lines that begin with a heading; `fuel` bounds their number. -/
def takeSections : (fuel : Nat) → List Line → Except StructureError (List Section)
  | 0, _ => .ok []
  | fuel + 1, lines =>
    match takeHeading? lines with
    | none => .ok []
    | some (heading, rest) => do
      let (children, left) ← takeContents rest
      let sections ← takeSections fuel left
      .ok (⟨heading, children⟩ :: sections)

/-- The header at the head of some lines, if the first one opens it, and the lines behind it. -/
def takeHeader : List Line → Except StructureError (Option Header × List Line)
  | [] => .ok (none, [])
  | l :: rest =>
    if isHeaderSeparator l.text then
      match breakAt (isHeaderSeparator ·.text) rest with
      | none => .error (.unterminatedHeader ⟨l.start, l.textStop⟩)
      | some (body, closing, after) => .ok (some ⟨l, body, closing⟩, after)
    else .ok (none, l :: rest)

/-- Reads lines of which the first starts at `start`. -/
def ofLines (start : Nat) (lines : List Line) : Except StructureError Document := do
  let (header, body) ← takeHeader lines
  let (intro, rest) ← takeContents body
  let sections ← takeSections (rest.length + 1) rest
  .ok ⟨start, header, intro, sections⟩

/-- The mark that may stand in front of a text. -/
def byteOrderMark : Char := Char.ofNat 0xfeff

/-- Where the text proper starts. -/
def bodyStart (text : List Char) : Nat :=
  if text.head? = some byteOrderMark then byteOrderMark.utf8Size else 0

def bodyLines (text : List Char) : List Line :=
  splitLines (bodyStart text) (if text.head? = some byteOrderMark then text.drop 1 else text)

def parse (text : List Char) : Except StructureError Document :=
  if text.isEmpty then .error .emptyInput else ofLines (bodyStart text) (bodyLines text)

end LiveDoc.Document
