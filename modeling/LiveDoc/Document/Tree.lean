import LiveDoc.Document.Line

/-!
The tree of a document. Every node holds the lines it is made of, so its span and its raw text
are read off these lines, and the lines of a document in order are those of its nodes in order.
-/
namespace LiveDoc.Document

/-- The lines as they are written. -/
def rawOf (lines : List Line) : List Char := lines.flatMap Line.raw

/-- The block in front of a document that two separators enclose. -/
structure Header where
  opening : Line
  body : List Line
  closing : Line
deriving DecidableEq

inductive Content where
  /-- An executable block: its fences and the lines between them. -/
  | code (opening : Line) (body : List Line) (closing : Line)
  /-- A paragraph, or a run of blank lines. -/
  | text (first : Line) (more : List Line)
deriving DecidableEq

inductive HeadingStyle where
  /-- Hashes in front of the title. -/
  | atx
  /-- A line of marks under the title. -/
  | setext
deriving DecidableEq, Repr

structure Heading where
  level : Nat
  title : String
  style : HeadingStyle
  first : Line
  underline : Option Line
deriving DecidableEq

structure Section where
  heading : Heading
  children : List Content
deriving DecidableEq

end Document

open Document in
/-- A document whose first line starts at `start`: a byte order mark may stand before it. -/
structure Document where
  start : Nat
  header : Option Header
  intro : List Content
  sections : List Section
deriving DecidableEq

namespace Document

namespace Header

def lines (h : Header) : List Line := h.opening :: h.body ++ [h.closing]

def span (h : Header) : Span := ⟨h.opening.start, h.closing.stop⟩

def raw (h : Header) : List Char := rawOf h.lines

/-- The text between the separators. -/
def bodyText (h : Header) : List Char := rawOf h.body

end Header

namespace Content

def lines : Content → List Line
  | code opening body closing => opening :: body ++ [closing]
  | text first more => first :: more

def start : Content → Nat
  | code opening _ _ => opening.start
  | text first _ => first.start

def stop : Content → Nat
  | code _ _ closing => closing.stop
  | text first more => (more.getLast?.getD first).stop

def span (c : Content) : Span := ⟨c.start, c.stop⟩

def raw (c : Content) : List Char := rawOf c.lines

def isCode : Content → Bool
  | code .. => true
  | text .. => false

def isBlank (c : Content) : Bool := Text.isBlank c.raw

end Content

namespace Heading

def lines (h : Heading) : List Line := h.first :: h.underline.toList

def span (h : Heading) : Span := ⟨h.first.start, (h.underline.getD h.first).stop⟩

def raw (h : Heading) : List Char := rawOf h.lines

end Heading

/-- Where the nodes end that follow one another from `start` on. -/
def stopOf (start : Nat) (children : List Content) : Nat :=
  (children.getLast?.map Content.stop).getD start

namespace Section

def lines (s : Section) : List Line := s.heading.lines ++ s.children.flatMap Content.lines

def span (s : Section) : Span := ⟨s.heading.span.start, stopOf s.heading.span.stop s.children⟩

def raw (s : Section) : List Char := rawOf s.lines

end Section

/-- Where the part before the first heading starts. -/
def introStart (d : Document) : Nat := (d.header.map (·.span.stop)).getD d.start

def introSpan (d : Document) : Span := ⟨d.introStart, stopOf d.introStart d.intro⟩

def introRaw (d : Document) : List Char := rawOf (d.intro.flatMap Content.lines)

def lines (d : Document) : List Line :=
  (d.header.map Header.lines).getD [] ++ d.intro.flatMap Content.lines ++
    d.sections.flatMap Section.lines

/-- Neither content before a heading nor a heading. -/
def hasEmptyBody (d : Document) : Bool := d.intro.isEmpty && d.sections.isEmpty

/-- The pieces of content in order. -/
def contents (d : Document) : List Content := d.intro ++ d.sections.flatMap Section.children

/-- Any node of the tree; a part is a whole section with its heading. -/
inductive Node where
  | header (h : Header)
  | intro (d : Document)
  | part (s : Section)
  | heading (h : Heading)
  | content (c : Content)
deriving DecidableEq

inductive Node.Kind where
  | header
  | intro
  | part
  | heading
  | code
  | text
deriving DecidableEq, Repr

namespace Node

def kind : Node → Kind
  | header _ => .header
  | intro _ => .intro
  | part _ => .part
  | heading _ => .heading
  | content c => if c.isCode then .code else .text

def span : Node → Span
  | header h => h.span
  | intro d => d.introSpan
  | part s => s.span
  | heading h => h.span
  | content c => c.span

def raw : Node → List Char
  | header h => h.raw
  | intro d => d.introRaw
  | part s => s.raw
  | heading h => h.raw
  | content c => c.raw

def lines : Node → List Line
  | header h => h.lines
  | intro d => d.intro.flatMap Content.lines
  | part s => s.lines
  | heading h => h.lines
  | content c => c.lines

/-- The heading that gives the node its level and its title. -/
def heading? : Node → Option Heading
  | part s => some s.heading
  | heading h => some h
  | _ => none

end Node

def Section.nodes (s : Section) : List Node :=
  .part s :: .heading s.heading :: s.children.map .content

/-- All nodes, each before its children. The part before the first heading is always there. -/
def nodes (d : Document) : List Node :=
  d.header.toList.map .header ++ .intro d :: d.intro.map .content ++
    d.sections.flatMap Section.nodes

end LiveDoc.Document
