import LiveDoc.Markdown.Definition
import LiveDoc.Markdown.Inline
import LiveDoc.Text.WhiteSpace

/-!
Titles of headings. The raw title is read as the content of a Markdown heading and reduced to
its text, in which every run of white space becomes one blank. A title of markup only, which
leaves no text, stays as it is written. The heading ends at a carriage return; the lines behind it
only define the labels of links in it.
-/
namespace LiveDoc.Document

/-- The words of a text with one blank between them. -/
def normalizeTitle (text : List Char) : List Char :=
  ((Text.words text).intersperse [' ']).flatten

/--
The content of the line of a heading: a closing sequence of `#` does not belong to it. The
sequence has a blank in front of it unless it is all there is.
-/
def headingContent (raw : List Char) : List Char :=
  let line := (raw.takeWhile (· ≠ '\r')).reverse.dropWhile (· = ' ')
  let beforeHashes := line.dropWhile (· = '#')
  match beforeHashes with
  | [] => []
  | ' ' :: _ => (beforeHashes.dropWhile (· = ' ')).reverse
  | _ => line.reverse

/-- What is met when a Markdown text is read, as far as a heading can hold it. -/
inductive HeadingEvent where
  | headingStart
  | headingEnd
  | text (s : List Char)
  | code (s : List Char)
  | softBreak
  | hardBreak
  /-- Emphasis, links and the like begin or end, and HTML. -/
  | other

/-- What an event inside a heading adds to its text. -/
def HeadingEvent.added : HeadingEvent → List Char
  | text s => s
  | code s => s
  | softBreak => [' ']
  | hardBreak => [' ']
  | _ => []

/-- The text of a heading up to its end; `inside` says that it has begun. -/
def headingText (inside : Bool) : List HeadingEvent → List Char
  | [] => []
  | .headingStart :: rest => headingText true rest
  | .headingEnd :: _ => []
  | event :: rest => (if inside then event.added else []) ++ headingText inside rest

/-- The title that the events of a heading give; the raw one is there as a last resort. -/
def titleOfEvents (raw : List Char) (events : List HeadingEvent) : List Char :=
  let title := normalizeTitle (headingText false events)
  if title.isEmpty then normalizeTitle raw else title

/--
How many bytes of defined targets the links of a heading may take: as many as the heading itself
has with its `#` and a blank, and a hundred thousand in any case.
-/
def targetRoom (text : List Char) : Nat := max (2 + (String.ofList text).utf8ByteSize) 100000

/-- What is met in the heading with the given title: its text, as one piece. -/
def headingEvents (raw : List Char) : List HeadingEvent :=
  let text := Text.trim raw
  let definitions := Markdown.definitionsIn (Markdown.afterLine text)
  [.headingStart,
    .text (Markdown.inlineText definitions (targetRoom text) (headingContent text)), .headingEnd]

def plainTitle (raw : List Char) : List Char := titleOfEvents raw (headingEvents raw)

end LiveDoc.Document
