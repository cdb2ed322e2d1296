import LiveDoc.Document.Tree
import LiveDoc.Text.Printable

/-!
The tree of a document written out for a reader, one part to a line and each level indented by
four spaces. Texts stand in double quotes, and characters that cannot be shown are escaped.
-/
namespace LiveDoc.Document

/-- A tree of named parts. -/
inductive Outline where
  | atom (text : String)
  | record (name : String) (fields : List (String × Outline))
  | tagged (name : String) (inner : Outline)
  | list (items : List Outline)

namespace Outline

def indented (lines : List String) : List String := lines.map ("    " ++ ·)

def afterFirst (start : String) : List String → List String
  | [] => [start]
  | first :: rest => (start ++ first) :: rest

def withComma : List String → List String
  | [] => [","]
  | [last] => [last ++ ","]
  | line :: rest => line :: withComma rest

/-- A part on lines of its own. -/
def part (lines : List String) : List String := indented (withComma lines)

mutual

def lines : Outline → List String
  | atom text => [text]
  | record name fields => (name ++ " \x7b") :: fieldLines fields ++ ["\x7d"]
  | tagged name inner => (name ++ "(") :: part inner.lines ++ [")"]
  | list [] => ["[]"]
  | list items => "[" :: itemLines items ++ ["]"]

def fieldLines : List (String × Outline) → List String
  | [] => []
  | (name, o) :: rest => part (afterFirst (name ++ ": ") o.lines) ++ fieldLines rest

def itemLines : List Outline → List String
  | [] => []
  | o :: rest => part o.lines ++ itemLines rest

end

def option : Option Outline → Outline
  | none => atom "None"
  | some o => tagged "Some" o

end Outline

def escapedChar (c : Char) : String :=
  match c with
  | '\x00' => "\\0"
  | '\t' => "\\t"
  | '\r' => "\\r"
  | '\n' => "\\n"
  | '"' => "\\\""
  | '\\' => "\\\\"
  | c =>
    if Text.isPrintable c then String.singleton c
    else "\\u\x7b" ++ String.ofList (Nat.toDigits 16 c.toNat) ++ "\x7d"

def quotedText (text : List Char) : Outline :=
  .atom ("\"" ++ String.join (text.map escapedChar) ++ "\"")

def numberOutline (n : Nat) : Outline := .atom n.repr

def spanOutline (s : Span) : Outline := .atom (s.start.repr ++ ".." ++ s.stop.repr)

def Header.outline (h : Header) : Outline :=
  .record "Header"
    [("span", spanOutline h.span), ("raw", quotedText h.raw), ("body", quotedText h.bodyText)]

def Content.outline (c : Content) : Outline :=
  let place := [("span", spanOutline c.span), ("raw", quotedText c.raw)]
  match c with
  | .code opening body closing =>
    .tagged "ExecCode" (.record "ExecCode"
      (place ++ [("code", quotedText (rawOf body)),
        ("code_span", spanOutline ⟨opening.stop, closing.start⟩)]))
  | .text _ _ => .tagged "TextRun" (.record "TextRun" place)

def HeadingStyle.name : HeadingStyle → String
  | atx => "Atx"
  | setext => "Setext"

def Heading.outline (h : Heading) : Outline :=
  .record "Heading"
    [("level", numberOutline h.level), ("title", quotedText h.title.toList),
      ("style", .atom h.style.name), ("span", spanOutline h.span), ("raw", quotedText h.raw)]

def Section.outline (s : Section) : Outline :=
  .record "Section"
    [("heading", s.heading.outline), ("children", .list (s.children.map Content.outline)),
      ("span", spanOutline s.span), ("raw", quotedText s.raw)]

def introOutline (d : Document) : Outline :=
  .record "Intro"
    [("span", spanOutline d.introSpan), ("raw", quotedText d.introRaw),
      ("children", .list (d.intro.map Content.outline))]

def outline (d : Document) : Outline :=
  .record "Document"
    [("header", .option (d.header.map Header.outline)), ("intro", introOutline d),
      ("sections", .list (d.sections.map Section.outline))]

/-- The whole tree as a text. -/
def dump (d : Document) : String := String.join (d.outline.lines.map (· ++ "\n"))

end LiveDoc.Document
