import LiveDoc.Decimal.Reading
import LiveDoc.Markdown.Angle
import LiveDoc.Markdown.Front

/-!
What a block begins with, for a text at a place in a line. Lines end with a carriage return. Code
and HTML would only end at a line feed; since there is none, they take all the text behind them.
-/
namespace LiveDoc.Markdown

/-- A line of three marks or more of one kind, with blanks between them. -/
def isRule (text : List Char) : Bool :=
  let line := text.takeWhile (· ≠ '\x0d')
  match line with
  | [] => false
  | c :: _ =>
    ['*', '-', '_'].contains c && line.all (fun d => d = c || d = ' ' || d = '\t') &&
      3 ≤ line.count c

def isHeading (text : List Char) : Bool :=
  let marks := (text.takeWhile (· = '#')).length
  1 ≤ marks && marks ≤ 6 && (text.drop marks).head?.all fun c =>
    c = ' ' || (0x09 ≤ c.toNat && c.toNat ≤ 0x0d)

/-- A line of one mark that makes a heading of the lines before it. -/
def isUnderline (text : List Char) : Bool :=
  match text with
  | [] => false
  | c :: _ => (c = '=' || c = '-') && isBlankLine (text.dropWhile (· = c))

/-- Three backticks or more, behind which there are no others, or three tildes. -/
def isFence (text : List Char) : Bool :=
  match text with
  | [] => false
  | c :: _ =>
    let marks := (text.takeWhile (· = c)).length
    3 ≤ marks && (c = '~' || (c = '`' && ! (text.drop marks).contains '`'))

/-! ### HTML -/

/-- Tags whose content is not read. -/
def rawTags : List String := ["pre", "style", "script", "textarea"]

def blockTags : List String :=
  ["address", "article", "aside", "base", "basefont", "blockquote", "body", "caption", "center",
   "col", "colgroup", "dd", "details", "dialog", "dir", "div", "dl", "dt", "fieldset",
   "figcaption", "figure", "footer", "form", "frame", "frameset", "h1", "h2", "h3", "h4", "h5",
   "h6", "head", "header", "hr", "html", "iframe", "legend", "li", "link", "main", "menu",
   "menuitem", "nav", "noframes", "ol", "optgroup", "option", "p", "param", "search", "section",
   "summary", "table", "tbody", "td", "tfoot", "th", "thead", "title", "tr", "track", "ul"]

def lowerName (name : List Char) : String := String.ofList (name.map Char.toLower)

/-- One of the tags whose content is not read, behind its angle bracket. -/
def isRawTag (text : List Char) : Bool :=
  rawTags.any fun tag =>
    lowerName (text.take tag.length) = tag && (text.drop tag.length).head?.all fun c =>
      c = ' ' || c = '>' || (0x09 ≤ c.toNat && c.toNat ≤ 0x0d)

/-- A comment, an instruction, a declaration or character data, behind the angle bracket. -/
def isMarkupDeclaration : List Char → Bool
  | '?' :: _ => true
  | '!' :: '-' :: '-' :: _ => true
  | '!' :: rest => "[CDATA[".toList.isPrefixOf rest || rest.head?.any Char.isAlpha
  | _ => false

/-- One of the tags that make blocks, opened or closed, behind its angle bracket. -/
def isBlockTag (text : List Char) : Bool :=
  let inside := if text.head? = some '/' then text.drop 1 else text
  let name := inside.takeWhile Char.isAlphanum
  let after := inside.drop name.length
  blockTags.contains (lowerName name) &&
    (after.head?.all (fun c => [' ', '\t', '\x0d', '>'].contains c) || "/>".toList.isPrefixOf after)

/-- HTML that ends a paragraph. -/
def isHtmlStart : List Char → Bool
  | '<' :: rest => isRawTag rest || isMarkupDeclaration rest || isBlockTag rest
  | _ => false

/-- A line that holds any tag alone. -/
def isTagLine : List Char → Bool
  | '<' :: rest => (afterTag (rest.takeWhile (· ≠ '\x0d'))).any isBlankLine
  | _ => false

/-! ### Items of lists -/

/-- The number of an item and the length of its mark; an item without number has the number one. -/
def itemMark? (text : List Char) : Option (Nat × Nat) :=
  match text with
  | [] => none
  | c :: _ =>
    if ['-', '+', '*'].contains c then some (1, 1)
    else
      let digits := text.takeWhile Char.isDigit
      match text.drop digits.length with
      | mark :: _ =>
        if (mark = '.' || mark = ')') && ! digits.isEmpty && digits.length ≤ 9 then
          some (Decimal.digitsToNat digits, digits.length + 1)
        else none
      | [] => none

/-- Takes the mark of an item that begins at an indent; gives the indent of what is in the item. -/
def takeItem (indent : Nat) (f : Front) : Option (Nat × Front) := do
  let (_, width) ← itemMark? f.rest
  if isRule f.rest then none
  let (missing, front) := (f.drop width).takeBlanks 1
  if missing ≠ 0 && ! front.atEnd then none
  let least := indent + width + 1
  let (missing, inside) := front.takeBlanks 4
  if isBlankLine front.rest || missing = 0 then some (least, front)
  else some (least + (4 - missing), inside)

/--
An item that ends a paragraph, which it only does inside of the blocks around it if it has the
number one and text on its line or on the next.
-/
def isItemStart (inside : Bool) (text : List Char) : Bool :=
  match itemMark? text with
  | none => false
  | some (number, width) =>
    let after := text.drop width
    let isSeparate := after.head?.all fun c => c = ' ' || c = '\t' || c = '\x0d'
    let isEmpty := (afterBlankLine after).any isBlankLine
    isSeparate && (! inside || (number = 1 && ! isEmpty))

/-- What ends a paragraph, for a line that is `inside` of all blocks around the paragraph or not. -/
def endsParagraph (inside : Bool) (text : List Char) : Bool :=
  text.head?.all (· = '\x0d') || isRule text || isHeading text || isFence text ||
    text.head? = some '>' || isItemStart inside text || isHtmlStart text

end LiveDoc.Markdown
