/-!
What an opening angle bracket can begin inside a line: an autolink, that is an address between
angle brackets, or a piece of HTML. Each function takes the text after the bracket and gives the
text after the closing one, or nothing if the bracket is ordinary text.
-/
namespace LiveDoc.Markdown

def isBlankInLine (c : Char) : Bool :=
  c = ' ' || c = '\t' || c.toNat == 0x0b || c.toNat == 0x0c

/-- The text behind the first occurrence of `close`. -/
def afterFirst (close : List Char) : List Char → Option (List Char)
  | [] => none
  | c :: rest =>
    if close.isPrefixOf (c :: rest) then some ((c :: rest).drop close.length)
    else afterFirst close rest

/-! ### Autolinks -/

def isSchemeChar (c : Char) : Bool :=
  c.isAlphanum || c = '.' || c = '-' || c = '+'

/-- A scheme of 2 to 32 characters, a colon, and no blank or angle bracket up to the closing one. -/
def afterAddress (text : List Char) : Option (List Char) :=
  let scheme := text.takeWhile isSchemeChar
  match text.head?, text.drop scheme.length with
  | some first, ':' :: rest =>
    if first.isAlpha && 2 ≤ scheme.length && scheme.length ≤ 32 then
      match rest.dropWhile fun c => 0x20 < c.toNat && c ≠ '<' && c ≠ '>' with
      | '>' :: after => some after
      | _ => none
    else none
  | _, _ => none

def isMailboxChar (c : Char) : Bool :=
  c.isAlphanum || ".!#$%&'*+/=?^_`\x7b|\x7d~-".toList.contains c

/-- A host name's label: letters, digits and inner hyphens, at most 63 of them. -/
def isLabel (label : List Char) : Bool :=
  ! label.isEmpty && label.length ≤ 63 && label.head? ≠ some '-' && label.getLast? ≠ some '-'

/-- Labels that points separate, up to a closing bracket; `fuel` bounds their number. -/
def afterLabels : Nat → List Char → Option (List Char)
  | 0, _ => none
  | fuel + 1, text =>
    let label := text.takeWhile fun c => c.isAlphanum || c = '-'
    if isLabel label then
      match text.drop label.length with
      | '.' :: rest => afterLabels fuel rest
      | '>' :: rest => some rest
      | _ => none
    else none

def afterMail (text : List Char) : Option (List Char) :=
  let mailbox := text.takeWhile isMailboxChar
  match text.drop mailbox.length with
  | '@' :: rest => if mailbox.isEmpty then none else afterLabels (rest.length + 1) rest
  | _ => none

def afterAutolink (text : List Char) : Option (List Char) :=
  (afterAddress text).orElse fun _ => afterMail text

/-! ### HTML -/

def isTagNameChar (c : Char) : Bool := c.isAlphanum || c = '-'

def isAttributeNameChar (c : Char) : Bool :=
  c.isAlphanum || c = '.' || c = '-' || c = '_' || c = ':'

def isBareValueChar (c : Char) : Bool := ! " =<>`'\"".toList.contains c

def afterAttributeValue : List Char → Option (List Char)
  | [] => none
  | '"' :: rest => afterFirst ['"'] rest
  | '\'' :: rest => afterFirst ['\''] rest
  | c :: rest => if isBareValueChar c then some (rest.dropWhile isBareValueChar) else none

/-- A name, and after an equals sign a value. -/
def afterAttribute : List Char → Option (List Char)
  | [] => none
  | c :: rest =>
    if c.isAlpha || c = '_' || c = ':' then
      let rest := rest.dropWhile isAttributeNameChar
      match rest.dropWhile isBlankInLine with
      | '=' :: value => afterAttributeValue (value.dropWhile isBlankInLine)
      | _ => some rest
    else none

/-- Attributes with blanks before each, and the end of the tag; `fuel` bounds their number. -/
def afterAttributes : Nat → List Char → Option (List Char)
  | 0, _ => none
  | fuel + 1, text =>
    match text.dropWhile isBlankInLine with
    | '>' :: rest => some rest
    | '/' :: '>' :: rest => some rest
    | [] => none
    | c :: rest =>
      if c ≠ '/' && text.head?.any isBlankInLine then
        (afterAttribute (c :: rest)).bind (afterAttributes fuel)
      else none

/-- The section ends at the first run of closing square brackets, if an angle bracket follows. -/
def afterCharacterData (text : List Char) : Option (List Char) :=
  match (text.dropWhile (· ≠ ']')) with
  | ']' :: rest =>
    match rest.dropWhile (· = ']') with
    | '>' :: after => some after
    | _ => none
  | _ => none

/-- A comment, whose two hyphens may already be the first of `-->`, a declaration or data. -/
def afterDeclaration : List Char → Option (List Char)
  | '-' :: '-' :: rest => afterFirst ['-', '-', '>'] ('-' :: '-' :: rest)
  | '[' :: 'C' :: 'D' :: 'A' :: 'T' :: 'A' :: '[' :: rest => afterCharacterData rest
  | c :: rest => if c.isAlpha then afterFirst ['>'] rest else none
  | [] => none

/-- The text behind an opening or closing tag. -/
def afterTag : List Char → Option (List Char)
  | '/' :: c :: rest =>
    if c.isAlpha then
      match (rest.dropWhile isTagNameChar).dropWhile isBlankInLine with
      | '>' :: after => some after
      | _ => none
    else none
  | c :: rest =>
    if c.isAlpha then afterAttributes (rest.length + 1) (rest.dropWhile isTagNameChar) else none
  | [] => none

def afterHtml : List Char → Option (List Char)
  | '!' :: rest => afterDeclaration rest
  | '?' :: rest => afterFirst ['?', '>'] rest
  | text => afterTag text

end LiveDoc.Markdown
