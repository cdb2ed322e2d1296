import LiveDoc.Text.Punctuation

/-!
The target of a link: a destination and after it, if wanted, a title. An inline link has both in
round brackets. The functions take the text in front of their part and give the text behind it.
-/
namespace LiveDoc.Markdown

def skipBlanks (text : List Char) : List Char :=
  text.dropWhile fun c => c = ' ' || c = '\t' || c.toNat == 0x0b || c.toNat == 0x0c

/-- The rest of a destination between angle brackets. -/
def afterPointed : List Char → Option (List Char)
  | [] => none
  | '<' :: _ => none
  | '\x0d' :: _ => none
  | '>' :: rest => some rest
  | '\\' :: c :: rest =>
    if Text.isAsciiPunctuation c then afterPointed rest else afterPointed (c :: rest)
  | _ :: rest => afterPointed rest

/--
The rest of a bare destination inside `nesting` round brackets, of which one more may open unless
they are deeper than `limit`. The destination ends at a blank.
-/
def afterBare (limit nesting : Nat) : List Char → Option (List Char)
  | [] => if nesting = 0 then some [] else none
  | '(' :: rest => if limit < nesting then none else afterBare limit (nesting + 1) rest
  | ')' :: rest => if nesting = 0 then some (')' :: rest) else afterBare limit (nesting - 1) rest
  | '\\' :: c :: rest =>
    if Text.isAsciiPunctuation c then afterBare limit nesting rest
    else afterBare limit nesting (c :: rest)
  | c :: rest =>
    if c.toNat ≤ 0x20 then (if nesting = 0 then some (c :: rest) else none)
    else afterBare limit nesting rest

def afterDestination (limit : Nat) : List Char → Option (List Char)
  | '<' :: rest => afterPointed rest
  | text => afterBare limit 0 text

/-- The rest of a title that `opening` opened and `closing` closes. -/
def afterTitleText (opening closing : Char) : List Char → Option (List Char)
  | [] => none
  | '\\' :: c :: rest =>
    if Text.isAsciiPunctuation c then afterTitleText opening closing rest
    else afterTitleText opening closing (c :: rest)
  | c :: rest =>
    if c = closing then some rest
    else if c = opening then none
    else afterTitleText opening closing rest

def afterTitle : List Char → Option (List Char)
  | '"' :: rest => afterTitleText '"' '"' rest
  | '\'' :: rest => afterTitleText '\'' '\'' rest
  | '(' :: rest => afterTitleText '(' ')' rest
  | _ => none

/-- How deep round brackets nest in the destination of an inline link. -/
def inlineNesting : Nat := 32

/-- What follows the target of an inline link, for a text that begins with one. -/
def afterTarget : List Char → Option (List Char)
  | '(' :: text => do
    let rest := skipBlanks (← afterDestination inlineNesting (skipBlanks text))
    match skipBlanks ((afterTitle rest).getD rest) with
    | ')' :: after => some after
    | _ => none
  | _ => none

end LiveDoc.Markdown
