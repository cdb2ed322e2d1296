import LiveDoc.Markdown.Angle
import LiveDoc.Markdown.CharacterReference
import LiveDoc.Markdown.Label
import LiveDoc.Markdown.LinkTarget
import LiveDoc.Text.WhiteSpace

/-!
The text of a line of Markdown: what is left of it when emphasis, code spans, links, images,
autolinks, references and HTML are read. A line is first cut into `Lexeme`s. A `Reading` then takes
code spans, brackets and angle brackets from the left, which gives a tree of `Node`s, and in every
branch of it the runs of `*` and `_` are paired off. What pairs with nothing stays as text. A link
has its target behind it in round brackets, or its label is one of those that are defined. There is
a limit to how much of defined targets the links of a line may take.
-/
namespace LiveDoc.Markdown

/-- A run of `*` or `_`, and whether it may open and close emphasis. -/
structure Run where
  mark : Char
  count : Nat
  opens : Bool
  closes : Bool

inductive Lexeme.Kind where
  | plain
  /-- A character reference, with what it stands for. -/
  | reference (target : List Char)
  | run (r : Run)
  /-- Backticks; a backslash in front takes the first one as text unless they close a span. -/
  | backticks (count : Nat) (escaped : Bool)
  | angle
  | openLink
  | openImage
  /-- It may end the label of an earlier link that is not defined. -/
  | closeBracket (tried : Bool)

/-- A piece of the line: its characters, and the line behind it. -/
structure Lexeme where
  kind : Lexeme.Kind
  source : List Char
  rest : List Char

/-! ### Cutting the line -/

/--
A run may open when no blank follows, and close when none precedes. Next to punctuation on the
inner side it needs a blank or punctuation on the outer side, and `_` needs that always.
-/
def Run.of (mark : Char) (count : Nat) (previous : Char) (next : Option Char) : Run :=
  let outer (c : Char) : Bool := Text.isWhiteSpace c || Text.isPunctuation c
  let inWord (c : Char) : Bool := mark = '*' && ! Text.isPunctuation c
  { mark, count
    opens := match next with
      | none => false
      | some c => ! Text.isWhiteSpace c && (inWord c || outer previous)
    closes := ! Text.isWhiteSpace previous && match next with
      | none => true
      | some c => inWord previous || outer c }

/-- The lexeme at the head of a text that does not begin with ordinary characters, if any. -/
def Lexeme.special? (previous : Char) (text : List Char) : Option Lexeme :=
  let of (kind : Lexeme.Kind) (length : Nat) : Lexeme := ⟨kind, text.take length, text.drop length⟩
  match text with
  | [] => none
  | c :: rest =>
    if c = '*' || c = '_' then
      let count := 1 + (rest.takeWhile (· = c)).length
      let run := Run.of c count previous (rest.drop (count - 1)).head?
      if run.opens || run.closes then some (of (.run run) count) else none
    else if c = '`' then
      let count := 1 + (rest.takeWhile (· = '`')).length
      some (of (.backticks count false) count)
    else if c = '&' then
      match characterReference? rest with
      | some (target, after) => some (of (.reference target) (text.length - after.length))
      | none => none
    else if c = '<' && rest.head? ≠ some '\\' then some (of .angle 1)
    else if c = '[' then some (of .openLink 1)
    else if c = ']' then some (of (.closeBracket false) 1)
    else if c = '!' && rest.head? = some '[' then some (of .openImage 2)
    else none

/-- The plain lexeme of the characters passed so far, which are in reverse. -/
def Lexeme.plainBefore (passed rest : List Char) : List Lexeme :=
  if passed.isEmpty then [] else [⟨.plain, passed.reverse, rest⟩]

/-- Cuts a line into lexemes; `fuel` bounds the characters left. -/
def cut (fuel : Nat) (previous : Char) (passed : List Char) (text : List Char) : List Lexeme :=
  match fuel, text with
  | 0, _ => []
  | _, [] => Lexeme.plainBefore passed []
  | fuel + 1, c :: rest =>
    match c, rest with
    | '\\', '`' :: after =>
      let count := 1 + (after.takeWhile (· = '`')).length
      Lexeme.plainBefore passed text ++
        ⟨.backticks count true, rest.take count, rest.drop count⟩ ::
          cut fuel '`' [] (rest.drop count)
    | '\\', d :: after =>
      if Text.isAsciiPunctuation d then
        Lexeme.plainBefore passed text ++ cut fuel d [d] after
      else cut fuel c (c :: passed) rest
    | _, _ =>
      match Lexeme.special? previous text with
      | some lexeme =>
        Lexeme.plainBefore passed text ++
          lexeme :: cut fuel (lexeme.source.getLast?.getD c) [] lexeme.rest
      | none =>
        -- A run that neither opens nor closes is passed as a whole.
        let same := if c = '*' || c = '_' then (rest.takeWhile (· = c)) else []
        cut fuel c (same ++ c :: passed) (rest.drop same.length)

/-- The lexemes of a line, before which stands a blank. -/
def lexemes (line : List Char) : List Lexeme := cut (line.length + 1) ' ' [] line

/-- The lexemes from a place on; the one that covers the place loses what lies before it. -/
def resumeAt (place : List Char) (ls : List Lexeme) : List Lexeme :=
  let left := place.length
  match ls.dropWhile fun l => left ≤ l.rest.length with
  | [] => []
  | l :: after =>
    { l with source := l.source.drop ((l.source.length + l.rest.length) - left) } :: after

/-- Marks the bracket with `left` characters behind it, which has been tried to end a label. -/
def markTried (left : Nat) : List Lexeme → List Lexeme
  | [] => []
  | l :: ls =>
    if l.rest.length ≤ left then
      match l.kind with
      | .closeBracket _ => { l with kind := .closeBracket true } :: ls
      | _ => l :: ls
    else l :: markTried left ls

/-- The text where a lexeme begins. -/
def Lexeme.start (l : Lexeme) : List Char := l.source ++ l.rest

/-! ### Brackets, code spans and angle brackets -/

inductive Node where
  | text (s : List Char)
  | run (r : Run)
  | group (children : List Node)

/-- An open square bracket, with the nodes before it in reverse. -/
structure Bracket where
  isImage : Bool
  /-- The text behind the bracket. -/
  inside : List Char
  /-- A link holds no link: once an inner one is closed the outer ones are only text. -/
  enabled : Bool
  before : List Node

/-- A code span loses one blank at both ends, unless it is all blanks. -/
def codeText (source : List Char) : List Char :=
  if source.head? = some ' ' && source.getLast? = some ' ' && source.any (· ≠ ' ') then
    (source.drop 1).dropLast
  else source

/-- The first backticks of the given number: the text from them on and the lexemes behind them. -/
def closingBackticks (count : Nat) : List Lexeme → Option (List Char × List Lexeme)
  | [] => none
  | l :: ls =>
    match l.kind with
    | .backticks n _ =>
      if n = count then some (l.source ++ l.rest, ls) else closingBackticks count ls
    | _ => closingBackticks count ls

/-- The nodes of one level, when open brackets turn out to be text. -/
def flatten (nodes : List Node) : List Bracket → List Node
  | [] => nodes
  | b :: bs => flatten (nodes ++ .text (if b.isImage then ['!', '['] else ['[']) :: b.before) bs

/--
The size of the target of the label between a bracket and the one that closes it. `target?` gives
the size of a label's target.
-/
def targetBetween? (target? : List Char → Option Nat) (b : Bracket) (rest : List Char) :
    Option Nat :=
  match readLabel some b.inside with
  | some (label, after) => if after.length = rest.length then target? label else none
  | none => none

/-- What a closing bracket makes of the text in front of it. -/
inductive Closing where
  /-- A link, which ends in front of these lexemes and takes so many bytes of defined targets. -/
  | link (size : Nat) (after : List Lexeme)
  /-- No link; the lexemes behind the bracket may have changed. -/
  | text (after : List Lexeme)

/--
What a closing bracket does to the bracket it belongs to. Behind it stands a target, a label, an
empty label, or nothing of all that, and then the text between the two brackets is the label. A
bracket that is not enabled stays text.
-/
def Closing.of (target? : List Char → Option Nat) (b : Bracket) (tried : Bool) (rest : List Char)
    (ls : List Lexeme) : Closing :=
  if ! b.enabled then .text ls
  else
    match afterTarget rest with
    | some after => .link 0 (resumeAt after ls)
    | none =>
      let between (after : List Lexeme) : Closing :=
        match if tried then none else targetBetween? target? b rest with
        | some size => .link size after
        | none => .text ls
      match ((ls.head?).map Lexeme.start).getD [] with
      | '[' :: ']' :: _ => between (ls.drop 2)
      | '[' :: inner =>
        match readLabel some inner with
        | some (label, after) =>
          match target? label with
          | some size => .link size (resumeAt after ls)
          | none => .text (markTried after.length ls)
        | none => between ls
      | _ => between ls

/--
What is read of a line: the nodes since the innermost open bracket, in reverse, and the open
brackets, the innermost first. `room` is how many bytes of defined targets links may still take;
the last one may take more.
-/
structure Reading where
  nodes : List Node
  brackets : List Bracket
  room : Nat

namespace Reading

def add (r : Reading) (n : Node) : Reading := { r with nodes := n :: r.nodes }

def openBracket (r : Reading) (isImage : Bool) (inside : List Char) : Reading :=
  { r with nodes := [], brackets := ⟨isImage, inside, true, r.nodes⟩ :: r.brackets }

/-- The size of a label's target, while there is room for any. -/
def target? (r : Reading) (definitions : List Definition) (label : List Char) : Option Nat :=
  if r.room = 0 then none else targetSize? definitions label

/-- Closes the innermost bracket, a link or an image that takes `size` bytes of targets. -/
def closeLink (r : Reading) (size : Nat) (b : Bracket) (outer : List Bracket) : Reading :=
  let outer := if b.isImage then outer else
    outer.map fun o => if o.isImage then o else { o with enabled := false }
  ⟨.group r.nodes.reverse :: b.before, outer, r.room - size⟩

/-- Closes the innermost bracket, which is only text. -/
def closeText (r : Reading) (b : Bracket) (outer : List Bracket) : Reading :=
  let bracket := .text (if b.isImage then ['!', '['] else ['['])
  { r with nodes := .text [']'] :: r.nodes ++ bracket :: b.before, brackets := outer }

/-- Reads a lexeme, and the lexemes behind it that belong to it; gives those that are left. -/
def take (definitions : List Definition) (r : Reading) (l : Lexeme) (ls : List Lexeme) :
    Reading × List Lexeme :=
  match l.kind with
  | .plain => (r.add (.text l.source), ls)
  | .reference target => (r.add (.text target), ls)
  | .run run => (r.add (.run run), ls)
  | .backticks count escaped =>
    let wanted := if escaped then count - 1 else count
    match if wanted = 0 then none else closingBackticks wanted ls with
    | none => (r.add (.text l.source), ls)
    | some (closing, after) =>
      let code := codeText (l.rest.take (l.rest.length - closing.length))
      let r := if escaped then r.add (.text ['`']) else r
      (r.add (.text code), after)
  | .angle =>
    match ls with
    | [] => (r.add (.text l.source), ls)
    | next :: _ =>
      match afterAutolink next.start, afterHtml next.start with
      | some after, _ =>
        let address := l.rest.take (l.rest.length - after.length - 1)
        (r.add (.text address), resumeAt after ls)
      | none, some after => (r, resumeAt after ls)
      | none, none => (r.add (.text l.source), ls)
  | .openLink => (r.openBracket false l.rest, ls)
  | .openImage => (r.openBracket true l.rest, ls)
  | .closeBracket tried =>
    match r.brackets with
    | [] => (r.add (.text l.source), ls)
    | b :: outer =>
      match Closing.of (r.target? definitions) b tried l.rest ls with
      | .text ls => (r.closeText b outer, ls)
      | .link size after => (r.closeLink size b outer, after)

/-- Reads all lexemes, of which there are not more than `fuel`. -/
def takeAll (definitions : List Definition) (r : Reading) :
    (fuel : Nat) → List Lexeme → List Node
  | 0, _ => (flatten r.nodes r.brackets).reverse
  | _, [] => (flatten r.nodes r.brackets).reverse
  | fuel + 1, l :: ls =>
    let (r, ls) := r.take definitions l ls
    r.takeAll definitions fuel ls

end Reading

/-! ### Emphasis -/

/-- A run that may still open emphasis, and how many of its marks are left. -/
structure Opener where
  place : Nat
  run : Run
  left : Nat

/--
A run closes the nearest run before it with the same mark. If one of the two can do both, their
lengths must not add up to a multiple of three, unless both are one.
-/
def Opener.fits (closer : Run) (o : Opener) : Bool :=
  o.run.mark = closer.mark &&
    ((! (closer.opens && closer.closes) && ! (o.run.opens && o.run.closes)) ||
      (closer.count + o.run.count) % 3 ≠ 0 || closer.count % 3 = 0)

/--
The marks of a closing run that find no partner, and the openers that remain, the nearest first.
`fuel` bounds the openers.
-/
def pairOff (closer : Run) : (fuel left : Nat) → List Opener → Nat × List Opener × List Opener
  | 0, left, openers => (left, openers, [])
  | fuel + 1, left, openers =>
    if left = 0 then (left, openers, [])
    else
      match openers.dropWhile (! ·.fits closer) with
      | [] => (left, openers, [])
      | o :: outer =>
        let dropped := openers.takeWhile (! ·.fits closer)
        let both := min left o.left
        let openers := if both < o.left then { o with left := o.left - both } :: outer else outer
        let (left, openers, more) := pairOff closer fuel (left - both) openers
        (left, openers, dropped ++ more)

/--
How many marks of each run stay as text, as pairs of the run's place and that number; a run that
is not listed keeps none. `openers` are the runs before `place` that may still open.
-/
def unpaired (place : Nat) (openers : List Opener) : List Run → List (Nat × Nat)
  | [] => openers.map fun o => (o.place, o.left)
  | r :: rs =>
    let (left, openers, dropped) :=
      if r.closes then pairOff r (openers.length + 1) r.count openers else (r.count, openers, [])
    let kept := dropped.map fun o => (o.place, o.left)
    if left = 0 then kept ++ unpaired (place + 1) openers rs
    else if r.opens then kept ++ unpaired (place + 1) (⟨place, r, left⟩ :: openers) rs
    else kept ++ (place, left) :: unpaired (place + 1) openers rs

/-- How many marks of each run stay as text. -/
def marksKept (runs : List Run) : Array Nat :=
  (unpaired 0 [] runs).foldl (fun kept (place, count) => kept.setIfInBounds place count)
    (.replicate runs.length 0)

/-- The text of nodes; `place` counts the runs and `kept` says how many of their marks stay. -/
def textOf (kept : Array Nat) (place : Nat) : List Node → List Char
  | [] => []
  | .text s :: rest => s ++ textOf kept place rest
  | .run r :: rest => List.replicate (kept[place]?.getD 0) r.mark ++ textOf kept (place + 1) rest
  | .group children :: rest =>
    textOf (marksKept (children.filterMap fun
      | .run r => some r
      | _ => none)) 0 children ++ textOf kept place rest

/-- The text of a line of Markdown; its links take at most `room` bytes of defined targets. -/
def inlineText (definitions : List Definition) (room : Nat) (line : List Char) : List Char :=
  let ls := lexemes line
  textOf #[] 0 [.group (Reading.takeAll definitions ⟨[], [], room⟩ (ls.length + 1) ls)]

end LiveDoc.Markdown
