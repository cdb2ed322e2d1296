import LiveDoc.Markdown.CharacterReference
import LiveDoc.Markdown.Container

/-!
Definitions of links: a label, a colon and a target, on lines of their own. `definitionsIn` walks
through the blocks of a text, whose lines end with carriage returns, and collects the definitions.
Of the other blocks only their extent is found out.
-/
namespace LiveDoc.Markdown

/-! ### One definition -/

/-- The text behind blanks, among which one line may end, and whether one does. -/
def takeSpace (next : Continuation) (text : List Char) : Option (Bool × List Char) := do
  match skipBlanks text with
  | [] => none
  | '\x0d' :: rest =>
    let behind := skipBlanks (← next rest)
    if behind.head?.all (· = '\x0d') then none else some (true, behind)
  | behind => some (false, behind)

/-- How deep round brackets nest in the destination of a definition. -/
def definitionNesting : Nat := 1

/-- A destination that is not in angle brackets has at least one character. -/
def lacksDestination (text : List Char) : Bool :=
  text.head?.all fun c => c = ')' || c.toNat ≤ 0x20

/--
What a part of a target stands for: escapes and character references are replaced, and the ends of
lines are left out.
-/
def resolveTarget : (fuel : List Char) → List Char → List Char
  | [], _ => []
  | _, [] => []
  | _ :: fuel, c :: rest =>
    if c = '\\' then
      match rest with
      | d :: after =>
        if Text.isAsciiPunctuation d then d :: resolveTarget fuel after
        else c :: resolveTarget fuel rest
      | [] => [c]
    else if c = '&' then
      match characterReference? rest with
      | some (target, after) => target ++ resolveTarget fuel after
      | none => c :: resolveTarget fuel rest
    else if c = '\x0d' then resolveTarget fuel rest
    else c :: resolveTarget fuel rest

/-- The bytes of what a part of a target stands for. -/
def resolvedSize (part : List Char) : Nat := (String.ofList (resolveTarget part part)).utf8ByteSize

/-- The bytes of a destination, of which angle brackets around it are no part. -/
def destinationSize (written : List Char) : Nat :=
  if written.head? = some '<' then resolvedSize (written.drop 1).dropLast else resolvedSize written

/-- The bytes of a title, of which its quotes are no part. -/
def titleSize (written : List Char) : Nat := resolvedSize (written.drop 1).dropLast

/--
Reads a definition, and gives with it the text behind it on the same line. A title that begins on
a line of its own and is none is no part of the definition.
-/
def readDefinition (next : Continuation) (text : List Char) : Option (Definition × List Char) := do
  let inner ← if text.head? = some '[' then some (text.drop 1) else none
  let (label, rest) ← readLabel next inner
  let rest ← if rest.head? = some ':' then some (rest.drop 1) else none
  let (_, start) ← takeSpace next rest
  let after ← if lacksDestination start then none else afterDestination definitionNesting start
  let untitled : Definition :=
    ⟨labelKey label, destinationSize (start.take (start.length - after.length))⟩
  match takeSpace next after with
  | none => some (untitled, after)
  | some (lineEnded, behind) =>
    match (afterTitle behind).filter isBlankLine, lineEnded with
    | some rest, _ =>
      let title := behind.take (behind.length - rest.length)
      if lineEnded || after.head?.any isBlankInLine then
        some ({ untitled with size := untitled.size + titleSize title }, rest)
      else none
    | none, true => some (untitled, after)
    | none, false => none

/-! ### Blocks -/

/-- What is known at the begin of a line. -/
structure Outline where
  containers : List Container
  /-- Whether the last item began with an empty line and nothing has followed yet. -/
  isFresh : Bool
  afterBlank : Bool
  /-- The definitions so far, in reverse. -/
  definitions : List Definition

namespace Outline

def initial : Outline := ⟨[], false, false, []⟩

/-- What holds once a block begins: an item that began with two empty lines is over. -/
def begin (o : Outline) : Outline :=
  let isOver := o.isFresh && o.afterBlank && o.containers.getLast?.any Container.isItem
  { o with
    containers := if isOver then o.containers.dropLast else o.containers
    isFresh := false
    afterBlank := false }

/-- An empty line; a fresh item holds any line that follows, however it is indented. -/
def skipLine (o : Outline) : Outline :=
  match o.containers.getLast? with
  | some .quote => o
  | some (.item _) =>
    let outer := o.containers.dropLast
    let containers := if o.isFresh then outer ++ [Container.item 0] else o.containers
    { o with containers, afterBlank := true }
  | none => { o with afterBlank := true }

/--
Opens the containers that begin on a line. A line on which an item begins and nothing follows is
done, and the text behind it is given.
-/
def openAll (o : Outline) (f : Front) :
    (fuel : List Char) → Outline × Front × Option (List Char)
  | [] => (o, f, none)
  | _ :: fuel =>
    let (missing, front) := f.takeBlanks 4
    if missing = 0 then (o, f, none)
    else
      match takeItem (4 - missing) front with
      | some (indent, inside) =>
        let o := o.begin
        let o := { o with containers := o.containers ++ [Container.item indent] }
        match afterBlankLine inside.rest with
        | some rest => ({ o with isFresh := true }, inside, some rest)
        | none => o.openAll inside fuel
      | none =>
        if front.rest.head? = some '>' then
          let o := o.begin
          let o := { o with containers := o.containers ++ [Container.quote] }
          o.openAll ((front.drop 1).takeBlanks 1).2 fuel
        else (o, f, none)

/-- The text behind the lines of a paragraph, from the first one on. -/
def afterParagraph (o : Outline) : (fuel : List Char) → List Char → List Char
  | [], text => text
  | _ :: fuel, text =>
    let next := afterLine text
    let (inside, front) := enterLine o.containers next
    let (missing, front) := front.takeBlanks 4
    if missing ≠ 0 && inside && isUnderline front.rest then afterLine front.rest
    else if missing ≠ 0 && endsParagraph inside front.rest then next
    else if front.skipAll.atEnd then next
    else o.afterParagraph fuel front.skipAll.rest

/-- Reads definitions and, where there is no more of them, a paragraph. -/
def readText (o : Outline) : (fuel : List Char) → List Char → Outline × List Char
  | [], text => (o, text)
  | _ :: fuel, text =>
    match readDefinition (continueIn o.containers) text with
    | none => (o, o.afterParagraph text text)
    | some (definition, rest) =>
      let o := { o with definitions := definition :: o.definitions }
      let next := afterLine rest
      let (inside, front) := enterLine o.containers next
      let (missing, front) := front.takeBlanks 4
      if missing ≠ 0 && endsParagraph inside front.rest then (o, next)
      else o.readText fuel front.skipAll.rest

/-- Reads the block at the begin of a line. -/
def readBlock (o : Outline) (text : List Char) : Outline × List Char :=
  let (containers, front) := Container.enterAll (.ofLine text) o.containers
  let (o, front, done) := { o with containers }.openAll front text
  match done with
  | some rest => (o, rest)
  | none =>
    match afterBlankLine front.rest with
    | some rest => (o.skipLine, rest)
    | none =>
      let o := o.begin
      let (missing, front) := front.takeBlanks 4
      let line := front.rest
      if missing = 0 || isHtmlStart line || isTagLine line || isFence line then (o, [])
      else if isRule line || isHeading line then (o, afterLine line)
      else o.readText line line

def readAll (o : Outline) : (fuel : List Char) → List Char → Outline
  | _, [] => o
  | [], _ => o
  | _ :: fuel, text =>
    let (o, rest) := o.readBlock text
    o.readAll fuel rest

end Outline

/-- The definitions in a text, from the first one on. -/
def definitionsIn (text : List Char) : List Definition :=
  (Outline.initial.readAll text text).definitions.reverse

end LiveDoc.Markdown
