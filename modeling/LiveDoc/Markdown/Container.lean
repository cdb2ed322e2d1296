import LiveDoc.Markdown.BlockStart
import LiveDoc.Markdown.Label

/-!
Blocks that hold other blocks: quotes and items of lists. Each line of what they hold begins with
a mark or an indent of theirs, or goes on with a paragraph without it.
-/
namespace LiveDoc.Markdown

inductive Container where
  | quote
  /-- An item of a list, with the indent of what is in it. -/
  | item (indent : Nat)
deriving DecidableEq, Repr

namespace Container

def isItem : Container → Bool
  | quote => false
  | item _ => true

/-- Takes what belongs to a container from the front of a line of it. -/
def enter (f : Front) : Container → Option Front
  | quote =>
    let (_, front) := f.takeBlanks 3
    if front.rest.head? = some '>' then some ((front.drop 1).takeBlanks 1).2 else none
  | item indent =>
    let (missing, front) := f.takeBlanks indent
    if missing = 0 || front.atEnd then some front else none

/-- The containers, from the outermost on, that a line is in, and the front behind them. -/
def enterAll (f : Front) : List Container → List Container × Front
  | [] => ([], f)
  | c :: rest =>
    match c.enter f with
    | none => ([], f)
    | some front =>
      let (entered, front) := enterAll front rest
      (c :: entered, front)

end Container

/-- The front of a line behind the containers, and whether it is inside of all of them. -/
def enterLine (containers : List Container) (text : List Char) : Bool × Front :=
  let (entered, front) := Container.enterAll (.ofLine text) containers
  (entered.length = containers.length, front)

/-- Goes on with a line of a definition, unless the line would end a paragraph. -/
def continueIn (containers : List Container) : Continuation := fun text =>
  let (inside, front) := enterLine containers text
  let (missing, front) := front.takeBlanks 4
  if missing = 0 then some front.rest
  else if endsParagraph inside front.rest || (inside && isUnderline front.rest) then none
  else some front.rest

end LiveDoc.Markdown
