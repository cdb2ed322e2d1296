import LiveDoc.Text.LetterCase
import LiveDoc.Text.CodeRanges

/-!
Labels, by which a link names the definition of its target. A label ends at a closing square
bracket. Its blanks count as one, those at its ends and the case of its letters do not count.
-/
namespace LiveDoc.Markdown

/--
What is left of a line behind what belongs to the blocks around it, for a text at the begin of the
line; nothing if the line does not go on with what stands before it.
-/
abbrev Continuation := List Char → Option (List Char)

def isLabelBlank (c : Char) : Bool := c = ' ' || (0x09 ≤ c.toNat && c.toNat ≤ 0x0d)

/-- Blanks, among which one line may end: how many they are and the text behind them. -/
def takeLabelBlanks (next : Continuation) (count : Nat) (ended : Bool) :
    (fuel : List Char) → List Char → Option (Nat × List Char)
  | [], text => some (count, text)
  | _, [] => some (count, [])
  | _ :: fuel, c :: rest =>
    if c = '\x0d' then
      if ended then none
      else
        match next rest with
        | none => none
        | some after =>
          takeLabelBlanks next (count + 1 + (rest.length - after.length)) true fuel after
    else if isLabelBlank c then takeLabelBlanks next (count + 1) ended fuel rest
    else some (count, c :: rest)

/-- A label has fewer blanks, escapes counted twice, and bytes above ASCII than this. -/
def labelLimit : Nat := 1000

/--
Reads a label up to its closing bracket: the label and the text behind it. `done` holds what is
read, in reverse, and `count` what the limit counts.
-/
def readLabelFrom (next : Continuation) (count : Nat) (done : List Char) :
    (fuel : List Char) → List Char → Option (List Char × List Char)
  | [], _ => none
  | _, [] => none
  | _ :: fuel, c :: rest =>
    if labelLimit ≤ count || c = '[' then none
    else if c = ']' then
      let inner := (done.dropWhile isLabelBlank).reverse.dropWhile isLabelBlank
      if inner.isEmpty then none else some (inner, rest)
    else if c = '\\' then
      match rest with
      | [] => none
      | d :: after => readLabelFrom next (count + 1 + d.utf8Size) (d :: c :: done) fuel after
    else if isLabelBlank c then
      match takeLabelBlanks next 0 false (c :: rest) (c :: rest) with
      | none => none
      | some (blanks, after) => readLabelFrom next (count + blanks) (' ' :: done) fuel after
    else
      let weight := if c.toNat < 0x80 then 0 else c.utf8Size
      readLabelFrom next (count + weight) (c :: done) fuel rest

/-- Reads a label, for a text behind its opening bracket. -/
def readLabel (next : Continuation) (text : List Char) : Option (List Char × List Char) :=
  readLabelFrom next 0 [] text text

/-- Labels are alike if they are the same once case is ignored. -/
def labelKey (label : List Char) : List Char := Text.foldCase label

/-- The definition of a target: the key of its label, and how many bytes the target has. -/
structure Definition where
  key : List Char
  size : Nat

/-- How many bytes the target of a label has; of several definitions the first one counts. -/
def targetSize? (definitions : List Definition) (label : List Char) : Option Nat :=
  let key := labelKey label
  (definitions.find? (·.key == key)).map Definition.size

end LiveDoc.Markdown
