import LiveDoc.Source
import LiveDoc.Text.WhiteSpace

/-!
The lines of a document and the classes that the grammar tells apart. A class looks at one line
without its newline; a carriage return in front of the newline counts as white space.
-/
namespace LiveDoc.Document

/-- One line: where it starts, its text, and whether a newline ends it. -/
structure Line where
  start : Nat
  text : List Char
  ended : Bool
deriving DecidableEq, Repr

namespace Line

/-- Where the text of the line ends. -/
def textStop (l : Line) : Nat := l.start + byteLength l.text

/-- Where the next line starts. -/
def stop (l : Line) : Nat := if l.ended then l.textStop + 1 else l.textStop

/-- The line as it is written, with its newline. -/
def raw (l : Line) : List Char := if l.ended then l.text ++ ['\n'] else l.text

end Line

/-- The lines of a text that begins at `start`; `passed` are characters of the line in reverse. -/
def linesFrom (start : Nat) (passed : List Char) : List Char → List Line
  | [] => if passed.isEmpty then [] else [⟨start, passed.reverse, false⟩]
  | c :: rest =>
    if c = '\n' then
      let line : Line := ⟨start, passed.reverse, true⟩
      line :: linesFrom line.stop [] rest
    else linesFrom start (c :: passed) rest

def splitLines (start : Nat) (text : List Char) : List Line := linesFrom start [] text

/-! ### Classes of lines -/

open Text (isWhiteSpace isBlank)

/-- Three hyphens, then only white space. -/
def isHeaderSeparator : List Char → Bool
  | '-' :: '-' :: '-' :: rest => isBlank rest
  | _ => false

/-- The text behind at most `most` characters of white space. -/
def dropIndent (most : Nat) (text : List Char) : List Char :=
  match most, text with
  | most + 1, c :: rest => if isWhiteSpace c then dropIndent most rest else text
  | _, _ => text

def isFenceMark (c : Char) : Bool := c = '`' || c = '~'

/-- The text behind a fence: up to three characters of white space and three fence marks. -/
def afterFence (text : List Char) : Option (List Char) :=
  match dropIndent 3 text with
  | a :: b :: c :: rest =>
    if isFenceMark a && isFenceMark b && isFenceMark c then some rest else none
  | _ => none

/-- The word that marks a block as executable. -/
def codeTag : List Char := "python:testflows".toList

def isCodeStart (text : List Char) : Bool :=
  match afterFence text with
  | some rest => codeTag.isPrefixOf rest && isBlank (rest.drop codeTag.length)
  | none => false

def isCodeEnd (text : List Char) : Bool :=
  match afterFence text with
  | some rest => isBlank rest
  | none => false

/-- Level and raw title of a line of hashes, white space and a title. -/
def hashHeading? (text : List Char) : Option (Nat × List Char) :=
  let marks := text.dropWhile isWhiteSpace
  let level := (marks.takeWhile (· = '#')).length
  let rest := marks.drop level
  let title := rest.dropWhile isWhiteSpace
  if level = 0 || title.isEmpty || title.length = rest.length then none else some (level, title)

def isUnderlineMark (c : Char) : Bool := c = '-' || c = '='

/-- The level that an underline gives to the line above it: its first mark decides. -/
def underlineLevel? : List Char → Option Nat
  | [] => none
  | c :: rest =>
    if isUnderlineMark c && isBlank (rest.dropWhile isUnderlineMark) then
      some (if c = '=' then 1 else 2)
    else none

end LiveDoc.Document
