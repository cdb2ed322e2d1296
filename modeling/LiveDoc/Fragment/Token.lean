/-!
The tokens of the fragment language: names, literals, keywords, symbols, and the layout tokens
that stand for line ends and for changes of indentation. `spelling` gives the text of a keyword
or a symbol.
-/
namespace LiveDoc.Fragment

inductive Keyword where
  | and
  | or
  | not
  | isIn
  | ifThen
  | elseIf
  | otherwise
  | forEach
  | whileTrue
  | breakLoop
  | continueLoop
  | pass
  | raise
  | assert
  | yes
  | no
  | nothing
deriving DecidableEq, Repr

namespace Keyword

def spelling : Keyword → String
  | and => "and"
  | or => "or"
  | not => "not"
  | isIn => "in"
  | ifThen => "if"
  | elseIf => "elif"
  | otherwise => "else"
  | forEach => "for"
  | whileTrue => "while"
  | breakLoop => "break"
  | continueLoop => "continue"
  | pass => "pass"
  | raise => "raise"
  | assert => "assert"
  | yes => "True"
  | no => "False"
  | nothing => "None"

def all : List Keyword :=
  [and, or, not, isIn, ifThen, elseIf, otherwise, forEach, whileTrue, breakLoop, continueLoop,
    pass, raise, assert, yes, no, nothing]

def ofWord? (word : String) : Option Keyword := all.find? (·.spelling = word)

end Keyword

inductive Symbol where
  | plus
  | minus
  | star
  | doubleStar
  | slash
  | doubleSlash
  | percent
  | equal
  | notEqual
  | less
  | greater
  | lessEqual
  | greaterEqual
  | assign
  | plusAssign
  | minusAssign
  | starAssign
  | openRound
  | closeRound
  | openSquare
  | closeSquare
  | openCurly
  | closeCurly
  | comma
  | colon
  | dot
deriving DecidableEq, Repr

namespace Symbol

/-- The symbol of two characters, if they are one. -/
def ofPair? : Char → Char → Option Symbol
  | '*', '*' => some doubleStar
  | '*', '=' => some starAssign
  | '/', '/' => some doubleSlash
  | '=', '=' => some equal
  | '!', '=' => some notEqual
  | '<', '=' => some lessEqual
  | '>', '=' => some greaterEqual
  | '+', '=' => some plusAssign
  | '-', '=' => some minusAssign
  | _, _ => none

def ofChar? : Char → Option Symbol
  | '+' => some plus
  | '-' => some minus
  | '*' => some star
  | '/' => some slash
  | '%' => some percent
  | '<' => some less
  | '>' => some greater
  | '=' => some assign
  | ',' => some comma
  | ':' => some colon
  | '.' => some dot
  | '(' => some openRound
  | '[' => some openSquare
  | '{' => some openCurly
  | ')' => some closeRound
  | ']' => some closeSquare
  | '}' => some closeCurly
  | _ => none

/-- The number of open brackets after the symbol; a closing one too many is passed over. -/
def depthAfter (depth : Nat) : Symbol → Nat
  | openRound => depth + 1
  | openSquare => depth + 1
  | openCurly => depth + 1
  | closeRound => depth - 1
  | closeSquare => depth - 1
  | closeCurly => depth - 1
  | _ => depth

end Symbol

/-- A part of a format string: text, or the source of an expression in curly brackets. -/
inductive Piece where
  | literal (text : String)
  | field (source : String)
deriving DecidableEq, Repr

inductive Token.Kind where
  | name (s : String)
  | int (n : Nat)
  | float (x : Float)
  | str (s : String)
  | format (pieces : List Piece)
  | newline
  | indent
  | dedent
  | eof
  | keyword (k : Keyword)
  | symbol (s : Symbol)
deriving DecidableEq

/-- A token and the line it starts on. -/
structure Token where
  line : Nat
  kind : Token.Kind
deriving DecidableEq

end LiveDoc.Fragment
