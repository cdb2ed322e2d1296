import LiveDoc.Fragment.Numeral
import LiveDoc.Fragment.Quoted

/-!
Cutting a fragment into tokens. `readLexeme` reads one token that is not layout. `scan` goes
through the text, with or without layout: with it, the end of a logical line becomes a newline
token, and the width of the white space at the start of the next one is compared with the open
indents. Lines go on inside brackets and behind a backslash; blank lines and comments are skipped.
-/
namespace LiveDoc.Fragment

/-- The distance between two tab stops. -/
def tabStop : Nat := 8

/-- How many indents may be open. -/
def maxIndents : Nat := 100

/-- A token, how many characters it takes behind its first one, and the newlines in them. -/
structure Lexeme where
  kind : Token.Kind
  size : Nat
  newlines : Nat

def isWordStart (c : Char) : Bool := c = '_' || Text.isAlphabetic c

def isWordChar (c : Char) : Bool := c = '_' || Text.isAlphanumeric c

def isQuote (c : Char) : Bool := c = '\'' || c = '"'

/-- A word: a keyword, a name, or the mark in front of a format string. -/
def readWord (first : Char) (rest : List Char) : Except SyntaxError.Cause Lexeme :=
  let more := rest.takeWhile isWordChar
  match more, rest with
  | [], quote :: after =>
    if (first = 'f' || first = 'F') && isQuote quote then do
      let body ← readQuoted true quote after
      let pieces ← splitFields [] body.text
      .ok ⟨.format pieces, 1 + body.size, body.newlines⟩
    else .ok ⟨.name (String.singleton first), 0, 0⟩
  | _, _ =>
    let word := String.ofList (first :: more)
    match Keyword.ofWord? word with
    | some k => .ok ⟨.keyword k, more.length, 0⟩
    | none => .ok ⟨.name word, more.length, 0⟩

/-- A symbol, of two characters if they make one. -/
def readSymbol (first : Char) (rest : List Char) : Except SyntaxError.Cause Lexeme :=
  match rest.head?.bind (Symbol.ofPair? first) with
  | some s => .ok ⟨.symbol s, 1, 0⟩
  | none =>
    match Symbol.ofChar? first with
    | some s => .ok ⟨.symbol s, 0, 0⟩
    | none => .error (.invalidCharacter first)

def readLexeme (first : Char) (rest : List Char) : Except SyntaxError.Cause Lexeme :=
  if first.isDigit then do
    let (kind, length) ← readNumeral (first :: rest)
    .ok ⟨kind, length - 1, 0⟩
  else if isQuote first then do
    let body ← readQuoted false first rest
    .ok ⟨.str (String.ofList body.text), body.size, body.newlines⟩
  else if isWordStart first then readWord first rest
  else readSymbol first rest

/-- White space inside a line. -/
def isInlineSpace (c : Char) : Bool := c = ' ' || c = '\t' || c = '\r' || c.toNat == 0x0c

/-- The width of the white space at the start of a line: a tab goes on to the next tab stop. -/
def indentWidth (width : Nat) : List Char → Nat
  | [] => width
  | c :: rest =>
    if c = ' ' then indentWidth (width + 1) rest
    else if c = '\t' then indentWidth ((width / tabStop + 1) * tabStop) rest
    else if isInlineSpace c then indentWidth width rest
    else width

/-- How far reading has come: the line, the open brackets, the widths of the open indents with the
innermost first, and the tokens in reverse. -/
structure Scanner where
  line : Nat
  depth : Nat
  indents : List Nat
  tokens : List Token

namespace Scanner

def push (s : Scanner) (kind : Token.Kind) : Scanner :=
  { s with tokens := ⟨s.line, kind⟩ :: s.tokens }

def nextLine (s : Scanner) : Scanner := { s with line := s.line + 1 }

/-- No token has been read since the last newline token. -/
def lineIsEmpty (s : Scanner) : Bool :=
  match s.tokens with
  | [] => true
  | t :: _ => match t.kind with
    | .newline => true
    | _ => false

/-- The end of a logical line, which gives no token if the line is empty. -/
def endLine (s : Scanner) : Scanner := if s.lineIsEmpty then s else s.push .newline

/-- Closes the innermost indents of the given number. -/
def dedent (s : Scanner) : Nat → Scanner
  | 0 => s
  | n + 1 => ({ s with indents := s.indents.drop 1 }.push .dedent).dedent n

/-- The first token of a logical line stands at the given width. -/
def indentTo (s : Scanner) (width : Nat) : Except SyntaxError.Cause Scanner :=
  let current := s.indents.head?.getD 0
  if current < width then
    if maxIndents ≤ s.indents.length then .error .tooManyIndents
    else .ok ({ s with indents := width :: s.indents }.push .indent)
  else
    let s := s.dedent (s.indents.takeWhile (width < ·)).length
    if s.indents.head?.getD 0 = width then .ok s else .error .unmatchedDedent

def add (s : Scanner) (l : Lexeme) : Scanner :=
  let depth := match l.kind with
    | .symbol symbol => symbol.depthAfter s.depth
    | _ => s.depth
  { s.push l.kind with depth, line := s.line + l.newlines }

def finish (s : Scanner) (layout : Bool) : List Token :=
  let s := if layout then s.endLine.dedent s.indents.length else s
  (s.push .eof).tokens.reverse

/-- A cause met on the line that is being read. -/
def locate (s : Scanner) (result : Except SyntaxError.Cause α) : Except SyntaxError α :=
  result.mapError fun cause => ⟨cause, s.line⟩

end Scanner

/-- How many characters behind a backslash join the line to the next one. -/
def joinSize (first : Char) (rest : List Char) : Option Nat :=
  match first, rest with
  | '\\', '\n' :: _ => some 1
  | '\\', '\r' :: '\n' :: _ => some 2
  | _, _ => none

/-- Reads the rest of a text; `atStart` says that a logical line may begin here. -/
def scan (layout atStart : Bool) (s : Scanner) (text : List Char) :
    Except SyntaxError (List Token) :=
  let rest := text.dropWhile isInlineSpace
  match _h : rest with
  | [] => .ok (s.finish layout)
  | c :: after =>
    if c = '#' then scan layout atStart s (after.dropWhile (· ≠ '\n'))
    else if c = '\n' then
      if atStart then scan layout true s.nextLine after
      else if layout && s.depth = 0 then scan layout true s.endLine.nextLine after
      else scan layout false s.nextLine after
    else if atStart then do
      scan layout false (← s.locate (s.indentTo (indentWidth 0 text))) rest
    else
      match joinSize c after with
      | some size => scan layout false s.nextLine (after.drop size)
      | none => do
        let l ← s.locate (readLexeme c after)
        scan layout false (s.add l) (after.drop l.size)
termination_by 2 * text.length + atStart.toNat
decreasing_by
  all_goals
    have within := (List.dropWhile_suffix (l := text) isInlineSpace).length_le
    have shorter : after.length < text.length := by
      simp [show text.dropWhile isInlineSpace = c :: after from _h] at within
      omega
    have atMostOne := Bool.toNat_le atStart
  · have := (List.dropWhile_suffix (l := after) (· ≠ '\n')).length_le
    omega
  · simp only [Bool.toNat_true]
    omega
  · simp only [Bool.toNat_true]
    omega
  · simp only [Bool.toNat_false]
    omega
  · rename_i started _
    simp only [started, Bool.toNat_true, Bool.toNat_false]
    omega
  · simp only [Bool.toNat_false, List.length_drop]
    omega
  · simp only [Bool.toNat_false, List.length_drop]
    omega

/-- The tokens of a fragment. -/
def tokenize (text : List Char) : Except SyntaxError (List Token) :=
  scan true true ⟨1, 0, [], []⟩ text

/-- The tokens of an expression that begins on the given line; there are no layout tokens. -/
def tokenizeExpression (text : List Char) (line : Nat) : Except SyntaxError (List Token) :=
  scan false false ⟨line, 0, [], []⟩ text

end LiveDoc.Fragment
