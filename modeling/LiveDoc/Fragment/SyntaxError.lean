/-!
Why a fragment cannot be read. Each cause has its wording in `message`; a cause met at the end of
the fragment says so. Causes of layout are indentation errors, all others syntax errors.
-/
namespace LiveDoc.Fragment

inductive SyntaxError.Cause where
  | unterminatedString
  | unterminatedLongString
  | invalidCharacter (c : Char)
  | invalidFloat (text : String)
  | integerTooLarge (text : String)
  | loneClosingCurly
  | unclosedField
  | emptyField
  | tooManyIndents
  | unmatchedDedent
  | unexpectedIndent
  | missingBlock
  | invalidSyntax
  | expected (what : String)
  | breakOutsideLoop
  | continueOutsideLoop
  | nestedTarget
  | notATarget
  | missingLoopVariable
  | repeatedKeyword (name : String)
  | positionalAfterKeyword
  | missingAttribute
  | tooDeep
  /-- A cause met where the fragment ends. -/
  | atEnd (cause : SyntaxError.Cause)
  /-- A cause met in the expression of a format string. -/
  | inFormat (cause : SyntaxError.Cause)
deriving DecidableEq, Repr

/-- A cause and the line of the fragment it was met on. -/
structure SyntaxError where
  cause : SyntaxError.Cause
  line : Nat
deriving DecidableEq, Repr

namespace SyntaxError

def Cause.message : Cause → String
  | unterminatedString => "unterminated string literal"
  | unterminatedLongString => "unterminated triple-quoted string literal"
  | invalidCharacter c => "invalid character '" ++ String.singleton c ++ "'"
  | invalidFloat text => "invalid float literal '" ++ text ++ "'"
  | integerTooLarge text => "integer literal '" ++ text ++ "' is too large"
  | loneClosingCurly => "f-string: single '\x7d' is not allowed"
  | unclosedField => "f-string: expecting '\x7d'"
  | emptyField => "f-string: empty expression not allowed"
  | tooManyIndents => "too many levels of indentation"
  | unmatchedDedent => "unindent does not match any outer indentation level"
  | unexpectedIndent => "unexpected indent"
  | missingBlock => "expected an indented block"
  | invalidSyntax => "invalid syntax"
  | expected what => "expected " ++ what
  | breakOutsideLoop => "'break' outside loop"
  | continueOutsideLoop => "'continue' not properly in loop"
  | nestedTarget => "cannot assign to nested subscript"
  | notATarget => "cannot assign to expression"
  | missingLoopVariable => "expected loop variable"
  | repeatedKeyword name => "keyword argument repeated: " ++ name
  | positionalAfterKeyword => "positional argument follows keyword argument"
  | missingAttribute => "expected attribute name"
  | tooDeep => "expression too deeply nested"
  | atEnd cause => cause.message ++ " (unexpected end of fragment)"
  | inFormat cause => "f-string: " ++ cause.message

def message (e : SyntaxError) : String := e.cause.message

def isIndentation (e : SyntaxError) : Bool :=
  match e.cause with
  | .tooManyIndents => true
  | .unmatchedDedent => true
  | .unexpectedIndent => true
  | .missingBlock => true
  | _ => false

/-- The name that the error has among exceptions. -/
def exception (e : SyntaxError) : String :=
  if e.isIndentation then "IndentationError" else "SyntaxError"

end SyntaxError

end LiveDoc.Fragment
