import LiveDoc.Fragment.Scan
import LiveDoc.Fragment.Tree

/-!
Reading expressions. Every operator has a binding power on either side, and an operand goes to
the operator that pulls harder: `or` 2, `and` 4, `not` 6, comparisons 8, `+ -` 10, `* / // %` 12,
signs 14, `**` 16. Operators group to the left, only `**` to the right. An expression may be
`maxDepth` levels deep; each operand and each further operator of a chain takes one level, and
the levels left are what the reading recurses on.
-/
namespace LiveDoc.Fragment

/-- Reads from a list of tokens, whose last one is the end of the fragment. -/
abbrev TokenParser := EStateM SyntaxError (List Token)

namespace TokenParser

/-- The next token; the one at the end stays there. -/
def peek : TokenParser Token := do
  match ← get with
  | t :: _ => pure t
  | [] => pure ⟨1, .eof⟩

def peekKind : TokenParser Token.Kind := do return (← peek).kind

/-- The kind of the token behind the next one. -/
def peekSecond : TokenParser Token.Kind := do
  match ← get with
  | _ :: t :: _ => pure t.kind
  | _ => pure .eof

def advance : TokenParser Token := do
  let t ← peek
  match ← get with
  | _ :: u :: rest => set (u :: rest)
  | _ => pure ()
  return t

/-- Fails at the next token: the end of the fragment is named, an indent is itself the cause. -/
def failHere (cause : SyntaxError.Cause) : TokenParser α := do
  let t ← peek
  match t.kind with
  | .eof => throw ⟨.atEnd cause, t.line⟩
  | .indent => throw ⟨.unexpectedIndent, t.line⟩
  | _ => throw ⟨cause, t.line⟩

/-- The next token is the given symbol. -/
def atSymbol (s : Symbol) : TokenParser Bool := do
  match ← peekKind with
  | .symbol other => pure (decide (other = s))
  | _ => pure false

def atKeyword (k : Keyword) : TokenParser Bool := do
  match ← peekKind with
  | .keyword other => pure (decide (other = k))
  | _ => pure false

/-- Takes the next token if it is the given symbol, and says whether it did. -/
def eat (s : Symbol) : TokenParser Bool := do
  if ← atSymbol s then
    let _ ← advance
    pure true
  else pure false

def eatKeyword (k : Keyword) : TokenParser Bool := do
  if ← atKeyword k then
    let _ ← advance
    pure true
  else pure false

def expect (s : Symbol) (what : String) : TokenParser Unit := do
  if ← eat s then pure () else failHere (.expected what)

/-- The tokens left, which are the fuel of every repetition, since each round takes one. -/
def remaining : TokenParser (List Token) := get

end TokenParser

open TokenParser

/-- How deep an expression may be. -/
def maxDepth : Nat := 200

inductive Infix where
  | logic (op : LogicOp)
  | compare (op : CompareOp)
  | binary (op : BinaryOp)

namespace Infix

/-- The binding power on the left. -/
def leftPower : Infix → Nat
  | logic .or => 2
  | logic .and => 4
  | compare _ => 8
  | binary .add => 10
  | binary .sub => 10
  | binary .mul => 12
  | binary .div => 12
  | binary .floorDiv => 12
  | binary .mod => 12
  | binary .pow => 16

/-- The binding power on the right: higher than on the left, so that chains group to the left. -/
def rightPower : Infix → Nat
  | binary .pow => 16
  | i => i.leftPower + 1

/-- How many tokens the operator takes. -/
def width : Infix → Nat
  | compare .notIn => 2
  | _ => 1

def isCompare : Infix → Bool
  | compare _ => true
  | _ => false

/-- The operator between two operands. `chained` says that the left one is an open chain. -/
def apply (i : Infix) (chained : Bool) (left right : Expr) : Expr :=
  match i, chained, left with
  | compare op, true, .compare first others => .compare first (others ++ [(op, right)])
  | compare op, _, left => .compare left [(op, right)]
  | logic op, _, left => .logic op left right
  | binary op, _, left => .binary op left right

def ofSymbol? : Symbol → Option Infix
  | .equal => some (compare .equal)
  | .notEqual => some (compare .notEqual)
  | .less => some (compare .less)
  | .greater => some (compare .greater)
  | .lessEqual => some (compare .lessEqual)
  | .greaterEqual => some (compare .greaterEqual)
  | .plus => some (binary .add)
  | .minus => some (binary .sub)
  | .star => some (binary .mul)
  | .slash => some (binary .div)
  | .doubleSlash => some (binary .floorDiv)
  | .percent => some (binary .mod)
  | .doubleStar => some (binary .pow)
  | _ => none

/-- The operator that a token begins, with the token behind it. -/
def ofTokens? (first second : Token.Kind) : Option Infix :=
  match first with
  | .symbol s => ofSymbol? s
  | .keyword .or => some (logic .or)
  | .keyword .and => some (logic .and)
  | .keyword .isIn => some (compare .isIn)
  | .keyword .not => match second with
    | .keyword .isIn => some (compare .notIn)
    | _ => none
  | _ => none

end Infix

/-- An operator in front of its operand, with its binding power. -/
def prefixed? : Token.Kind → Option (UnaryOp × Nat)
  | .keyword .not => some (.not, 6)
  | .symbol .minus => some (.neg, 14)
  | .symbol .plus => some (.pos, 14)
  | _ => none

/-- Items between commas, up to but without `close`; a last comma may stand behind them. -/
def parseItems (close : Symbol) (item : TokenParser α) : (fuel : List Token) → TokenParser (List α)
  | [] => pure []
  | _ :: fuel => do
    if ← atSymbol close then pure []
    else
      let x ← item
      if ← eat .comma then
        let xs ← parseItems close item fuel
        pure (x :: xs)
      else pure [x]

/-- The arguments of a call, positional ones first; `named` are the keyword arguments so far. -/
def parseArguments (expr : TokenParser Expr) (args : List Expr) (named : List (String × Expr)) :
    (fuel : List Token) → TokenParser (List Expr × List (String × Expr))
  | [] => pure (args, named)
  | _ :: fuel => do
    if ← atSymbol .closeRound then pure (args, named)
    else
      let (args, named) ← match ← peekKind, ← peekSecond with
        | .name name, .symbol .assign => do
          let _ ← advance
          let _ ← advance
          if named.any (·.1 = name) then failHere (.repeatedKeyword name)
          let value ← expr
          pure (args, named ++ [(name, value)])
        | _, _ => do
          if ! named.isEmpty then failHere .positionalAfterKeyword
          let value ← expr
          pure (args ++ [value], named)
      if ← eat .comma then parseArguments expr args named fuel else pure (args, named)

/-- The parts of a format string; `field` reads the source of an expression on a line. -/
def parseFormat (field : List Char → Nat → Except SyntaxError Expr) (line : Nat) :
    List Piece → Except SyntaxError (List FormatPart)
  | [] => .ok []
  | .literal s :: rest => do
    let parts ← parseFormat field line rest
    .ok (.literal s :: parts)
  | .field source :: rest => do
    let e ← (field source.toList line).mapError fun e => ⟨.inFormat e.cause, line⟩
    let parts ← parseFormat field line rest
    .ok (.field e :: parts)

/-- The string literals that follow directly, put behind `s`. -/
def parseAdjacent (s : String) : (fuel : List Token) → TokenParser String
  | [] => pure s
  | _ :: fuel => do
    match ← peekKind with
    | .str next => do
      let _ ← advance
      parseAdjacent (s ++ next) fuel
    | _ => pure s

def atStatementEnd : TokenParser Bool := do
  match ← peekKind with
  | .newline => pure true
  | .eof => pure true
  | .dedent => pure true
  | _ => pure false

/-- A literal, a name, or an expression in brackets. -/
def parseAtom (field : List Char → Nat → Except SyntaxError Expr) (expr : TokenParser Expr) :
    TokenParser Expr := do
  if ← atStatementEnd then failHere .invalidSyntax
  let t ← advance
  match t.kind with
  | .int n => pure (.constant (.int n))
  | .float x => pure (.constant (.float x))
  | .str s => do return .constant (.str (← parseAdjacent s (← remaining)))
  | .format pieces =>
    match parseFormat field t.line pieces with
    | .ok parts => pure (.format parts)
    | .error e => throw e
  | .keyword .yes => pure (.constant (.bool true))
  | .keyword .no => pure (.constant (.bool false))
  | .keyword .nothing => pure (.constant .nothing)
  | .name s => pure (.name s)
  | .symbol .openRound => do
    let e ← expr
    expect .closeRound "')'"
    pure e
  | .symbol .openSquare => do
    let items ← parseItems .closeSquare expr (← remaining)
    expect .closeSquare "']'"
    pure (.list items)
  | .symbol .openCurly => do
    let entry : TokenParser (Expr × Expr) := do
      let key ← expr
      expect .colon "':'"
      let value ← expr
      pure (key, value)
    let entries ← parseItems .closeCurly entry (← remaining)
    expect .closeCurly "'\x7d'"
    pure (.dict entries)
  | _ => throw ⟨.invalidSyntax, t.line⟩

/-- Calls, attributes and items behind an atom. -/
def parseSuffixes (expr : TokenParser Expr) (e : Expr) : (fuel : List Token) → TokenParser Expr
  | [] => pure e
  | _ :: fuel => do
    match ← peekKind with
    | .symbol .openRound => do
      let _ ← advance
      let (args, named) ← parseArguments expr [] [] (← remaining)
      expect .closeRound "')'"
      parseSuffixes expr (.call e args named) fuel
    | .symbol .dot => do
      let _ ← advance
      match (← advance).kind with
      | .name name => parseSuffixes expr (.attribute e name) fuel
      | _ => failHere .missingAttribute
    | .symbol .openSquare => do
      let _ ← advance
      let index ← expr
      expect .closeSquare "']'"
      parseSuffixes expr (.item e index) fuel
    | _ => pure e

/-- An operand: `sub` reads an expression, one level deeper, that binds at least as hard. -/
def parseOperand (field : List Char → Nat → Except SyntaxError Expr)
    (sub : Nat → TokenParser Expr) :
    TokenParser Expr := do
  match prefixed? (← peekKind) with
  | some (op, power) => do
    let _ ← advance
    return .unary op (← sub power)
  | none => do
    let atom ← parseAtom field (sub 0)
    parseSuffixes (sub 0) atom (← remaining)

def failTooDeep : TokenParser α := do throw ⟨.tooDeep, (← peek).line⟩

/-- The operator at the next token, if its power on the left is at least `least`; it is taken. -/
def takeInfix (least : Nat) : TokenParser (Option Infix) := do
  match Infix.ofTokens? (← peekKind) (← peekSecond) with
  | none => pure none
  | some i =>
    if i.leftPower < least then pure none
    else
      let _ ← advance
      if i.width = 2 then
        let _ ← advance
      pure (some i)

mutual

/-- Reads an expression of at most `levels` levels whose operators bind at least as `least`. -/
def parseExpr (field : List Char → Nat → Except SyntaxError Expr) (levels least : Nat) :
    TokenParser Expr :=
  match levels with
  | 0 => failTooDeep
  | levels + 1 => do
    let left ← parseOperand field (parseExpr field levels)
    parseOperators field levels least left false

/-- Reads on behind the operand `left`, which is an open comparison chain if `chained` is set. -/
def parseOperators (field : List Char → Nat → Except SyntaxError Expr) (levels least : Nat)
    (left : Expr) (chained : Bool) : TokenParser Expr :=
  match levels with
  | 0 => do
    match ← takeInfix least with
    | none => pure left
    | some _ => failTooDeep
  | levels + 1 => do
    match ← takeInfix least with
    | none => pure left
    | some i => do
      let right ← parseExpr field levels i.rightPower
      parseOperators field levels least (i.apply chained left right) i.isCompare

end

/--
Reads the source of one expression. The expressions in a format string are read in the same way,
with all levels anew; `nesting` bounds how deep format strings lie inside each other.
-/
def parseExpressionWithin (nesting : Nat) (source : List Char) (line : Nat) :
    Except SyntaxError Expr := do
  let field := match nesting with
    | 0 => fun _ line => .error ⟨.tooDeep, line⟩
    | nesting + 1 => parseExpressionWithin nesting
  let tokens ← tokenizeExpression source line
  let whole : TokenParser Expr := do
    let e ← parseExpr field maxDepth 0
    match ← peekKind with
    | .eof => pure e
    | _ => failHere .invalidSyntax
  match whole.run tokens with
  | .ok e _ => .ok e
  | .error e _ => .error e

/-- A format string is longer than the expressions in it, so its length bounds the nesting. -/
def parseExpression (source : List Char) (line : Nat) : Except SyntaxError Expr :=
  parseExpressionWithin source.length source line

end LiveDoc.Fragment
