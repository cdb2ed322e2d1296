import LiveDoc.Fragment.ParseExpr

/-!
Reading statements. A block is either one simple statement behind the colon or an indented list of
statements; `break` and `continue` are read only inside a loop. Each statement takes a token at
least, so the number of tokens bounds the recursion.
-/
namespace LiveDoc.Fragment

open TokenParser

def endStatement : TokenParser Unit := do
  match ← peekKind with
  | .newline => do
    let _ ← advance
  | .eof => pure ()
  | .dedent => pure ()
  | _ => failHere .invalidSyntax

def targetOf (e : Expr) : TokenParser Target :=
  match e with
  | .name s => pure (.name s)
  | .item (.name s) index => pure (.item s index)
  | .item _ _ => failHere .nestedTarget
  | _ => failHere .notATarget

/-- An expression, an assignment, or an update of what a target holds. -/
def parseExpressionStatement (expr : TokenParser Expr) : TokenParser Action := do
  let e ← expr
  let update (op : BinaryOp) : TokenParser Action := do
    let target ← targetOf e
    let _ ← advance
    return .update target op (← expr)
  match ← peekKind with
  | .symbol .assign => do
    let target ← targetOf e
    let _ ← advance
    return .assign target (← expr)
  | .symbol .plusAssign => update .add
  | .symbol .minusAssign => update .sub
  | .symbol .starAssign => update .mul
  | _ => pure (.evaluate e)

def parseSimple (expr : TokenParser Expr) (inLoop : Bool) : TokenParser Stmt := do
  let first ← peek
  let action ← match first.kind with
    | .keyword .pass => do
      let _ ← advance
      pure Action.pass
    | .keyword .breakLoop => do
      if ! inLoop then failHere .breakOutsideLoop
      let _ ← advance
      pure .breakLoop
    | .keyword .continueLoop => do
      if ! inLoop then failHere .continueOutsideLoop
      let _ ← advance
      pure .continueLoop
    | .keyword .raise => do
      let _ ← advance
      if ← atStatementEnd then pure (.raise none)
      else
        let what ← expr
        pure (.raise (some what))
    | .keyword .assert => do
      let _ ← advance
      let test ← expr
      if ← eat .comma then
        let message ← expr
        pure (.assert test (some message))
      else pure (.assert test none)
    | _ => parseExpressionStatement expr
  pure (.mk first.line action)

def parseSimpleLine (expr : TokenParser Expr) (inLoop : Bool) : TokenParser Stmt := do
  let s ← parseSimple expr inLoop
  endStatement
  pure s

def eatLayout (isWanted : Token.Kind → Bool) : TokenParser Bool := do
  if isWanted (← peekKind) then
    let _ ← advance
    pure true
  else pure false

def isNewline : Token.Kind → Bool
  | .newline => true
  | _ => false

def isIndent : Token.Kind → Bool
  | .indent => true
  | _ => false

def isDedent : Token.Kind → Bool
  | .dedent => true
  | _ => false

def isEof : Token.Kind → Bool
  | .eof => true
  | _ => false

/-- The name that a `for` statement on the given line binds. -/
def parseLoopVariable (line : Nat) : TokenParser String := do
  match (← advance).kind with
  | .name s => pure s
  | _ => throw ⟨.missingLoopVariable, line⟩

mutual

def parseStatement (expr : TokenParser Expr) (inLoop : Bool) : (fuel : Nat) → TokenParser Stmt
  | 0 => failHere .invalidSyntax
  | fuel + 1 => do
    let first ← peek
    match first.kind with
    | .keyword .ifThen => do
      let _ ← advance
      let condition ← expr
      let body ← parseSuite expr inLoop fuel
      let branches ← parseBranches expr inLoop fuel
      let otherwise ← if ← eatKeyword .otherwise then parseSuite expr inLoop fuel else pure []
      pure (.mk first.line (.choose ((condition, body) :: branches) otherwise))
    | .keyword .whileTrue => do
      let _ ← advance
      let condition ← expr
      let body ← parseSuite expr true fuel
      pure (.mk first.line (.whileTrue condition body))
    | .keyword .forEach => do
      let _ ← advance
      let name ← parseLoopVariable first.line
      if ! (← eatKeyword .isIn) then failHere (.expected "'in'")
      let items ← expr
      let body ← parseSuite expr true fuel
      pure (.mk first.line (.forEach name items body))
    | _ => parseSimpleLine expr inLoop

/-- The `elif` branches behind the first branch. -/
def parseBranches (expr : TokenParser Expr) (inLoop : Bool) :
    (fuel : Nat) → TokenParser (List (Expr × List Stmt))
  | 0 => pure []
  | fuel + 1 => do
    if ← eatKeyword .elseIf then
      let condition ← expr
      let body ← parseSuite expr inLoop fuel
      let more ← parseBranches expr inLoop fuel
      pure ((condition, body) :: more)
    else pure []

/-- A colon and the block behind it. -/
def parseSuite (expr : TokenParser Expr) (inLoop : Bool) : (fuel : Nat) → TokenParser (List Stmt)
  | 0 => failHere .invalidSyntax
  | fuel + 1 => do
    expect .colon "':'"
    if ! (← eatLayout isNewline) then return [← parseSimpleLine expr inLoop]
    if ! (← eatLayout isIndent) then throw ⟨.missingBlock, (← peek).line⟩
    let body ← parseBlock expr inLoop fuel
    let _ ← eatLayout isDedent
    pure body

/-- The statements up to the end of an indented block. -/
def parseBlock (expr : TokenParser Expr) (inLoop : Bool) : (fuel : Nat) → TokenParser (List Stmt)
  | 0 => pure []
  | fuel + 1 => do
    let kind ← peekKind
    if isDedent kind || isEof kind then pure []
    else if ← eatLayout isNewline then parseBlock expr inLoop fuel
    else
      let s ← parseStatement expr inLoop fuel
      let rest ← parseBlock expr inLoop fuel
      pure (s :: rest)

end

/-- The statements up to the end of the fragment. -/
def parseStatements (expr : TokenParser Expr) : (fuel : Nat) → TokenParser Program
  | 0 => pure []
  | fuel + 1 => do
    let t ← peek
    match t.kind with
    | .eof => pure []
    | .newline => do
      let _ ← advance
      parseStatements expr fuel
    | .indent => throw ⟨.unexpectedIndent, t.line⟩
    | _ => do
      let s ← parseStatement expr false fuel
      let rest ← parseStatements expr fuel
      pure (s :: rest)

def parseTokens (field : List Char → Nat → Except SyntaxError Expr) (tokens : List Token) :
    Except SyntaxError Program :=
  match (parseStatements (parseExpr field maxDepth 0) (2 * tokens.length + 2)).run tokens with
  | .ok program _ => .ok program
  | .error e _ => .error e

/-- Reads a whole fragment. -/
def parseProgram (source : List Char) : Except SyntaxError Program := do
  let tokens ← tokenize source
  parseTokens (parseExpressionWithin source.length) tokens

end LiveDoc.Fragment
