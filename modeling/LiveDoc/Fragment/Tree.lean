/-!
The syntax trees of the fragment language. A program is a list of statements, each with the line
of its first token. A comparison holds all operators of a chain, as in `a < b <= c`.
-/
namespace LiveDoc.Fragment

inductive BinaryOp where
  | add
  | sub
  | mul
  | div
  | floorDiv
  | mod
  | pow
deriving DecidableEq, Repr

def BinaryOp.symbol : BinaryOp → String
  | add => "+"
  | sub => "-"
  | mul => "*"
  | div => "/"
  | floorDiv => "//"
  | mod => "%"
  | pow => "**"

inductive UnaryOp where
  | neg
  | pos
  | not
deriving DecidableEq, Repr

/-- Operators that evaluate their right operand only if the left one does not decide. -/
inductive LogicOp where
  | and
  | or
deriving DecidableEq, Repr

inductive CompareOp where
  | equal
  | notEqual
  | less
  | greater
  | lessEqual
  | greaterEqual
  | isIn
  | notIn
deriving DecidableEq, Repr

def CompareOp.symbol : CompareOp → String
  | equal => "=="
  | notEqual => "!="
  | less => "<"
  | greater => ">"
  | lessEqual => "<="
  | greaterEqual => ">="
  | isIn => "in"
  | notIn => "not in"

inductive Constant where
  | nothing
  | bool (b : Bool)
  | int (n : Nat)
  | float (x : Float)
  | str (s : String)

mutual

inductive Expr where
  | constant (c : Constant)
  | name (s : String)
  | format (parts : List FormatPart)
  | list (items : List Expr)
  | dict (entries : List (Expr × Expr))
  | unary (op : UnaryOp) (operand : Expr)
  | binary (op : BinaryOp) (left right : Expr)
  | logic (op : LogicOp) (left right : Expr)
  | compare (first : Expr) (others : List (CompareOp × Expr))
  | call (callee : Expr) (args : List Expr) (named : List (String × Expr))
  | attribute (object : Expr) (name : String)
  | item (object index : Expr)

inductive FormatPart where
  | literal (s : String)
  | field (e : Expr)

end

/-- What a value can be assigned to: a name, or an item of what a name holds. -/
inductive Target where
  | name (s : String)
  | item (container : String) (index : Expr)

mutual

inductive Stmt where
  | mk (line : Nat) (action : Action)

inductive Action where
  | evaluate (e : Expr)
  | assign (target : Target) (value : Expr)
  | update (target : Target) (op : BinaryOp) (value : Expr)
  /-- The branches are tried in order; without a true condition the last block runs. -/
  | choose (branches : List (Expr × List Stmt)) (otherwise : List Stmt)
  | forEach (name : String) (items : Expr) (body : List Stmt)
  | whileTrue (condition : Expr) (body : List Stmt)
  | breakLoop
  | continueLoop
  | pass
  | raise (what : Option Expr)
  | assert (test : Expr) (message : Option Expr)

end

def Stmt.line : Stmt → Nat
  | mk line _ => line

def Stmt.action : Stmt → Action
  | mk _ action => action

abbrev Program := List Stmt

end LiveDoc.Fragment
