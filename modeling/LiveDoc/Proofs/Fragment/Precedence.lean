import LiveDoc.Fragment.ParseExpr

/-!
Expressions written with the brackets that precedence needs. Every form of expression has a level,
from 2 for `or` up to 18 for what is read as a whole, and every place in a form needs a level of
what stands there. `kinds` are the tokens of an expression that has a part in brackets exactly
where the level of the part is lower than its place needs. `depth` counts the levels that the
reading of these tokens takes: one for each operand in an operand, one for each pair of brackets
and one for each operator of a chain.
-/
namespace LiveDoc.Fragment

/-! ### Levels -/

def BinaryOp.level : BinaryOp → Nat
  | add => 10
  | sub => 10
  | mul => 12
  | div => 12
  | floorDiv => 12
  | mod => 12
  | pow => 16

def LogicOp.level : LogicOp → Nat
  | or => 2
  | and => 4

def UnaryOp.level : UnaryOp → Nat
  | not => 6
  | neg => 14
  | pos => 14

/-- What an operand of a comparison needs. -/
def comparedNeed : Nat := 9

/-- What the object of a call, an attribute or an item needs. -/
def objectNeed : Nat := 18

/-- What the left operand needs: as much as the operator, so that chains group to the left. -/
def BinaryOp.leftNeed : BinaryOp → Nat
  | pow => 17
  | op => op.level

def BinaryOp.rightNeed : BinaryOp → Nat
  | pow => 16
  | op => op.level + 1

def Expr.level : Expr → Nat
  | .logic op _ _ => op.level
  | .unary op _ => op.level
  | .compare _ _ => 8
  | .binary op _ _ => op.level
  | _ => 18

/-! ### Tokens -/

def BinaryOp.kind : BinaryOp → Token.Kind
  | add => .symbol .plus
  | sub => .symbol .minus
  | mul => .symbol .star
  | div => .symbol .slash
  | floorDiv => .symbol .doubleSlash
  | mod => .symbol .percent
  | pow => .symbol .doubleStar

def LogicOp.kind : LogicOp → Token.Kind
  | and => .keyword .and
  | or => .keyword .or

def UnaryOp.kind : UnaryOp → Token.Kind
  | neg => .symbol .minus
  | pos => .symbol .plus
  | not => .keyword .not

def CompareOp.kinds : CompareOp → List Token.Kind
  | equal => [.symbol .equal]
  | notEqual => [.symbol .notEqual]
  | less => [.symbol .less]
  | greater => [.symbol .greater]
  | lessEqual => [.symbol .lessEqual]
  | greaterEqual => [.symbol .greaterEqual]
  | isIn => [.keyword .isIn]
  | notIn => [.keyword .not, .keyword .isIn]

def Constant.kind : Constant → Token.Kind
  | nothing => .keyword .nothing
  | bool true => .keyword .yes
  | bool false => .keyword .no
  | int n => .int n
  | float x => .float x
  | str s => .str s

/-- A part of the given level at a place that needs the level `need`. -/
def placed (need level : Nat) (kinds : List Token.Kind) : List Token.Kind :=
  if level < need then .symbol .openRound :: (kinds ++ [.symbol .closeRound]) else kinds

/-- Commas between the parts, but none behind the last one. -/
def separated (parts : List (List Token.Kind)) : List Token.Kind :=
  [.symbol .comma].intercalate parts

mutual

/-- The tokens of an expression. Format strings hold source text and are not written. -/
def Expr.kinds : Expr → List Token.Kind
  | .constant c => [c.kind]
  | .name s => [.name s]
  | .format _ => []
  | .list items => .symbol .openSquare :: (separated (kindsOfItems items) ++ [.symbol .closeSquare])
  | .dict entries =>
    .symbol .openCurly :: (separated (kindsOfEntries entries) ++ [.symbol .closeCurly])
  | .unary op operand => op.kind :: placed op.level operand.level operand.kinds
  | .binary op left right =>
    placed op.leftNeed left.level left.kinds ++
      op.kind :: placed op.rightNeed right.level right.kinds
  | .logic op left right =>
    placed op.level left.level left.kinds ++
      op.kind :: placed (op.level + 1) right.level right.kinds
  | .compare first others =>
    placed comparedNeed first.level first.kinds ++ kindsOfChain others
  | .call callee args named =>
    placed objectNeed callee.level callee.kinds ++
      .symbol .openRound :: (separated (kindsOfItems args ++ kindsOfNamed named) ++
        [.symbol .closeRound])
  | .attribute object s => placed objectNeed object.level object.kinds ++ [.symbol .dot, .name s]
  | .item object index =>
    placed objectNeed object.level object.kinds ++
      .symbol .openSquare :: (index.kinds ++ [.symbol .closeSquare])

def kindsOfItems : List Expr → List (List Token.Kind)
  | [] => []
  | e :: rest => e.kinds :: kindsOfItems rest

def kindsOfEntries : List (Expr × Expr) → List (List Token.Kind)
  | [] => []
  | (key, value) :: rest => (key.kinds ++ .symbol .colon :: value.kinds) :: kindsOfEntries rest

def kindsOfNamed : List (String × Expr) → List (List Token.Kind)
  | [] => []
  | (s, value) :: rest => (.name s :: .symbol .assign :: value.kinds) :: kindsOfNamed rest

/-- The operators of a comparison with the operands behind them. -/
def kindsOfChain : List (CompareOp × Expr) → List Token.Kind
  | [] => []
  | (op, operand) :: rest =>
    op.kinds ++ (placed comparedNeed operand.level operand.kinds ++ kindsOfChain rest)

end

/-! ### Depth -/

/-- The depth of a part at a place that needs the level `need`. -/
def placedDepth (need level depth : Nat) : Nat :=
  if level < need then depth + 1 else depth

/-- Brackets end a chain. -/
def placedChain (need level chain : Nat) : Nat :=
  if level < need then 0 else chain

/-- The number of operators that are read one behind the other, all on one level of operands. -/
def Expr.chain : Expr → Nat
  | .binary op left _ => placedChain op.leftNeed left.level left.chain + 1
  | .logic op left _ => placedChain op.level left.level left.chain + 1
  | .compare first others => placedChain comparedNeed first.level first.chain + others.length
  | _ => 0

mutual

def Expr.depth : Expr → Nat
  | .constant _ => 1
  | .name _ => 1
  | .format _ => 1
  | .list items => depthOfItems items + 1
  | .dict entries => depthOfEntries entries + 1
  | .unary op operand => placedDepth op.level operand.level operand.depth + 1
  | .binary op left right =>
    max (placedDepth op.leftNeed left.level left.depth)
      (placedChain op.leftNeed left.level left.chain + 1 +
        (placedDepth op.rightNeed right.level right.depth + 1))
  | .logic op left right =>
    max (placedDepth op.level left.level left.depth)
      (placedChain op.level left.level left.chain + 1 +
        (placedDepth (op.level + 1) right.level right.depth + 1))
  | .compare first others =>
    max (placedDepth comparedNeed first.level first.depth)
      (placedChain comparedNeed first.level first.chain + 1 + depthOfChain others)
  | .call callee args named =>
    max (placedDepth objectNeed callee.level callee.depth)
      (max (depthOfItems args) (depthOfNamed named) + 1)
  | .attribute object _ => placedDepth objectNeed object.level object.depth
  | .item object index =>
    max (placedDepth objectNeed object.level object.depth) (index.depth + 1)

def depthOfItems : List Expr → Nat
  | [] => 0
  | e :: rest => max e.depth (depthOfItems rest)

def depthOfEntries : List (Expr × Expr) → Nat
  | [] => 0
  | (key, value) :: rest => max (max key.depth value.depth) (depthOfEntries rest)

def depthOfNamed : List (String × Expr) → Nat
  | [] => 0
  | (_, value) :: rest => max value.depth (depthOfNamed rest)

/-- Each operator takes one level more than the operators before it. -/
def depthOfChain : List (CompareOp × Expr) → Nat
  | [] => 0
  | (_, operand) :: rest =>
    max (placedDepth comparedNeed operand.level operand.depth) (depthOfChain rest) + 1

end

/-! ### Expressions that have tokens of their own -/

/-- Expressions without format strings. A comparison has an operator, and a call has each keyword
once. -/
inductive Expr.Written : Expr → Prop where
  | constant (c : Constant) : Written (.constant c)
  | name (s : String) : Written (.name s)
  | list {items : List Expr} (hitems : ∀ e ∈ items, Written e) : Written (.list items)
  | dict {entries : List (Expr × Expr)} (hkeys : ∀ entry ∈ entries, Written entry.1)
    (hvalues : ∀ entry ∈ entries, Written entry.2) : Written (.dict entries)
  | unary (op : UnaryOp) {operand : Expr} (h : Written operand) : Written (.unary op operand)
  | binary (op : BinaryOp) {left right : Expr} (hleft : Written left) (hright : Written right) :
    Written (.binary op left right)
  | logic (op : LogicOp) {left right : Expr} (hleft : Written left) (hright : Written right) :
    Written (.logic op left right)
  | compare {first : Expr} {others : List (CompareOp × Expr)} (hfirst : Written first)
    (hsome : others ≠ []) (hothers : ∀ other ∈ others, Written other.2) :
    Written (.compare first others)
  | call {callee : Expr} {args : List Expr} {named : List (String × Expr)}
    (hcallee : Written callee) (hargs : ∀ e ∈ args, Written e)
    (hnamed : ∀ arg ∈ named, Written arg.2) (honce : (named.map Prod.fst).Nodup) :
    Written (.call callee args named)
  | attribute {object : Expr} (s : String) (h : Written object) : Written (.attribute object s)
  | item {object index : Expr} (hobject : Written object) (hindex : Written index) :
    Written (.item object index)

theorem separated_cons_cons (part next : List Token.Kind) (parts : List (List Token.Kind)) :
    separated (part :: next :: parts) = part ++ .symbol .comma :: separated (next :: parts) := by
  simp [separated, List.intercalate_cons_cons]

theorem separated_cons (part : List Token.Kind) (parts : List (List Token.Kind)) :
    separated (part :: parts) = part ++ parts.flatMap (.symbol .comma :: ·) := by
  induction parts generalizing part with
  | nil => simp [separated]
  | cons next rest ih =>
    rw [separated_cons_cons, ih, List.flatMap_cons, List.cons_append]

theorem kindsOfItems_eq_map (items : List Expr) : kindsOfItems items = items.map Expr.kinds := by
  induction items with
  | nil => rfl
  | cons e rest ih => rw [kindsOfItems, ih, List.map_cons]

def kindsOfEntry (entry : Expr × Expr) : List Token.Kind :=
  entry.1.kinds ++ .symbol .colon :: entry.2.kinds

theorem kindsOfEntries_eq_map (entries : List (Expr × Expr)) :
    kindsOfEntries entries = entries.map kindsOfEntry := by
  induction entries with
  | nil => rfl
  | cons entry rest ih => rw [kindsOfEntries, ih, List.map_cons, kindsOfEntry]

theorem depthOfItems_le {items : List Expr} {n : Nat} :
    depthOfItems items ≤ n ↔ ∀ e ∈ items, e.depth ≤ n := by
  induction items with
  | nil => simp [depthOfItems]
  | cons e rest ih => rw [depthOfItems, Nat.max_le, ih, List.forall_mem_cons]

theorem depthOfEntries_le {entries : List (Expr × Expr)} {n : Nat} :
    depthOfEntries entries ≤ n ↔
      ∀ entry ∈ entries, entry.1.depth ≤ n ∧ entry.2.depth ≤ n := by
  induction entries with
  | nil => simp [depthOfEntries]
  | cons entry rest ih =>
    rw [depthOfEntries, Nat.max_le, Nat.max_le, ih, List.forall_mem_cons]

theorem depthOfNamed_le {named : List (String × Expr)} {n : Nat} :
    depthOfNamed named ≤ n ↔ ∀ arg ∈ named, arg.2.depth ≤ n := by
  induction named with
  | nil => simp [depthOfNamed]
  | cons arg rest ih => rw [depthOfNamed, Nat.max_le, ih, List.forall_mem_cons]

end LiveDoc.Fragment
