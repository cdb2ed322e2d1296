import LiveDoc.Proofs.Fragment.LevelReading

/-!
How an expression begins and where it stops. Its first token is one that expressions begin with,
and it never looks like a keyword argument. It stops in front of a token that neither goes on with
its last operand nor is an operator that pulls at this operand hard enough: the power with which an
expression holds its last operand is `closing`.
-/
namespace LiveDoc.Fragment

open TokenParser

variable {field : List Char → Nat → Except SyntaxError Expr} {Q : Prop} {levels least need : Nat}
  {tokens ops rest more left : List Token} {b e : Expr} {t : Token} {k : Token.Kind} {i : Infix}

/-! ### How an expression begins -/

def StartsExpr (kinds : List Token.Kind) : Prop :=
  ∃ k ks, kinds = k :: ks ∧ k.isExprStart = true

theorem startsExpr_placed {level : Nat} {kinds : List Token.Kind} (h : StartsExpr kinds)
    (behind : List Token.Kind) : StartsExpr (placed need level kinds ++ behind) := by
  obtain ⟨k, ks, rfl, hk⟩ := h
  rw [placed]
  split
  · exact ⟨_, _, rfl, rfl⟩
  · exact ⟨k, _, rfl, hk⟩

theorem Expr.Written.startsExpr (h : e.Written) : StartsExpr e.kinds := by
  induction h with
  | constant c =>
    refine ⟨c.kind, [], rfl, ?_⟩
    cases c with
    | bool b => cases b <;> rfl
    | _ => rfl
  | name s => exact ⟨_, _, rfl, rfl⟩
  | list => exact ⟨_, _, rfl, rfl⟩
  | dict => exact ⟨_, _, rfl, rfl⟩
  | unary op => exact ⟨_, _, rfl, by cases op <;> rfl⟩
  | binary op _ _ hleft => exact startsExpr_placed hleft _
  | logic op _ _ hleft => exact startsExpr_placed hleft _
  | compare _ _ _ hfirst => exact startsExpr_placed hfirst _
  | call _ _ _ _ hcallee => exact startsExpr_placed hcallee _
  | «attribute» s _ hobject => exact startsExpr_placed hobject _
  | item _ _ hobject => exact startsExpr_placed hobject _

theorem isSymbol_of_start {s : Symbol} (hk : k.isExprStart = true)
    (hs : (Token.Kind.symbol s).isExprStart = false) : k.isSymbol s = false := by
  by_contra hsymbol
  rw [kind_of_isSymbol (Bool.of_not_eq_false hsymbol), hs] at hk
  cases hk

/-- No keyword argument begins at the tokens, unless they end as a name in front of its sign. -/
def Plain (kinds : List Token.Kind) : Prop :=
  ∀ k more, k ≠ .symbol .assign → beginsNamed (kinds ++ k :: more) = false

theorem plain_placed {level : Nat} {kinds : List Token.Kind} (h : Plain kinds)
    (hk : k ≠ .symbol .assign) (behind : List Token.Kind) :
    Plain (placed need level kinds ++ k :: behind) := by
  intro next more _
  rw [placed]
  split
  · rfl
  · rw [List.append_assoc]
    exact h k _ hk

theorem Expr.Written.plain (h : e.Written) : Plain e.kinds := by
  induction h with
  | constant c =>
    intro k more _
    cases c with
    | bool b => cases b <;> rfl
    | _ => rfl
  | name s =>
    intro k more hk
    cases k with
    | symbol s => cases s <;> first | rfl | exact absurd rfl hk
    | _ => rfl
  | list => intro _ _ _; rfl
  | dict => intro _ _ _; rfl
  | unary op => intro _ _ _; cases op <;> rfl
  | binary op _ _ hleft => exact plain_placed hleft (by cases op <;> simp [BinaryOp.kind]) _
  | logic op _ _ hleft => exact plain_placed hleft (by cases op <;> simp [LogicOp.kind]) _
  | @compare first others _ hsome _ hfirst =>
    obtain ⟨⟨op, operand⟩, others, rfl⟩ := List.exists_cons_of_ne_nil hsome
    cases op <;> exact plain_placed hfirst (by simp) _
  | call _ _ _ _ hcallee => exact plain_placed hcallee (by simp) _
  | «attribute» s _ hobject => exact plain_placed hobject (by simp) _
  | item _ _ hobject => exact plain_placed hobject (by simp) _

theorem Expr.Written.depth_pos (h : e.Written) : 0 < e.depth := by
  have hplaced {need level depth : Nat} (h : 0 < depth) : 0 < placedDepth need level depth := by
    rw [placedDepth]
    split
    · exact Nat.succ_pos depth
    · exact h
  induction h with
  | constant => exact Nat.one_pos
  | name => exact Nat.one_pos
  | list => exact Nat.succ_pos _
  | dict => exact Nat.succ_pos _
  | unary => exact Nat.succ_pos _
  | binary _ _ _ hleft => exact (hplaced hleft).trans_le (Nat.le_max_left ..)
  | logic _ _ _ hleft => exact (hplaced hleft).trans_le (Nat.le_max_left ..)
  | compare _ _ _ hfirst => exact (hplaced hfirst).trans_le (Nat.le_max_left ..)
  | call _ _ _ _ hcallee => exact (hplaced hcallee).trans_le (Nat.le_max_left ..)
  | «attribute» _ _ hobject => exact hplaced hobject
  | item _ _ hobject => exact (hplaced hobject).trans_le (Nat.le_max_left ..)

/-! ### Operators at the tokens -/

def Infix.kinds : Infix → List Token.Kind
  | logic op => [op.kind]
  | compare op => op.kinds
  | binary op => [op.kind]

/-- What the operator needs of its left operand. -/
def Infix.leftNeed : Infix → Nat
  | logic op => op.level
  | compare _ => comparedNeed
  | binary op => op.leftNeed

theorem leftPower_logic (op : LogicOp) : (Infix.logic op).leftPower = op.level := by
  cases op <;> rfl

theorem rightPower_logic (op : LogicOp) : (Infix.logic op).rightPower = op.level + 1 := by
  cases op <;> rfl

theorem leftPower_binary (op : BinaryOp) : (Infix.binary op).leftPower = op.level := by
  cases op <;> rfl

theorem rightPower_binary (op : BinaryOp) : (Infix.binary op).rightPower = op.rightNeed := by
  cases op <;> rfl

/-- The operator that the tokens begin with. -/
def infixAt? : List Token → Option Infix
  | [] => none
  | [t] => Infix.ofTokens? t.kind .eof
  | t :: u :: _ => Infix.ofTokens? t.kind u.kind

theorem exists_peeked (tokens : List Token) :
    ∃ first second, peekKind tokens = .ok first tokens ∧ peekSecond tokens = .ok second tokens ∧
      infixAt? tokens = Infix.ofTokens? first second := by
  match tokens with
  | [] => exact ⟨_, _, rfl, rfl, rfl⟩
  | [_] => exact ⟨_, _, rfl, rfl, rfl⟩
  | _ :: _ :: _ => exact ⟨_, _, rfl, rfl, rfl⟩

/-- All operators but one are a single token. -/
theorem Infix.kinds_cases (i : Infix) :
    i = compare .notIn ∨
      ∃ k, i.kinds = [k] ∧ i.width ≠ 2 ∧ ∀ second, ofTokens? k second = some i := by
  cases i with
  | logic op => exact .inr ⟨op.kind, rfl, by simp [width], by cases op <;> exact fun _ => rfl⟩
  | binary op => exact .inr ⟨op.kind, rfl, by simp [width], by cases op <;> exact fun _ => rfl⟩
  | compare op =>
    cases op with
    | notIn => exact .inl rfl
    | _ => exact .inr ⟨_, rfl, by simp [width], fun _ => rfl⟩

theorem infixAt?_of_kinds (h : ops.map Token.kind = i.kinds) (rest : List Token) :
    infixAt? (ops ++ rest) = some i := by
  rcases i.kinds_cases with rfl | ⟨k, hkinds, -, hk⟩
  · obtain ⟨⟨_, _⟩, ops, rfl, rfl, hops⟩ := List.map_eq_cons_iff.mp h
    obtain ⟨⟨_, _⟩, ops, rfl, rfl, -⟩ := List.map_eq_cons_iff.mp hops
    rfl
  · rw [hkinds] at h
    obtain ⟨t, ops, rfl, rfl, hops⟩ := List.map_eq_cons_iff.mp h
    obtain rfl := List.map_eq_nil_iff.mp hops
    cases rest with
    | nil => exact hk .eof
    | cons u rest => exact hk u.kind

theorem takeInfix_of_weaker (h : ∀ i ∈ infixAt? rest, i.leftPower < least) :
    takeInfix least rest = .ok none rest := by
  obtain ⟨first, second, hfirst, hsecond, hop⟩ := exists_peeked rest
  rw [takeInfix, Outcome.run_bind_of_ok hfirst, Outcome.run_bind_of_ok hsecond, ← hop]
  cases hi : infixAt? rest with
  | none => rfl
  | some i =>
    dsimp only
    rw [if_pos (h i hi)]
    rfl

theorem takeInfix_of_kinds (h : ops.map Token.kind = i.kinds) (hleast : least ≤ i.leftPower)
    (hrest : rest ≠ []) : takeInfix least (ops ++ rest) = .ok (some i) rest := by
  obtain ⟨first, second, hfirst, hsecond, hop⟩ := exists_peeked (ops ++ rest)
  rw [takeInfix, Outcome.run_bind_of_ok hfirst, Outcome.run_bind_of_ok hsecond, ← hop,
    infixAt?_of_kinds h]
  dsimp only
  rw [if_neg (Nat.not_lt.mpr hleast)]
  rcases i.kinds_cases with rfl | ⟨k, hkinds, hwidth, -⟩
  · obtain ⟨t, ops, rfl, -, hops⟩ := List.map_eq_cons_iff.mp h
    obtain ⟨u, ops, rfl, -, hops⟩ := List.map_eq_cons_iff.mp hops
    obtain rfl := List.map_eq_nil_iff.mp hops
    rw [List.cons_append, Outcome.run_bind_of_ok (advance_cons t (by simp))]
    exact Outcome.run_bind_of_ok (advance_cons u hrest)
  · rw [hkinds] at h
    obtain ⟨t, ops, rfl, -, hops⟩ := List.map_eq_cons_iff.mp h
    obtain rfl := List.map_eq_nil_iff.mp hops
    rw [List.singleton_append, Outcome.run_bind_of_ok (advance_cons t hrest), if_neg hwidth]
    rfl

/-! ### Where an expression stops -/

/-- The token goes on with the operand in front of it. -/
def Token.Kind.extendsOperand : Token.Kind → Bool
  | .str _ => true
  | .symbol .openRound => true
  | .symbol .openSquare => true
  | .symbol .dot => true
  | _ => false

/-- What is read with operators of at least this power stops in front of these tokens. -/
structure Stops (power : Nat) (rest : List Token) : Prop where
  whole : ∃ t more, rest = t :: more ∧ t.kind.extendsOperand = false
  weaker : ∀ i ∈ infixAt? rest, i.leftPower < power

namespace Stops

theorem mono {power : Nat} (h : Stops power rest) (hpower : power ≤ least) : Stops least rest where
  whole := h.whole
  weaker i hi := (h.weaker i hi).trans_le hpower

theorem of_ends (power : Nat) (ht : t.kind.endsExpression = true) (more : List Token) :
    Stops power (t :: more) := by
  obtain ⟨line, kind⟩ := t
  have hkind : kind.extendsOperand = false ∧ ∀ second, Infix.ofTokens? kind second = none := by
    cases kind with
    | symbol s => cases s <;> first | exact Bool.noConfusion ht | exact ⟨rfl, fun _ => rfl⟩
    | eof => exact ⟨rfl, fun _ => rfl⟩
    | _ => cases ht
  refine ⟨⟨_, _, rfl, hkind.1⟩, fun i hi => ?_⟩
  cases more with
  | nil => exact absurd ((hkind.2 .eof).symm.trans hi) (by simp)
  | cons u more => exact absurd ((hkind.2 u.kind).symm.trans hi) (by simp)

theorem of_kinds {power : Nat} (h : ops.map Token.kind = i.kinds) (hpower : i.leftPower < power)
    (rest : List Token) : Stops power (ops ++ rest) := by
  constructor
  · have hkind : ∃ k ks, i.kinds = k :: ks ∧ k.extendsOperand = false := by
      cases i with
      | logic op => exact ⟨_, _, rfl, by cases op <;> rfl⟩
      | compare op => cases op <;> exact ⟨_, _, rfl, rfl⟩
      | binary op => exact ⟨_, _, rfl, by cases op <;> rfl⟩
    obtain ⟨k, ks, hkinds, hk⟩ := hkind
    obtain ⟨t, ops, rfl, rfl, -⟩ := List.map_eq_cons_iff.mp (h.trans hkinds)
    exact ⟨t, _, rfl, hk⟩
  · intro j hj
    rw [infixAt?_of_kinds h] at hj
    cases hj
    exact hpower

variable {power : Nat} (h : Stops power rest)

include h

theorem parseOperators_eq (hpower : power ≤ least) (chained : Bool) :
    parseOperators field levels least e chained rest = .ok e rest := by
  have hnone : takeInfix least rest = .ok none rest :=
    takeInfix_of_weaker fun i hi => (h.weaker i hi).trans_le hpower
  cases levels with
  | zero =>
    rw [parseOperators, Outcome.run_bind_of_ok hnone]
    rfl
  | succ levels =>
    rw [parseOperators, Outcome.run_bind_of_ok hnone]
    rfl

theorem parseSuffixes_eq (expr : TokenParser Expr) (fuel : List Token) :
    parseSuffixes expr e fuel rest = .ok e rest := by
  obtain ⟨⟨line, kind⟩, more, rfl, hkind⟩ := h.whole
  cases fuel with
  | nil => rfl
  | cons u fuel =>
    cases kind with
    | symbol s => cases s <;> first | exact Bool.noConfusion hkind | rfl
    | _ => rfl

end Stops

/-! ### How hard an expression holds its last operand -/

/-- With which power the last operand of an expression is held. -/
def Expr.closing : Expr → Nat
  | .logic op _ _ => op.level + 1
  | .unary op _ => op.level
  | .compare _ _ => comparedNeed
  | .binary op _ _ => op.rightNeed
  | _ => objectNeed

def Expr.isCompare : Expr → Bool
  | .compare _ _ => true
  | _ => false

/-- Only chains that group to the left are held harder than their own level. The others have levels
at which no such chain stands. -/
theorem closing_cases (e : Expr) :
    e.closing = e.level + 1 ∨
      e.closing = e.level ∧ (e.level = 6 ∨ e.level = 14 ∨ e.level = 16 ∨ e.level = 18) := by
  cases e with
  | logic op => exact .inl rfl
  | compare => exact .inl rfl
  | unary op => cases op <;> exact .inr ⟨rfl, by simp [Expr.level, UnaryOp.level]⟩
  | binary op =>
    cases op with
    | pow => exact .inr ⟨rfl, by simp [Expr.level, BinaryOp.level]⟩
    | _ => exact .inl rfl
  | _ => exact .inr ⟨rfl, by simp [Expr.level]⟩

theorem leftNeed_cases (i : Infix) :
    i.leftNeed = i.leftPower + 1 ∨
      i.leftNeed = i.leftPower ∧
        (i.leftPower = 2 ∨ i.leftPower = 4 ∨ i.leftPower = 10 ∨ i.leftPower = 12) := by
  cases i with
  | logic op => cases op <;> exact .inr ⟨rfl, by simp [Infix.leftPower]⟩
  | compare => exact .inl rfl
  | binary op =>
    cases op with
    | pow => exact .inl rfl
    | _ => exact .inr ⟨rfl, by simp [Infix.leftPower]⟩

theorem leftPower_le_leftNeed (i : Infix) : i.leftPower ≤ i.leftNeed := by
  have := leftNeed_cases i
  omega

theorem power_bounds (i : Infix) : i.leftPower < objectNeed ∧ i.rightPower ≤ objectNeed := by
  cases i with
  | compare op => cases op <;> decide
  | logic op => cases op <;> decide
  | binary op => cases op <;> decide

theorem UnaryOp.level_lt (op : UnaryOp) : op.level < objectNeed := by
  cases op <;> decide

theorem LogicOp.level_lt (op : LogicOp) : op.level < objectNeed := by
  cases op <;> decide

theorem BinaryOp.level_lt (op : BinaryOp) : op.level < objectNeed := by
  cases op <;> decide

theorem level_le_closing (e : Expr) : e.level ≤ e.closing := by
  have := closing_cases e
  omega

/-- An operand that holds what its place needs is not torn apart by the operator behind it. -/
theorem leftPower_lt_closing (h : i.leftNeed ≤ e.level) : i.leftPower < e.closing := by
  have := closing_cases e
  have := leftNeed_cases i
  omega

end LiveDoc.Fragment
