import LiveDoc.Fragment.ParseExpr
import LiveDoc.Proofs.Outcome

/-!
The lines of errors in expressions. A reader of tokens leaves an end of the tokens it was given,
and never an empty one, and an error is met on the line of one of them. The expressions inside a
format string are no exception, since their errors are put on the line of the whole string. What is
known of the trees that are read is carried along: it is enough that each form of tree has it from
its parts. An expression begins with a token of its own, so one that is read tells how the tokens
began.
-/
namespace LiveDoc.Fragment

open TokenParser

variable {α β : Type}

/-- A reader ends with some of the tokens `base` left and a value that has the property, or with an
error on the line of one of them. -/
def Ends (base : List Token) (good : α → Prop) : EStateM.Result SyntaxError (List Token) α → Prop
  | .ok a rest => rest <:+ base ∧ rest ≠ [] ∧ good a
  | .error e _ => ∃ t ∈ base, e.line = t.line

/-- The reader ends so wherever among the tokens `base` it begins. -/
def Reads (base : List Token) (act : TokenParser α) (good : α → Prop) : Prop :=
  ∀ tokens, tokens <:+ base → tokens ≠ [] → Ends base good (act tokens)

variable {base tokens : List Token} {act : TokenParser α} {next : α → TokenParser β}
  {good : α → Prop} {fine : β → Prop}

theorem Ends.bind (hact : Ends base good (act tokens))
    (hnext : ∀ a, good a → Reads base (next a) fine) :
    Ends base fine ((act >>= next) tokens) := by
  cases h : act tokens with
  | error e rest =>
    rw [Outcome.run_bind_of_error h]
    rw [h] at hact
    exact hact
  | ok a rest =>
    rw [Outcome.run_bind_of_ok h]
    rw [h] at hact
    obtain ⟨hrest, hmore, ha⟩ := hact
    exact hnext a ha rest hrest hmore

/-- What is known of a value may come from the reading of it. -/
theorem Ends.mono {better : α → Prop} (hact : Ends base good (act tokens))
    (himp : ∀ a rest, act tokens = .ok a rest → good a → better a) :
    Ends base better (act tokens) := by
  cases h : act tokens with
  | error e rest =>
    rw [h] at hact
    exact hact
  | ok a rest =>
    rw [h] at hact
    exact ⟨hact.1, hact.2.1, himp a rest h hact.2.2⟩

namespace Reads

theorem pure {a : α} (h : good a) : Reads base (Pure.pure a) good := by
  intro tokens hbase hsome
  exact ⟨hbase, hsome, h⟩

theorem bind (hact : Reads base act good) (hnext : ∀ a, good a → Reads base (next a) fine) :
    Reads base (act >>= next) fine := by
  intro tokens hbase hsome
  exact (hact tokens hbase hsome).bind hnext

theorem throw {e : SyntaxError} (h : ∃ t ∈ base, e.line = t.line) :
    Reads base (MonadExcept.throw e) good := by
  intro tokens hbase hsome
  exact h

end Reads

theorem reads_peek : Reads base peek (· ∈ base) := by
  intro tokens hbase hsome
  cases tokens with
  | nil => exact absurd rfl hsome
  | cons t rest => exact ⟨hbase, hsome, hbase.subset (List.mem_cons_self ..)⟩

theorem peek_cons (t : Token) (rest : List Token) : peek (t :: rest) = .ok t (t :: rest) := rfl

/-- The token that is looked at first is known where the tokens are. -/
theorem Ends.peek {t : Token} {rest : List Token} {next : Token → TokenParser α}
    (hbase : t :: rest <:+ base) (h : Reads base (next t) good) :
    Ends base good ((TokenParser.peek >>= next) (t :: rest)) := by
  rw [Outcome.run_bind_of_ok (peek_cons t rest)]
  exact h _ hbase (List.cons_ne_nil t rest)

theorem reads_peekKind : Reads base peekKind fun _ => True :=
  reads_peek.bind fun _ _ => Reads.pure trivial

theorem reads_peekSecond : Reads base peekSecond fun _ => True := by
  intro tokens hbase hsome
  match tokens with
  | [] => exact absurd rfl hsome
  | [_] => exact ⟨hbase, hsome, trivial⟩
  | _ :: _ :: _ => exact ⟨hbase, hsome, trivial⟩

theorem reads_remaining : Reads base remaining fun _ => True := by
  intro tokens hbase hsome
  exact ⟨hbase, hsome, trivial⟩

theorem reads_advance : Reads base advance (· ∈ base) := by
  intro tokens hbase hsome
  match tokens with
  | [] => exact absurd rfl hsome
  | [t] => exact ⟨hbase, hsome, hbase.subset (List.mem_cons_self ..)⟩
  | t :: u :: rest =>
    exact ⟨(List.suffix_cons t _).trans hbase, List.cons_ne_nil _ _,
      hbase.subset (List.mem_cons_self ..)⟩

theorem reads_failHere (cause : SyntaxError.Cause) : Reads base (failHere cause) good := by
  refine reads_peek.bind fun t ht => ?_
  split
  · exact .throw ⟨t, ht, rfl⟩
  · exact .throw ⟨t, ht, rfl⟩
  · exact .throw ⟨t, ht, rfl⟩

/-- Where a condition stands in the way of going on. -/
theorem Reads.guard {stop : Bool} {cause : SyntaxError.Cause} {next : Unit → TokenParser α}
    (h : Reads base (next ()) good) :
    Reads base (if stop = true then failHere cause >>= next else next ()) good := by
  have hstop : Reads base (failHere cause : TokenParser Unit) fun _ => False := reads_failHere cause
  split
  · exact hstop.bind fun _ hnever => hnever.elim
  · exact h

theorem reads_failTooDeep : Reads base (failTooDeep : TokenParser α) good :=
  reads_peek.bind fun t ht => .throw ⟨t, ht, rfl⟩

theorem reads_atSymbol (s : Symbol) : Reads base (atSymbol s) fun _ => True := by
  refine reads_peekKind.bind fun kind _ => ?_
  split
  · exact .pure trivial
  · exact .pure trivial

theorem reads_atKeyword (k : Keyword) : Reads base (atKeyword k) fun _ => True := by
  refine reads_peekKind.bind fun kind _ => ?_
  split
  · exact .pure trivial
  · exact .pure trivial

theorem reads_eat (s : Symbol) : Reads base (eat s) fun _ => True := by
  refine (reads_atSymbol s).bind fun found _ => ?_
  split
  · exact reads_advance.bind fun _ _ => .pure trivial
  · exact .pure trivial

theorem reads_eatKeyword (k : Keyword) : Reads base (eatKeyword k) fun _ => True := by
  refine (reads_atKeyword k).bind fun found _ => ?_
  split
  · exact reads_advance.bind fun _ _ => .pure trivial
  · exact .pure trivial

theorem reads_expect (s : Symbol) (what : String) : Reads base (expect s what) fun _ => True := by
  refine (reads_eat s).bind fun found _ => ?_
  split
  · exact .pure trivial
  · exact reads_failHere _

theorem reads_atStatementEnd : Reads base atStatementEnd fun _ => True := by
  refine reads_peekKind.bind fun kind _ => ?_
  split
  all_goals exact .pure trivial

/-! ### Trees -/

variable {expr : TokenParser Expr} {field : List Char → Nat → Except SyntaxError Expr}

/-- An operand has `whole` if the trees in it have `part`. -/
structure Grows (field : List Char → Nat → Except SyntaxError Expr) (part whole : Expr → Prop) :
    Prop where
  constant : ∀ c, whole (.constant c)
  name : ∀ s, whole (.name s)
  format : ∀ {line pieces parts}, parseFormat field line pieces = .ok parts → whole (.format parts)
  bracketed : ∀ {e}, part e → whole e
  list : ∀ {items}, (∀ e ∈ items, part e) → whole (.list items)
  dict : ∀ {entries : List (Expr × Expr)}, (∀ p ∈ entries, part p.1 ∧ part p.2) →
    whole (.dict entries)
  unary : ∀ {op e}, part e → whole (.unary op e)
  call : ∀ {callee args} {named : List (String × Expr)}, whole callee → (∀ e ∈ args, part e) →
    (∀ p ∈ named, part p.2) → whole (.call callee args named)
  ofAttribute : ∀ {object s}, whole object → whole (.attribute object s)
  item : ∀ {object index}, whole object → part index → whole (.item object index)

/-- Trees read with `n` levels have `good n`. What stands in front of further operators has
`opened n m` if the operand was read with `n` levels in it and `m` levels are left. -/
structure GrowsByLevels (field : List Char → Nat → Except SyntaxError Expr)
    (good : Nat → Expr → Prop) (opened : Nat → Nat → Expr → Prop) : Prop where
  operand : ∀ n, Grows field (good n) (opened n n)
  operator : ∀ {n m i chained left right}, opened n (m + 1) left → good m right →
    opened n m (Infix.apply i chained left right)
  whole : ∀ {n m e}, opened n m e → good (n + 1) e

theorem Grows.trivial : Grows field (fun _ => True) fun _ => True := by
  constructor <;> intros <;> trivial

theorem GrowsByLevels.trivial : GrowsByLevels field (fun _ _ => True) fun _ _ _ => True :=
  ⟨fun _ => .trivial, fun _ _ => True.intro, fun _ => True.intro⟩

/-! ### Expressions -/

theorem reads_parseItems (close : Symbol) {item : TokenParser α} (hitem : Reads base item good)
    (fuel : List Token) : Reads base (parseItems close item fuel) fun xs => ∀ x ∈ xs, good x := by
  induction fuel with
  | nil => exact .pure (by simp)
  | cons t fuel ih =>
    refine (reads_atSymbol close).bind fun closed _ => ?_
    split
    · exact .pure (by simp)
    · refine hitem.bind fun x hx => (reads_eat .comma).bind fun more _ => ?_
      split
      · exact ih.bind fun xs hxs => .pure (List.forall_mem_cons.mpr ⟨hx, hxs⟩)
      · exact .pure (List.forall_mem_singleton.mpr hx)

variable {part whole : Expr → Prop}

theorem reads_parseArguments (hexpr : Reads base expr part) {args : List Expr}
    {named : List (String × Expr)} (hargs : ∀ e ∈ args, part e) (hnamed : ∀ p ∈ named, part p.2)
    (fuel : List Token) :
    Reads base (parseArguments expr args named fuel) fun all =>
      (∀ e ∈ all.1, part e) ∧ ∀ p ∈ all.2, part p.2 := by
  induction fuel generalizing args named with
  | nil => exact .pure ⟨hargs, hnamed⟩
  | cons t fuel ih =>
    refine (reads_atSymbol .closeRound).bind fun closed _ => ?_
    split
    · exact .pure ⟨hargs, hnamed⟩
    · have hmore {args : List Expr} {named : List (String × Expr)} (hargs : ∀ e ∈ args, part e)
          (hnamed : ∀ p ∈ named, part p.2) :
          Reads base (do
            if ← eat .comma then parseArguments expr args named fuel else pure (args, named))
            fun all => (∀ e ∈ all.1, part e) ∧ ∀ p ∈ all.2, part p.2 := by
        refine (reads_eat .comma).bind fun more _ => ?_
        split
        · exact ih hargs hnamed
        · exact .pure ⟨hargs, hnamed⟩
      refine reads_peekKind.bind fun first _ => reads_peekSecond.bind fun second _ => ?_
      split
      · refine reads_advance.bind fun _ _ => reads_advance.bind fun _ _ => .guard ?_
        refine hexpr.bind fun value hvalue => hmore hargs ?_
        exact List.forall_mem_append.mpr ⟨hnamed, List.forall_mem_singleton.mpr hvalue⟩
      · refine .guard ?_
        refine hexpr.bind fun value hvalue => hmore ?_ hnamed
        exact List.forall_mem_append.mpr ⟨hargs, List.forall_mem_singleton.mpr hvalue⟩

theorem reads_parseAdjacent (s : String) (fuel : List Token) :
    Reads base (parseAdjacent s fuel) fun _ => True := by
  induction fuel generalizing s with
  | nil => exact .pure trivial
  | cons t fuel ih =>
    refine reads_peekKind.bind fun kind _ => ?_
    split
    · exact reads_advance.bind fun _ _ => ih _
    · exact .pure trivial

/-- An error in a format string is on the line of the string. -/
theorem line_of_parseFormat {line : Nat}
    {pieces : List Piece} {e : SyntaxError} (h : parseFormat field line pieces = .error e) :
    e.line = line := by
  fun_induction parseFormat field line pieces with
  | case1 => cases h
  | case2 s rest ih =>
    rcases Outcome.bind_eq_error_iff.mp h with hrest | ⟨parts, -, hparts⟩
    · exact ih hrest
    · cases hparts
  | case3 source rest ih =>
    rcases Outcome.bind_eq_error_iff.mp h with hfield | ⟨value, -, hrest⟩
    · cases hvalue : field source.toList line with
      | ok value =>
        rw [hvalue] at hfield
        cases hfield
      | error cause =>
        rw [hvalue] at hfield
        cases hfield
        rfl
    · rcases Outcome.bind_eq_error_iff.mp hrest with hrest | ⟨parts, -, hparts⟩
      · exact ih hrest
      · cases hparts

theorem reads_parseAtom (h : Grows field part whole) (hexpr : Reads base expr part) :
    Reads base (parseAtom field expr) whole := by
  refine reads_atStatementEnd.bind fun ended _ => .guard ?_
  refine reads_advance.bind fun t ht => ?_
  split
  · exact .pure (h.constant _)
  · exact .pure (h.constant _)
  · exact reads_remaining.bind fun left _ => (reads_parseAdjacent _ left).bind fun _ _ =>
      .pure (h.constant _)
  · split
    · rename_i hparse
      exact .pure (h.format hparse)
    · rename_i e hparse
      exact .throw ⟨t, ht, line_of_parseFormat hparse⟩
  · exact .pure (h.constant _)
  · exact .pure (h.constant _)
  · exact .pure (h.constant _)
  · exact .pure (h.name _)
  · exact hexpr.bind fun e he => (reads_expect _ _).bind fun _ _ => .pure (h.bracketed he)
  · exact reads_remaining.bind fun left _ => (reads_parseItems _ hexpr left).bind
      fun items hitems => (reads_expect _ _).bind fun _ _ => .pure (h.list hitems)
  · have hentry : Reads base (do
        let key ← expr
        expect .colon "':'"
        let value ← expr
        pure (key, value)) fun p => part p.1 ∧ part p.2 :=
      hexpr.bind fun key hkey => (reads_expect _ _).bind fun _ _ =>
        hexpr.bind fun value hvalue => .pure ⟨hkey, hvalue⟩
    exact reads_remaining.bind fun left _ => (reads_parseItems _ hentry left).bind
      fun entries hentries => (reads_expect _ _).bind fun _ _ => .pure (h.dict hentries)
  · exact .throw ⟨t, ht, rfl⟩

theorem reads_parseSuffixes (h : Grows field part whole) (hexpr : Reads base expr part) {e : Expr}
    (he : whole e) (fuel : List Token) : Reads base (parseSuffixes expr e fuel) whole := by
  induction fuel generalizing e with
  | nil => exact .pure he
  | cons t fuel ih =>
    refine reads_peekKind.bind fun kind _ => ?_
    split
    · exact reads_advance.bind fun _ _ => reads_remaining.bind fun left _ =>
        (reads_parseArguments hexpr (by simp) (by simp) left).bind fun all hall =>
          (reads_expect _ _).bind fun _ _ => ih (h.call he hall.1 hall.2)
    · refine reads_advance.bind fun _ _ => reads_advance.bind fun name _ => ?_
      split
      · exact ih (h.ofAttribute he)
      · exact reads_failHere _
    · exact reads_advance.bind fun _ _ => hexpr.bind fun index hindex =>
        (reads_expect _ _).bind fun _ _ => ih (h.item he hindex)
    · exact .pure he

theorem reads_parseOperand (h : Grows field part whole) {sub : Nat → TokenParser Expr}
    (hsub : ∀ power, Reads base (sub power) part) :
    Reads base (parseOperand field sub) whole := by
  refine reads_peekKind.bind fun kind _ => ?_
  split
  · exact reads_advance.bind fun _ _ => (hsub _).bind fun _ he => .pure (h.unary he)
  · exact (reads_parseAtom h (hsub 0)).bind fun atom hatom => reads_remaining.bind fun left _ =>
      reads_parseSuffixes h (hsub 0) hatom left

theorem reads_takeInfix (least : Nat) : Reads base (takeInfix least) fun _ => True := by
  refine reads_peekKind.bind fun first _ => reads_peekSecond.bind fun second _ => ?_
  split
  · exact .pure trivial
  · split
    · exact .pure trivial
    · refine reads_advance.bind fun _ _ => ?_
      dsimp only
      split
      · exact reads_advance.bind fun _ _ => .pure trivial
      · exact .pure trivial

section Levels

variable {good : Nat → Expr → Prop} {opened : Nat → Nat → Expr → Prop}

mutual

theorem reads_levels (h : GrowsByLevels field good opened) (levels least : Nat) :
    Reads base (parseExpr field levels least) (good levels) := by
  cases levels with
  | zero => exact reads_failTooDeep
  | succ levels =>
    rw [parseExpr]
    exact (reads_parseOperand (h.operand levels) fun power => reads_levels h levels power).bind
      fun left hleft => reads_parseOperators h levels levels least hleft false

theorem reads_parseOperators (h : GrowsByLevels field good opened) (inner levels least : Nat)
    {left : Expr} (hleft : opened inner levels left) (chained : Bool) :
    Reads base (parseOperators field levels least left chained) (good (inner + 1)) := by
  cases levels with
  | zero =>
    rw [parseOperators]
    refine (reads_takeInfix least).bind fun found _ => ?_
    split
    · exact .pure (h.whole hleft)
    · exact reads_failTooDeep
  | succ levels =>
    rw [parseOperators]
    refine (reads_takeInfix least).bind fun found _ => ?_
    split
    · exact .pure (h.whole hleft)
    · exact (reads_levels h levels _).bind fun right hright =>
        reads_parseOperators h inner levels least (h.operator hleft hright) _

end

end Levels

theorem reads_parseExpr (levels least : Nat) :
    Reads base (parseExpr field levels least) fun _ => True :=
  reads_levels .trivial levels least

/-! ### How an expression begins -/

/-- What an expression can begin with. -/
def Token.Kind.isExprStart : Token.Kind → Bool
  | .name _ => true
  | .int _ => true
  | .float _ => true
  | .str _ => true
  | .format _ => true
  | .keyword .yes => true
  | .keyword .no => true
  | .keyword .nothing => true
  | .keyword .not => true
  | .symbol .openRound => true
  | .symbol .openSquare => true
  | .symbol .openCurly => true
  | .symbol .minus => true
  | .symbol .plus => true
  | _ => false

variable {t : Token}

theorem parseAtom_of_not_start (field : List Char → Nat → Except SyntaxError Expr)
    (expr : TokenParser Expr) (rest : List Token) (h : t.kind.isExprStart = false) :
    ∃ e left, parseAtom field expr (t :: rest) = .error e left ∧ e.line = t.line := by
  obtain ⟨line, kind⟩ := t
  cases kind with
  | newline => exact ⟨_, _, rfl, rfl⟩
  | indent => cases rest <;> exact ⟨_, _, rfl, rfl⟩
  | dedent => exact ⟨_, _, rfl, rfl⟩
  | eof => exact ⟨_, _, rfl, rfl⟩
  | keyword k =>
    cases k
    all_goals first
      | exact Bool.noConfusion h
      | cases rest <;> exact ⟨_, _, rfl, rfl⟩
  | symbol s =>
    cases s
    all_goals first
      | exact Bool.noConfusion h
      | cases rest <;> exact ⟨_, _, rfl, rfl⟩
  | _ => exact Bool.noConfusion h

theorem prefixed?_of_not_start (h : t.kind.isExprStart = false) : prefixed? t.kind = none := by
  obtain ⟨line, kind⟩ := t
  fun_cases prefixed? kind with
  | case1 => exact Bool.noConfusion h
  | case2 => exact Bool.noConfusion h
  | case3 => exact Bool.noConfusion h
  | case4 => rfl

/-- What `expr` reads begins as an expression does. -/
def ReadsExprs (expr : TokenParser Expr) : Prop :=
  ∀ t rest e left, expr (t :: rest) = .ok e left → t.kind.isExprStart = true

theorem readsExprs_parseExpr (levels least : Nat) : ReadsExprs (parseExpr field levels least) := by
  intro t rest e left h
  cases hstart : t.kind.isExprStart with
  | true => rfl
  | false =>
    cases levels with
    | zero => cases h
    | succ levels =>
      rw [parseExpr, Outcome.run_bind_eq_ok_iff] at h
      obtain ⟨operand, behind, hoperand, -⟩ := h
      have hpeek : peekKind (t :: rest) = .ok t.kind (t :: rest) := rfl
      rw [parseOperand, Outcome.run_bind_of_ok hpeek, prefixed?_of_not_start hstart] at hoperand
      obtain ⟨e, stop, herror, -⟩ :=
        parseAtom_of_not_start field (parseExpr field levels 0) rest hstart
      dsimp only at hoperand
      rw [Outcome.run_bind_of_error herror] at hoperand
      cases hoperand

end LiveDoc.Fragment
