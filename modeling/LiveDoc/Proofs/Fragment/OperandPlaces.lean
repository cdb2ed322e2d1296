import LiveDoc.Proofs.Fragment.ExpressionEnds

/-!
Where operands stand. Whatever is read as an expression is put together of phrases in which each
operand binds as hard as its place asks for, unless it is in parentheses or begins with an operator
of its own: what stands behind an operator is read as such an operand however loose that is. So the
levels of operators are kept but for `not` behind an operator that binds harder, and for a sign
behind `**`.
-/
namespace LiveDoc.Fragment

open TokenParser

/-! ### Phrases -/

/-- Tokens with the expression that they stand for. -/
structure Phrase where
  kinds : List Token.Kind
  expr : Expr
  /-- The tokens are a pair of parentheses with an expression between them. -/
  enclosed : Bool

namespace Phrase

/-- Parentheses bind like a name. -/
def level (p : Phrase) : Nat := if p.enclosed then objectNeed else p.expr.level

/-- A prefix operator with its operand, without parentheses around the two. -/
def IsPrefixed (p : Phrase) : Prop :=
  p.enclosed = false ∧ ∃ op operand, p.expr = .unary op operand

/-- What can stand behind an operator that needs such a level there. -/
def Follows (need : Nat) (p : Phrase) : Prop := need ≤ p.level ∨ p.IsPrefixed

end Phrase

/-- Parts with commas between them; one more comma may stand behind the last part. -/
def Listed (parts : List (List Token.Kind)) (kinds : List Token.Kind) : Prop :=
  kinds = separated parts ∨ parts ≠ [] ∧ kinds = separated parts ++ [.symbol .comma]

/-- The phrase is put together of others, and each operand in it is in its place: in front of an
operator what binds as hard as is needed there, behind an operator also what a prefix operator
begins. -/
inductive Phrase.WellPlaced (field : List Char → Nat → Except SyntaxError Expr) : Phrase → Prop
  | constant (c : Constant) : WellPlaced field ⟨[c.kind], .constant c, false⟩
  | texts (first : String) (more : List String) :
    WellPlaced field
      ⟨(first :: more).map .str, .constant (.str (more.foldl (· ++ ·) first)), false⟩
  | format {line : Nat} {pieces : List Piece} {parts : List FormatPart}
      (h : parseFormat field line pieces = .ok parts) :
    WellPlaced field ⟨[.format pieces], .format parts, false⟩
  | name (s : String) : WellPlaced field ⟨[.name s], .name s, false⟩
  | parentheses {p : Phrase} (h : WellPlaced field p) :
    WellPlaced field
      ⟨.symbol .openRound :: (p.kinds ++ [.symbol .closeRound]), p.expr, true⟩
  | list {items : List Phrase} {inner : List Token.Kind}
      (hitems : ∀ p ∈ items, WellPlaced field p) (hinner : Listed (items.map kinds) inner) :
    WellPlaced field
      ⟨.symbol .openSquare :: (inner ++ [.symbol .closeSquare]), .list (items.map expr), false⟩
  | dict {entries : List (Phrase × Phrase)} {inner : List Token.Kind}
      (hkeys : ∀ entry ∈ entries, WellPlaced field entry.1)
      (hvalues : ∀ entry ∈ entries, WellPlaced field entry.2)
      (hinner : Listed
        (entries.map fun entry => entry.1.kinds ++ .symbol .colon :: entry.2.kinds) inner) :
    WellPlaced field
      ⟨.symbol .openCurly :: (inner ++ [.symbol .closeCurly]),
        .dict (entries.map fun entry => (entry.1.expr, entry.2.expr)), false⟩
  | unary (op : UnaryOp) {p : Phrase} (h : WellPlaced field p) (hplace : p.Follows op.level) :
    WellPlaced field ⟨op.kind :: p.kinds, .unary op p.expr, false⟩
  | binary (op : BinaryOp) {left right : Phrase} (hleft : WellPlaced field left)
      (hright : WellPlaced field right) (hbefore : op.leftNeed ≤ left.level)
      (hbehind : right.Follows op.rightNeed) :
    WellPlaced field
      ⟨left.kinds ++ op.kind :: right.kinds, .binary op left.expr right.expr, false⟩
  | logic (op : LogicOp) {left right : Phrase} (hleft : WellPlaced field left)
      (hright : WellPlaced field right) (hbefore : op.level ≤ left.level)
      (hbehind : right.Follows (op.level + 1)) :
    WellPlaced field
      ⟨left.kinds ++ op.kind :: right.kinds, .logic op left.expr right.expr, false⟩
  | compare {first : Phrase} {others : List (CompareOp × Phrase)} (hfirst : WellPlaced field first)
      (hothers : ∀ other ∈ others, WellPlaced field other.2)
      (hbefore : comparedNeed ≤ first.level)
      (hbehind : ∀ other ∈ others, other.2.Follows comparedNeed) :
    WellPlaced field
      ⟨first.kinds ++ others.flatMap fun other => other.1.kinds ++ other.2.kinds,
        .compare first.expr (others.map fun other => (other.1, other.2.expr)), false⟩
  | call {callee : Phrase} {args : List Phrase} {named : List (String × Phrase)}
      {inner : List Token.Kind} (hcallee : WellPlaced field callee)
      (hargs : ∀ p ∈ args, WellPlaced field p) (hnamed : ∀ arg ∈ named, WellPlaced field arg.2)
      (hplace : objectNeed ≤ callee.level)
      (hinner : Listed (args.map kinds ++
        named.map fun arg => .name arg.1 :: .symbol .assign :: arg.2.kinds) inner) :
    WellPlaced field
      ⟨callee.kinds ++ .symbol .openRound :: (inner ++ [.symbol .closeRound]),
        .call callee.expr (args.map expr) (named.map fun arg => (arg.1, arg.2.expr)), false⟩
  | attribute {object : Phrase} (s : String) (h : WellPlaced field object)
      (hplace : objectNeed ≤ object.level) :
    WellPlaced field
      ⟨object.kinds ++ [.symbol .dot, .name s], .attribute object.expr s, false⟩
  | item {object index : Phrase} (hobject : WellPlaced field object)
      (hindex : WellPlaced field index) (hplace : objectNeed ≤ object.level) :
    WellPlaced field
      ⟨object.kinds ++ .symbol .openSquare :: (index.kinds ++ [.symbol .closeSquare]),
        .item object.expr index.expr, false⟩

/-! ### The tokens that a reader takes -/

/-- The last token is the end of the fragment. -/
def Ended (tokens : List Token) : Prop := ∃ t ∈ tokens.getLast?, t.kind = .eof

variable {α β : Type} {field : List Char → Nat → Except SyntaxError Expr} {known : List Token.Kind}
  {k : Token.Kind} {tokens rest : List Token} {t : Token}

theorem Ended.ne_nil (h : Ended tokens) : tokens ≠ [] := by
  rintro rfl
  obtain ⟨t, ht, -⟩ := h
  cases ht

theorem Ended.tail (h : Ended (t :: rest)) (ht : t.kind ≠ .eof) : Ended rest := by
  obtain ⟨last, hlast, hkind⟩ := h
  cases rest with
  | nil =>
    cases hlast
    exact absurd hkind ht
  | cons u more => exact ⟨last, by simpa using hlast, hkind⟩

/-- From tokens of which the first are of the kinds `known`, the reader takes some at the front.
`good` says of the value, of the kinds of the tokens taken and of the tokens left how they belong
together. -/
def Consumes (known : List Token.Kind) (act : TokenParser α)
    (good : α → List Token.Kind → List Token → Prop) : Prop :=
  ∀ tokens a rest, known <+: tokens.map Token.kind → Ended tokens → act tokens = .ok a rest →
    ∃ used, tokens = used ++ rest ∧ Ended rest ∧ good a (used.map Token.kind) rest

namespace Consumes

variable {act : TokenParser α} {next : α → TokenParser β}
  {good : α → List Token.Kind → List Token → Prop} {fine : β → List Token.Kind → List Token → Prop}

theorem pure {a : α} (h : ∀ rest, good a [] rest) : Consumes known (Pure.pure a) good := by
  intro tokens a' rest _ hended hrun
  cases hrun
  exact ⟨[], rfl, hended, h tokens⟩

theorem mono {good' : α → List Token.Kind → List Token → Prop} (h : Consumes known act good)
    (himp : ∀ a ks rest, good a ks rest → good' a ks rest) : Consumes known act good' := by
  intro tokens a rest hknown hended hrun
  obtain ⟨used, hused, hrest, hgood⟩ := h tokens a rest hknown hended hrun
  exact ⟨used, hused, hrest, himp _ _ _ hgood⟩

/-- What a reader takes that goes on from the tokens that another one leaves. -/
theorem bind (hact : Consumes known act good)
    (hnext : ∀ a ks mid, good a ks mid →
      Consumes [] (next a) fun b ks' rest => fine b (ks ++ ks') rest) :
    Consumes known (act >>= next) fine := by
  intro tokens b rest hknown hended hrun
  obtain ⟨a, mid, hfirst, hsecond⟩ := Outcome.run_bind_eq_ok_iff.mp hrun
  obtain ⟨used, rfl, hmid, hgood⟩ := hact tokens a mid hknown hended hfirst
  obtain ⟨more, rfl, hrest, hfine⟩ :=
    hnext a _ mid hgood mid b rest List.nil_prefix hmid hsecond
  refine ⟨used ++ more, (List.append_assoc ..).symm, hrest, ?_⟩
  rwa [List.map_append]

/-- The value is changed and no token is taken. -/
theorem map {f : α → β} (hact : Consumes known act good)
    (himp : ∀ a ks rest, good a ks rest → fine (f a) ks rest) :
    Consumes known (act >>= fun a => Pure.pure (f a)) fine := by
  intro tokens b rest hknown hended hrun
  obtain ⟨a, mid, hfirst, hsecond⟩ := Outcome.run_bind_eq_ok_iff.mp hrun
  cases hsecond
  obtain ⟨used, hused, hrest, hgood⟩ := hact tokens a rest hknown hended hfirst
  exact ⟨used, hused, hrest, himp a _ rest hgood⟩

theorem forget (h : Consumes [] act good) : Consumes known act good :=
  fun tokens a rest _ => h tokens a rest List.nil_prefix

theorem of_fails (h : ∀ tokens, ∃ e left, act tokens = .error e left) :
    Consumes known act good := by
  intro tokens a rest _ _ hrun
  obtain ⟨e, left, herror⟩ := h tokens
  cases herror.symm.trans hrun

theorem guard {stop : Bool} {cause : SyntaxError.Cause} {next : Unit → TokenParser α}
    (h : stop = false → Consumes known (next ()) good) :
    Consumes known (if stop = true then TokenParser.failHere cause >>= next else next ()) good := by
  cases stop with
  | false => exact h rfl
  | true => exact of_fails (failHere_bind_eq_error cause next)

/-- There is no token without a kind. -/
theorem of_kind (h : ∀ k, Consumes [k] act good) : Consumes [] act good := by
  intro tokens a rest _ hended
  obtain ⟨t, more, rfl⟩ := List.exists_cons_of_ne_nil hended.ne_nil
  exact h t.kind _ a rest (by simp) hended

/-- Another token stands behind one that is not the end. -/
theorem of_second (hk : k ≠ .eof) (h : ∀ second, Consumes [k, second] act good) :
    Consumes [k] act good := by
  intro tokens a rest hknown hended
  obtain ⟨t, more, rfl, rfl⟩ := exists_cons_of_known hknown
  obtain ⟨u, more, rfl⟩ := List.exists_cons_of_ne_nil (hended.tail hk).ne_nil
  exact h u.kind _ a rest (by simp) hended

theorem look {a : α} (ha : Looks known act a) (hnext : Consumes known (next a) fine) :
    Consumes known (act >>= next) fine := by
  intro tokens b rest hknown hended hrun
  rw [Outcome.run_bind_of_ok (ha tokens hknown)] at hrun
  exact hnext tokens b rest hknown hended hrun

theorem advance {next : Token → TokenParser β} (hk : k ≠ .eof)
    (hnext : ∀ t, t.kind = k → Consumes known (next t) fun b ks rest => fine b (k :: ks) rest) :
    Consumes (k :: known) (TokenParser.advance >>= next) fine := by
  intro tokens b rest hknown hended hrun
  obtain ⟨t, more, rfl, rfl⟩ := exists_cons_of_known hknown
  have hmore := hended.tail hk
  rw [Outcome.run_bind_of_ok (advance_cons t hmore.ne_nil)] at hrun
  have hknown' : known <+: more.map Token.kind :=
    (List.cons_prefix_cons.mp (List.map_cons ▸ hknown)).2
  obtain ⟨used, rfl, hrest, hfine⟩ := hnext t rfl more b rest hknown' hmore hrun
  exact ⟨t :: used, rfl, hrest, hfine⟩

/-- Whatever token is taken, the reader fails behind it. -/
theorem advance_of_fails {next : Token → TokenParser β}
    (h : ∀ t, t.kind = k → ∀ tokens, ∃ e left, next t tokens = .error e left) :
    Consumes [k] (TokenParser.advance >>= next) fine := by
  intro tokens b rest hknown _ hrun
  obtain ⟨t, more, rfl, hk⟩ := exists_cons_of_known hknown
  obtain ⟨left, hadvance, -⟩ := exists_advance t more
  obtain ⟨e, stop, herror⟩ := h t hk left
  rw [Outcome.run_bind_of_ok hadvance, herror] at hrun
  cases hrun

theorem remaining {next : List Token → TokenParser β}
    (h : ∀ fuel, Consumes known (next fuel) fine) :
    Consumes known (TokenParser.remaining >>= next) fine :=
  fun tokens b rest hknown hended hrun => h tokens tokens b rest hknown hended hrun

/-- Where it does not count what stands behind the next token. -/
theorem second {next : Token.Kind → TokenParser β}
    (h : ∀ second, Consumes known (next second) fine) :
    Consumes known (peekSecond >>= next) fine := by
  intro tokens b rest hknown hended hrun
  obtain ⟨-, second, -, hsecond, -⟩ := exists_peeked tokens
  rw [Outcome.run_bind_of_ok hsecond] at hrun
  exact h second tokens b rest hknown hended hrun

/-- A symbol is taken if it is there. -/
theorem eat {s : Symbol} {next : Bool → TokenParser β}
    (hyes : Consumes [] (next true) fun b ks rest => fine b (.symbol s :: ks) rest)
    (hno : Consumes [] (next false) fine) :
    Consumes [] (TokenParser.eat s >>= next) fine := by
  refine of_kind fun k => ?_
  rw [TokenParser.eat, bind_assoc]
  refine look (looks_atSymbol s) ?_
  cases hk : k.isSymbol s with
  | false => exact hno.forget
  | true =>
    obtain rfl := kind_of_isSymbol hk
    simp only [if_true, bind_assoc, pure_bind]
    exact advance (by simp) fun _ _ => hyes

theorem expect {s : Symbol} (what : String) {next : Unit → TokenParser β}
    (hnext : Consumes [] (next ()) fun b ks rest => fine b (.symbol s :: ks) rest) :
    Consumes [] (TokenParser.expect s what >>= next) fine := by
  rw [TokenParser.expect, bind_assoc]
  refine eat hnext ?_
  exact of_fails (failHere_bind_eq_error _ next)

end Consumes

/-! ### What stands between brackets -/

theorem listed_singleton (part : List Token.Kind) : Listed [part] part := .inl (by simp [separated])

theorem Listed.cons {part : List Token.Kind} {parts : List (List Token.Kind)}
    {kinds : List Token.Kind} (h : Listed parts kinds) :
    Listed (part :: parts) (part ++ .symbol .comma :: kinds) := by
  cases parts with
  | nil =>
    obtain rfl | ⟨hsome, -⟩ := h
    · exact .inr ⟨List.cons_ne_nil _ _, by simp [separated]⟩
    · exact absurd rfl hsome
  | cons next more =>
    obtain rfl | ⟨-, rfl⟩ := h
    · exact .inl (separated_cons_cons part next more).symm
    · exact .inr ⟨List.cons_ne_nil _ _, by rw [separated_cons_cons]; simp⟩

/-- The tokens of these kinds are a phrase for the expression with the property. -/
def Spells (field : List Char → Nat → Except SyntaxError Expr) (P : Phrase → Prop) (e : Expr)
    (ks : List Token.Kind) : Prop :=
  ∃ p : Phrase, p.kinds = ks ∧ p.expr = e ∧ p.WellPlaced field ∧ P p

theorem consumes_parseItems (close : Symbol) {item : TokenParser α}
    {good : α → List Token.Kind → Prop} (hitem : Consumes [] item fun x ks _ => good x ks)
    (fuel : List Token) :
    Consumes [] (parseItems close item fuel) fun xs ks _ =>
      ∃ parts, List.Forall₂ good xs parts ∧ Listed parts ks := by
  induction fuel with
  | nil => exact .pure fun _ => ⟨[], .nil, .inl rfl⟩
  | cons t fuel ih =>
    refine .of_kind fun k => .look (looks_atSymbol close) ?_
    split
    · exact .pure fun _ => ⟨[], .nil, .inl rfl⟩
    · refine hitem.forget.bind fun x ks _ hx => .eat ?_ ?_
      · refine ih.map fun xs ks' _ hxs => ?_
        obtain ⟨parts, hparts, hlisted⟩ := hxs
        exact ⟨ks :: parts, .cons hx hparts, hlisted.cons⟩
      · refine .pure fun _ => ⟨[ks], .cons hx .nil, ?_⟩
        rw [List.append_nil]
        exact listed_singleton ks

theorem exists_map_of_forall₂ {γ : Type} {f : γ → α} {g : γ → β} {P : γ → Prop} {xs : List α}
    {ys : List β} (h : List.Forall₂ (fun x y => ∃ c, g c = y ∧ f c = x ∧ P c) xs ys) :
    ∃ cs : List γ, cs.map g = ys ∧ cs.map f = xs ∧ ∀ c ∈ cs, P c := by
  induction h with
  | nil => exact ⟨[], rfl, rfl, nofun⟩
  | cons hx _ ih =>
    obtain ⟨c, rfl, rfl, hc⟩ := hx
    obtain ⟨cs, rfl, rfl, hcs⟩ := ih
    exact ⟨c :: cs, rfl, rfl, List.forall_mem_cons.mpr ⟨hc, hcs⟩⟩

section Readers

variable {expr : TokenParser Expr} {need : Nat}

/-- Of the kinds `ks` are arguments that are read behind those read so far; no positional one stands
behind a keyword argument. -/
def SpellsArguments (field : List Char → Nat → Except SyntaxError Expr) (args : List Expr)
    (named : List (String × Expr)) (all : List Expr × List (String × Expr))
    (ks : List Token.Kind) : Prop :=
  ∃ (ps : List Phrase) (ns : List (String × Phrase)),
    all = (args ++ ps.map Phrase.expr, named ++ ns.map fun n => (n.1, n.2.expr)) ∧
    (named ≠ [] → ps = []) ∧
    Listed (ps.map Phrase.kinds ++
      ns.map fun n => .name n.1 :: .symbol .assign :: n.2.kinds) ks ∧
    (∀ p ∈ ps, p.WellPlaced field) ∧ ∀ n ∈ ns, n.2.WellPlaced field

namespace SpellsArguments

variable {args : List Expr} {named : List (String × Expr)} {all : List Expr × List (String × Expr)}
  {ks : List Token.Kind} {p : Phrase}

theorem nil (args : List Expr) (named : List (String × Expr)) :
    SpellsArguments field args named (args, named) [] :=
  ⟨[], [], by simp, fun _ => rfl, .inl rfl, nofun, nofun⟩

theorem onePositional (hp : p.WellPlaced field) :
    SpellsArguments field args [] (args ++ [p.expr], []) p.kinds :=
  ⟨[p], [], by simp, fun h => absurd rfl h, listed_singleton _, List.forall_mem_singleton.mpr hp,
    nofun⟩

theorem positional (hp : p.WellPlaced field)
    (h : SpellsArguments field (args ++ [p.expr]) [] all ks) :
    SpellsArguments field args [] all (p.kinds ++ .symbol .comma :: ks) := by
  obtain ⟨ps, ns, rfl, -, hlisted, hps, hns⟩ := h
  exact ⟨p :: ps, ns, by simp, fun h => absurd rfl h, hlisted.cons,
    List.forall_mem_cons.mpr ⟨hp, hps⟩, hns⟩

theorem oneKeyword (s : String) (hp : p.WellPlaced field) :
    SpellsArguments field args named (args, named ++ [(s, p.expr)])
      (.name s :: .symbol .assign :: p.kinds) :=
  ⟨[], [(s, p)], by simp, fun _ => rfl, listed_singleton _, nofun,
    List.forall_mem_singleton.mpr hp⟩

theorem keyword (s : String) (hp : p.WellPlaced field)
    (h : SpellsArguments field args (named ++ [(s, p.expr)]) all ks) :
    SpellsArguments field args named all
      (.name s :: .symbol .assign :: p.kinds ++ .symbol .comma :: ks) := by
  obtain ⟨ps, ns, rfl, hnone, hlisted, -, hns⟩ := h
  obtain rfl := hnone (by simp)
  exact ⟨[], (s, p) :: ns, by simp, fun _ => rfl, hlisted.cons, nofun,
    List.forall_mem_cons.mpr ⟨hp, hns⟩⟩

end SpellsArguments

theorem consumes_parseArguments {P : Phrase → Prop}
    (hexpr : Consumes [] expr fun e ks _ => Spells field P e ks) (args : List Expr)
    (named : List (String × Expr)) (fuel : List Token) :
    Consumes [] (parseArguments expr args named fuel) fun all ks _ =>
      SpellsArguments field args named all ks := by
  induction fuel generalizing args named with
  | nil => exact .pure fun _ => .nil args named
  | cons t fuel ih =>
    have hpositional (known : List Token.Kind) : Consumes known (do
        if ! named.isEmpty then failHere .positionalAfterKeyword
        let value ← expr
        if ← eat .comma then parseArguments expr (args ++ [value]) named fuel
        else pure (args ++ [value], named)) fun all ks _ =>
          SpellsArguments field args named all ks := by
      refine .guard fun hempty => hexpr.forget.bind fun value ks _ hvalue => ?_
      obtain rfl : named = [] := by simpa using hempty
      obtain ⟨p, rfl, rfl, hp, -⟩ := hvalue
      refine .eat ((ih _ _).mono fun all ks _ hall => .positional hp hall) (.pure fun _ => ?_)
      rw [List.append_nil]
      exact .onePositional hp
    refine .of_kind fun k => .look (looks_atSymbol _) ?_
    split
    · exact .pure fun _ => .nil args named
    · refine .look looks_peekKind ?_
      by_cases hk : k = .eof
      · subst hk
        exact .second fun _ => hpositional _
      · refine .of_second hk fun second => .look looks_peekSecond ?_
        split
        · refine .advance (by simp) fun _ _ => .advance (by simp) fun _ _ => .guard fun _ => ?_
          refine hexpr.bind fun value ks _ hvalue => ?_
          obtain ⟨p, rfl, rfl, hp, -⟩ := hvalue
          refine .eat ((ih _ _).mono fun all ks _ hall => .keyword _ hp hall) (.pure fun _ => ?_)
          rw [List.append_nil]
          exact .oneKeyword _ hp
        · exact hpositional _

theorem consumes_parseAdjacent (s : String) (fuel : List Token) :
    Consumes [] (parseAdjacent s fuel) fun whole ks _ =>
      ∃ more : List String, ks = more.map .str ∧ whole = more.foldl (· ++ ·) s := by
  induction fuel generalizing s with
  | nil => exact .pure fun _ => ⟨[], rfl, rfl⟩
  | cons t fuel ih =>
    refine .of_kind fun k => .look looks_peekKind ?_
    split
    · rename_i next
      refine .advance (by simp) fun _ _ => (ih _).mono fun whole ks _ hwhole => ?_
      obtain ⟨more, rfl, rfl⟩ := hwhole
      exact ⟨next :: more, rfl, rfl⟩
    · exact .pure fun _ => ⟨[], rfl, rfl⟩

theorem consumes_parseAtom {P : Phrase → Prop}
    (hexpr : Consumes [] expr fun e ks _ => Spells field P e ks) :
    Consumes [] (parseAtom field expr) fun e ks _ =>
      Spells field (fun p => objectNeed ≤ p.level) e ks := by
  refine .of_kind fun k => ?_
  cases hstart : k.isExprStart with
  | false =>
    intro tokens e rest hknown _ hrun
    obtain ⟨t, more, rfl, rfl⟩ := exists_cons_of_known hknown
    obtain ⟨_, _, herror, -⟩ := parseAtom_of_not_start field expr more hstart
    cases herror.symm.trans hrun
  | true =>
    have hnotEof : k ≠ .eof := by
      rintro rfl
      cases hstart
    have hleaf {e : Expr} {ks : List Token.Kind} (hp : Phrase.WellPlaced field ⟨ks, e, false⟩)
        (hlevel : e.level = objectNeed) :
        Spells field (fun p => objectNeed ≤ p.level) e ks :=
      ⟨⟨ks, e, false⟩, rfl, rfl, hp, hlevel.ge⟩
    refine .look looks_atStatementEnd (.guard fun _ => .advance hnotEof fun t ht => ?_)
    rw [ht]
    cases k with
    | int n => exact .pure fun _ => hleaf (.constant (.int n)) rfl
    | float x => exact .pure fun _ => hleaf (.constant (.float x)) rfl
    | name s => exact .pure fun _ => hleaf (.name s) rfl
    | str s =>
      refine .remaining fun fuel => (consumes_parseAdjacent s fuel).map fun whole ks _ hwhole => ?_
      obtain ⟨more, rfl, rfl⟩ := hwhole
      exact hleaf (.texts s more) rfl
    | format pieces =>
      dsimp only
      split
      · rename_i hparts
        exact .pure fun _ => hleaf (.format hparts) rfl
      · exact .of_fails fun _ => ⟨_, _, rfl⟩
    | keyword w =>
      cases w
      case yes => exact .pure fun _ => hleaf (.constant (.bool true)) rfl
      case no => exact .pure fun _ => hleaf (.constant (.bool false)) rfl
      case nothing => exact .pure fun _ => hleaf (.constant .nothing) rfl
      all_goals first
        | exact Bool.noConfusion hstart
        | exact .of_fails fun _ => ⟨_, _, rfl⟩
    | symbol s =>
      cases s
      case openRound =>
        refine hexpr.bind fun e ks _ he => .expect _ (.pure fun _ => ?_)
        obtain ⟨p, rfl, rfl, hp, -⟩ := he
        exact ⟨⟨_, _, true⟩, rfl, rfl, .parentheses hp, le_rfl⟩
      case openSquare =>
        refine .remaining fun fuel => (consumes_parseItems .closeSquare hexpr fuel).bind
          fun items ks _ hitems => .expect _ (.pure fun _ => ?_)
        obtain ⟨parts, hparts, hlisted⟩ := hitems
        obtain ⟨ps, rfl, rfl, hps⟩ := exists_map_of_forall₂ hparts
        exact hleaf (.list (fun p hp => (hps p hp).1) hlisted) rfl
      case openCurly =>
        have hentry : Consumes [] (do
            let key ← expr
            expect .colon "':'"
            let value ← expr
            pure (key, value)) fun entry ks _ =>
              ∃ ps : Phrase × Phrase, ps.1.kinds ++ .symbol .colon :: ps.2.kinds = ks ∧
                (ps.1.expr, ps.2.expr) = entry ∧
                ps.1.WellPlaced field ∧ ps.2.WellPlaced field := by
          refine hexpr.bind fun key ks _ hkey => .expect _ (hexpr.map fun value ks' _ hvalue => ?_)
          obtain ⟨p, rfl, rfl, hp, -⟩ := hkey
          obtain ⟨q, rfl, rfl, hq, -⟩ := hvalue
          exact ⟨(p, q), rfl, rfl, hp, hq⟩
        refine .remaining fun fuel => (consumes_parseItems .closeCurly hentry fuel).bind
          fun entries ks _ hentries => .expect _ (.pure fun _ => ?_)
        obtain ⟨parts, hparts, hlisted⟩ := hentries
        obtain ⟨ps, rfl, rfl, hps⟩ := exists_map_of_forall₂ hparts
        exact hleaf (.dict (fun p hp => (hps p hp).1) (fun p hp => (hps p hp).2) hlisted) rfl
      all_goals first
        | exact Bool.noConfusion hstart
        | exact .of_fails fun _ => ⟨_, _, rfl⟩
    | _ => cases hstart

theorem consumes_parseSuffixes {P : Phrase → Prop}
    (hexpr : Consumes [] expr fun e ks _ => Spells field P e ks) {p : Phrase}
    (hp : p.WellPlaced field) (hlevel : objectNeed ≤ p.level) (fuel : List Token) :
    Consumes [] (parseSuffixes expr p.expr fuel) fun e ks _ =>
      Spells field (fun p => objectNeed ≤ p.level) e (p.kinds ++ ks) := by
  have hwhole {p : Phrase} (hp : p.WellPlaced field) (hlevel : objectNeed ≤ p.level) :
      Spells field (fun p => objectNeed ≤ p.level) p.expr (p.kinds ++ []) :=
    ⟨p, (List.append_nil _).symm, rfl, hp, hlevel⟩
  induction fuel generalizing p with
  | nil => exact .pure fun _ => hwhole hp hlevel
  | cons t fuel ih =>
    refine .of_kind fun k => .look looks_peekKind ?_
    split
    · refine .advance (by simp) fun _ _ => .remaining fun left =>
        (consumes_parseArguments hexpr [] [] left).bind fun all ks _ hall => ?_
      obtain ⟨ps, ns, rfl, -, hlisted, hps, hns⟩ := hall
      refine .expect _ ((ih (.call hp hps hns hlevel hlisted) le_rfl).mono fun e ks _ he => ?_)
      simpa using he
    · refine .advance (by simp) fun _ _ => .of_kind fun k => ?_
      cases k with
      | name s =>
        refine .advance (by simp) fun t ht => ?_
        rw [ht]
        refine (ih (.attribute s hp hlevel) le_rfl).mono fun e ks _ he => ?_
        simpa using he
      | _ =>
        refine .advance_of_fails fun t ht tokens => ?_
        rw [ht]
        exact failHere_eq_error _ tokens
    · refine .advance (by simp) fun _ _ => hexpr.bind fun index ks _ hindex => ?_
      obtain ⟨q, rfl, rfl, hq, -⟩ := hindex
      refine .expect _ ((ih (.item hp hq hlevel) le_rfl).mono fun e ks _ he => ?_)
      simpa using he
    · exact .pure fun _ => hwhole hp hlevel

end Readers

/-! ### Operators -/

/-- What is read with operators of at least this power stops in front of these tokens. -/
def Weaker (power : Nat) (tokens : List Token) : Prop :=
  ∀ i ∈ infixAt? tokens, i.leftPower < power

theorem prefixed?_eq_some {op : UnaryOp} {power : Nat} (h : prefixed? k = some (op, power)) :
    k = op.kind ∧ power = op.level := by
  fun_cases prefixed? k with
  | case1 => cases h; exact ⟨rfl, rfl⟩
  | case2 => cases h; exact ⟨rfl, rfl⟩
  | case3 => cases h; exact ⟨rfl, rfl⟩
  | case4 => simp [prefixed?] at h

/-- An operand with what stands behind it, an operator of which it can be the left operand. -/
theorem consumes_parseOperand {sub : Nat → TokenParser Expr}
    (hsub : ∀ power ≤ objectNeed, Consumes [] (sub power) fun e ks rest =>
      Spells field (Phrase.Follows power) e ks ∧ Weaker power rest) :
    Consumes [] (parseOperand field sub) fun e ks rest =>
      Spells field (fun p => p.Follows objectNeed ∧ ∀ i ∈ infixAt? rest, i.leftNeed ≤ p.level)
        e ks := by
  have hinner : Consumes [] (sub 0) fun e ks _ => Spells field (Phrase.Follows 0) e ks :=
    (hsub 0 (Nat.zero_le _)).mono fun _ _ _ he => he.1
  refine .of_kind fun k => .look looks_peekKind ?_
  cases hprefix : prefixed? k with
  | some found =>
    obtain ⟨op, power⟩ := found
    obtain ⟨rfl, rfl⟩ := prefixed?_eq_some hprefix
    refine .advance (by cases op <;> simp [UnaryOp.kind]) fun _ _ =>
      (hsub _ op.level_lt.le).map fun e ks rest he => ?_
    obtain ⟨⟨p, rfl, rfl, hp, hfollows⟩, hweaker⟩ := he
    refine ⟨⟨op.kind :: p.kinds, .unary op p.expr, false⟩, rfl, rfl, .unary op hp hfollows,
      .inr ⟨rfl, op, p.expr, rfl⟩, fun i hi => ?_⟩
    have hpower : i.leftPower < op.level := hweaker i hi
    have := leftNeed_cases i
    show i.leftNeed ≤ op.level
    omega
  | none =>
    refine (consumes_parseAtom hinner).forget.bind fun e ks _ he => .remaining fun fuel => ?_
    obtain ⟨p, rfl, rfl, hp, hlevel⟩ := he
    refine (consumes_parseSuffixes hinner hp hlevel fuel).mono fun e ks rest he => ?_
    obtain ⟨q, hkinds, rfl, hq, hqlevel⟩ := he
    refine ⟨q, hkinds, rfl, hq, .inl hqlevel, fun i _ => ?_⟩
    have := leftNeed_cases i
    have := (power_bounds i).1
    omega

/-- The token that an operator begins with is the whole operator, or `not` in front of `in`. -/
theorem kinds_of_ofTokens? {second : Token.Kind} {i : Infix}
    (h : Infix.ofTokens? k second = some i) :
    k ≠ .eof ∧ (i.kinds = [k] ∧ i.width ≠ 2 ∨
      i.kinds = [k, second] ∧ i.width = 2 ∧ second ≠ .eof) := by
  cases k with
  | symbol s => cases s <;> cases h <;> exact ⟨by simp, .inl ⟨rfl, by decide⟩⟩
  | keyword w =>
    cases w with
    | not =>
      simp only [Infix.ofTokens?] at h
      split at h
      · cases h
        exact ⟨by simp, .inr ⟨rfl, rfl, by simp⟩⟩
      · cases h
    | _ => cases h <;> exact ⟨by simp, .inl ⟨rfl, by decide⟩⟩
  | _ => cases h

/-- No operator is taken, or the one that the tokens begin with. -/
theorem takeInfix_cases {least : Nat} {found : Option Infix} (hended : Ended tokens)
    (h : takeInfix least tokens = .ok found rest) :
    found = none ∧ rest = tokens ∧ Weaker least tokens ∨
      ∃ i ops, found = some i ∧ infixAt? tokens = some i ∧ least ≤ i.leftPower ∧
        tokens = ops ++ rest ∧ ops.map Token.kind = i.kinds ∧ Ended rest := by
  obtain ⟨first, second, hfirst, hsecond, hop⟩ := exists_peeked tokens
  rw [takeInfix, Outcome.run_bind_of_ok hfirst, Outcome.run_bind_of_ok hsecond, ← hop] at h
  cases hi : infixAt? tokens with
  | none =>
    rw [hi] at h
    cases h
    exact .inl ⟨rfl, rfl, by simp [Weaker, hi]⟩
  | some i =>
    rw [hi] at h
    dsimp only at h
    by_cases hleast : i.leftPower < least
    · rw [if_pos hleast] at h
      cases h
      exact .inl ⟨rfl, rfl, by simpa [Weaker, hi] using hleast⟩
    · rw [if_neg hleast] at h
      obtain ⟨t, more, rfl⟩ := List.exists_cons_of_ne_nil hended.ne_nil
      cases hfirst
      obtain ⟨hnotEof, ⟨hkinds, hwidth⟩ | ⟨hkinds, hwidth, hsecondEof⟩⟩ :=
        kinds_of_ofTokens? (hop.symm.trans hi)
      · have hmore := hended.tail hnotEof
        rw [Outcome.run_bind_of_ok (advance_cons t hmore.ne_nil), if_neg hwidth] at h
        cases h
        exact .inr ⟨i, [t], rfl, rfl, Nat.not_lt.mp hleast, rfl, hkinds.symm, hmore⟩
      · have hmore := hended.tail hnotEof
        obtain ⟨u, more, rfl⟩ := List.exists_cons_of_ne_nil hmore.ne_nil
        cases hsecond
        have hrest := hmore.tail hsecondEof
        rw [Outcome.run_bind_of_ok (advance_cons t hmore.ne_nil), if_pos hwidth,
          Outcome.run_bind_of_ok (advance_cons u hrest.ne_nil)] at h
        cases h
        exact .inr ⟨i, [t, u], rfl, rfl, Nat.not_lt.mp hleast, rfl, hkinds.symm, hrest⟩

/-- The left phrase with an operator and the phrase behind it. A further comparison goes on with a
chain that is open. -/
theorem Phrase.WellPlaced.apply {p q : Phrase} {i : Infix} {chained : Bool}
    (hp : p.WellPlaced field) (hq : q.WellPlaced field)
    (hbefore : i.leftNeed ≤ p.level ∨ chained = true ∧ i.isCompare = true)
    (hchained : chained = true → p.enclosed = false ∧ p.expr.isCompare = true)
    (hbehind : q.Follows i.rightPower) :
    ∃ r : Phrase, r.kinds = p.kinds ++ (i.kinds ++ q.kinds) ∧
      r.expr = i.apply chained p.expr q.expr ∧ r.WellPlaced field ∧ r.enclosed = false ∧
      r.level = i.leftPower ∧ (i.isCompare = true → r.expr.isCompare = true) := by
  cases i with
  | logic op =>
    have hleft : op.level ≤ p.level := hbefore.resolve_right nofun
    rw [rightPower_logic] at hbehind
    exact ⟨_, rfl, rfl, .logic op hp hq hleft hbehind, rfl, (leftPower_logic op).symm, nofun⟩
  | binary op =>
    have hleft : op.leftNeed ≤ p.level := hbefore.resolve_right nofun
    rw [rightPower_binary] at hbehind
    exact ⟨_, rfl, rfl, .binary op hp hq hleft hbehind, rfl, (leftPower_binary op).symm, nofun⟩
  | compare op =>
    have hplace : q.Follows comparedNeed := hbehind
    cases chained with
    | true =>
      obtain ⟨kinds, expr, enclosed⟩ := p
      obtain ⟨henclosed, hcompare⟩ := hchained rfl
      cases hp with
      | @compare first others hfirst hothers hfirstPlace hplaces =>
        have hothers' : ∀ other ∈ others ++ [(op, q)], other.2.WellPlaced field :=
          List.forall_mem_append.mpr ⟨hothers, List.forall_mem_singleton.mpr hq⟩
        have hplaces' : ∀ other ∈ others ++ [(op, q)], other.2.Follows comparedNeed :=
          List.forall_mem_append.mpr ⟨hplaces, List.forall_mem_singleton.mpr hplace⟩
        refine ⟨_, ?_, ?_, .compare hfirst hothers' hfirstPlace hplaces', rfl, rfl, fun _ => rfl⟩
        · simp [Infix.kinds]
        · simp [Infix.apply]
      | parentheses => cases henclosed
      | _ => cases hcompare
    | false =>
      have hleft : comparedNeed ≤ p.level := hbefore.resolve_right nofun
      have hothers : ∀ other ∈ [(op, q)], other.2.WellPlaced field :=
        List.forall_mem_singleton.mpr hq
      refine ⟨_, ?_, rfl, .compare hp hothers hleft (List.forall_mem_singleton.mpr hplace), rfl,
        rfl, fun _ => rfl⟩
      simp [Infix.kinds]

theorem rightPower_le (i : Infix) : i.rightPower ≤ i.leftPower + 1 ∧ i.rightPower ≤ 16 := by
  cases i with
  | compare op => cases op <;> decide
  | logic op => cases op <;> decide
  | binary op => cases op <;> decide

/-- What is read behind an operator stops in front of one that has its left operand there, or of a
comparison that goes on with the chain. -/
theorem leftNeed_le_of_weaker {i j : Infix} (h : j.leftPower < i.rightPower) :
    j.leftNeed ≤ i.leftPower ∨ i.isCompare = true ∧ j.isCompare = true := by
  obtain ⟨hnext, hpow⟩ := rightPower_le i
  cases j with
  | logic op =>
    have hpower : (Infix.logic op).leftPower = (Infix.logic op).leftNeed := leftPower_logic op
    omega
  | binary op =>
    cases op with
    | pow =>
      have hpower : (Infix.binary .pow).leftPower = 16 := rfl
      omega
    | _ => exact .inl (Nat.le_of_lt_succ (h.trans_le hnext))
  | compare op =>
    have hpower : 8 < i.rightPower := h
    cases i with
    | compare => exact .inr ⟨rfl, rfl⟩
    | logic op => cases op <;> exact absurd hpower (by decide)
    | binary op =>
      have hneed : comparedNeed ≤ (Infix.binary op).leftPower := by cases op <;> decide
      exact .inl hneed

theorem failTooDeep_eq_error (tokens : List Token) :
    ∃ e left, (failTooDeep : TokenParser α) tokens = .error e left := by
  cases tokens with
  | nil => exact ⟨_, _, rfl⟩
  | cons t rest => exact ⟨_, _, rfl⟩

mutual

theorem consumes_parseExpr (levels : Nat) {least : Nat} (hleast : least ≤ objectNeed) :
    Consumes [] (parseExpr field levels least) fun e ks rest =>
      Spells field (Phrase.Follows least) e ks ∧ Weaker least rest := by
  cases levels with
  | zero =>
    rw [parseExpr]
    exact .of_fails failTooDeep_eq_error
  | succ levels =>
    rw [parseExpr]
    intro tokens e rest _ hended hrun
    obtain ⟨left, mid, hoperand, hoperators⟩ := Outcome.run_bind_eq_ok_iff.mp hrun
    obtain ⟨used, rfl, hmid, p, hkinds, rfl, hp, hfollows, hnext⟩ :=
      consumes_parseOperand (fun power => consumes_parseExpr levels) tokens left mid
        List.nil_prefix hended hoperand
    have hplace : p.Follows least := hfollows.imp_left hleast.trans
    obtain ⟨more, rfl, hrest, hspells, hweaker⟩ := consumes_parseOperators levels least false hp
      hplace nofun hmid (fun i hi => .inl (hnext i hi)) hoperators
    refine ⟨used ++ more, (List.append_assoc ..).symm, hrest, ?_, hweaker⟩
    rwa [hkinds, ← List.map_append] at hspells

theorem consumes_parseOperators (levels least : Nat) (chained : Bool) {p : Phrase}
    (hp : p.WellPlaced field) (hplace : p.Follows least)
    (hchained : chained = true → p.enclosed = false ∧ p.expr.isCompare = true) {e : Expr}
    {tokens rest : List Token} (hended : Ended tokens)
    (hnext : ∀ i ∈ infixAt? tokens, i.leftNeed ≤ p.level ∨ chained = true ∧ i.isCompare = true)
    (hrun : parseOperators field levels least p.expr chained tokens = .ok e rest) :
    ∃ used, tokens = used ++ rest ∧ Ended rest ∧
      Spells field (Phrase.Follows least) e (p.kinds ++ used.map Token.kind) ∧
      Weaker least rest := by
  have hstop (hweaker : Weaker least tokens) : ∃ used, tokens = used ++ tokens ∧ Ended tokens ∧
      Spells field (Phrase.Follows least) p.expr (p.kinds ++ used.map Token.kind) ∧
      Weaker least tokens :=
    ⟨[], rfl, hended, ⟨p, (List.append_nil _).symm, rfl, hp, hplace⟩, hweaker⟩
  cases levels with
  | zero =>
    rw [parseOperators] at hrun
    obtain ⟨found, mid, hfound, hrest⟩ := Outcome.run_bind_eq_ok_iff.mp hrun
    rcases takeInfix_cases hended hfound with ⟨rfl, rfl, hweaker⟩ | ⟨i, ops, rfl, -⟩
    · cases hrest
      exact hstop hweaker
    · obtain ⟨_, _, herror⟩ := failTooDeep_eq_error (α := Expr) mid
      cases herror.symm.trans hrest
  | succ levels =>
    rw [parseOperators] at hrun
    obtain ⟨found, mid, hfound, hrest⟩ := Outcome.run_bind_eq_ok_iff.mp hrun
    rcases takeInfix_cases hended hfound with
      ⟨rfl, rfl, hweaker⟩ | ⟨i, ops, rfl, hi, hpower, rfl, hops, hmid⟩
    · cases hrest
      exact hstop hweaker
    · obtain ⟨right, behind, hright, hmore⟩ := Outcome.run_bind_eq_ok_iff.mp hrest
      obtain ⟨used, rfl, hbehind, ⟨q, hqkinds, rfl, hq, hqplace⟩, hweaker⟩ :=
        consumes_parseExpr levels (power_bounds i).2 mid right behind List.nil_prefix hmid hright
      obtain ⟨r, hrkinds, hrexpr, hr, henclosed, hlevel, hcompare⟩ :=
        hp.apply hq (hnext i hi) hchained hqplace
      rw [← hrexpr] at hmore
      have hplace' : r.Follows least := .inl (hlevel ▸ hpower)
      obtain ⟨more, rfl, hrest, hspells, hstop⟩ := consumes_parseOperators levels least i.isCompare
        hr hplace' (fun h => ⟨henclosed, hcompare h⟩) hbehind
        (fun j hj => hlevel ▸ leftNeed_le_of_weaker (hweaker j hj)) hmore
      refine ⟨ops ++ (used ++ more), by simp, hrest, ?_, hstop⟩
      rw [hrkinds, hqkinds, ← hops] at hspells
      simpa using hspells

end

/-- What is read as an expression up to the end is a phrase with all its operands in their places.
-/
theorem wellPlaced_of_parseExpr {levels : Nat} {last : Token} {e : Expr} (hlast : last.kind = .eof)
    (h : parseExpr field levels 0 tokens = .ok e [last]) :
    ∃ p : Phrase, tokens.map Token.kind = p.kinds ++ [.eof] ∧ p.expr = e ∧ p.WellPlaced field := by
  have hsome : tokens ≠ [] := by
    rintro rfl
    cases levels with
    | zero => cases h
    | succ levels => cases h
  have hread : Ends tokens (fun _ => True) (parseExpr field levels 0 tokens) :=
    reads_parseExpr levels 0 tokens List.suffix_rfl hsome
  rw [h] at hread
  obtain ⟨front, hfront⟩ := hread.1
  have hended : Ended tokens := ⟨last, by simp [← hfront], hlast⟩
  obtain ⟨used, rfl, -, ⟨p, hkinds, hexpr, hp, -⟩, -⟩ :=
    consumes_parseExpr levels (Nat.zero_le _) tokens e [last] List.nil_prefix hended h
  exact ⟨p, by simp [hkinds, hlast], hexpr, hp⟩

/-- All tokens on one line. -/
def onFirstLine (kinds : List Token.Kind) : List Token := kinds.map (⟨1, ·⟩)

/-- No format strings are read. -/
def noFields (_ : List Char) (line : Nat) : Except SyntaxError Expr := .error ⟨.invalidSyntax, line⟩

/-- The tokens of `2 ** -(1 + x)`. -/
def signedPower : List Token := onFirstLine
  [.int 2, .symbol .doubleStar, .symbol .minus, .symbol .openRound, .int 1, .symbol .plus,
    .name "x", .symbol .closeRound, .eof]

/-- A sum is in parentheses behind its sign, and the sign stands behind `**` without any. -/
theorem wellPlaced_of_signedPower :
    parseExpr noFields maxDepth 0 signedPower =
        .ok (.binary .pow (.constant (.int 2))
          (.unary .neg (.binary .add (.constant (.int 1)) (.name "x")))) [⟨1, .eof⟩] ∧
      ∃ p : Phrase, signedPower.map Token.kind = p.kinds ++ [.eof] ∧
        p.expr = .binary .pow (.constant (.int 2))
          (.unary .neg (.binary .add (.constant (.int 1)) (.name "x"))) ∧
        p.WellPlaced noFields := by
  have hparse : parseExpr noFields maxDepth 0 signedPower =
      .ok (.binary .pow (.constant (.int 2))
        (.unary .neg (.binary .add (.constant (.int 1)) (.name "x")))) [⟨1, .eof⟩] := rfl
  exact ⟨hparse, wellPlaced_of_parseExpr rfl hparse⟩

/-- The tokens of `1 + not 2`. -/
def looseOperand : List Token := onFirstLine [.int 1, .symbol .plus, .keyword .not, .int 2, .eof]

/-- The right operand of the sum is looser than the sum, and there are no parentheses. -/
theorem loose_behind_operator :
    parseExpr noFields maxDepth 0 looseOperand =
        .ok (.binary .add (.constant (.int 1)) (.unary .not (.constant (.int 2)))) [⟨1, .eof⟩] ∧
      (Expr.unary .not (.constant (.int 2))).level < BinaryOp.add.level ∧
      ∀ t ∈ looseOperand, t.kind ≠ .symbol .openRound := by
  refine ⟨rfl, by decide, ?_⟩
  simp [looseOperand, onFirstLine]

end LiveDoc.Fragment
