import LiveDoc.Proofs.Fragment.ExpressionFrame
import LiveDoc.Proofs.Fragment.Precedence

/-!
Reading with a bound on the levels. A reader of known tokens reads their value if the levels
suffice, and else it fails because the expression is too deep; both are said at once by `ReadsIf`.
Such readings follow one another, and so do the items between commas and the arguments of a call:
the levels suffice for all of them if they suffice for each.
-/
namespace LiveDoc.Fragment

open TokenParser

variable {α β : Type} {P Q : Prop} {act : TokenParser α} {next : α → TokenParser β}
  {tokens mid left more : List Token} {a : α} {b : β} {t : Token}

/-- The value is read if `P` holds, and else the expression is too deep. -/
structure ReadsIf (P : Prop) (act : TokenParser α) (tokens : List Token) (a : α)
    (left : List Token) : Prop where
  reads : P → act tokens = .ok a left
  tooDeep : ¬ P → ∃ line rest, act tokens = .error ⟨.tooDeep, line⟩ rest

namespace ReadsIf

theorem congr (h : ReadsIf P act tokens a left) (hPQ : P ↔ Q) : ReadsIf Q act tokens a left where
  reads hQ := h.reads (hPQ.mpr hQ)
  tooDeep hQ := h.tooDeep fun hP => hQ (hPQ.mp hP)

theorem of_eq (h : act tokens = .ok a left) (hP : P) : ReadsIf P act tokens a left where
  reads _ := h
  tooDeep hnot := absurd hP hnot

theorem bind (hact : ReadsIf P act tokens a mid) (hnext : ReadsIf Q (next a) mid b left) :
    ReadsIf (P ∧ Q) (act >>= next) tokens b left where
  reads h := (Outcome.run_bind_of_ok (hact.reads h.1)).trans (hnext.reads h.2)
  tooDeep hnot := by
    by_cases hP : P
    · obtain ⟨line, rest, herror⟩ := hnext.tooDeep fun hQ => hnot ⟨hP, hQ⟩
      exact ⟨line, rest, (Outcome.run_bind_of_ok (hact.reads hP)).trans herror⟩
    · obtain ⟨line, rest, herror⟩ := hact.tooDeep hP
      exact ⟨line, rest, Outcome.run_bind_of_error herror⟩

/-- A first step that takes no level. -/
theorem step (hact : act tokens = .ok a mid) (hnext : ReadsIf Q (next a) mid b left) :
    ReadsIf Q (act >>= next) tokens b left :=
  ((of_eq hact trivial).bind hnext).congr (Iff.of_eq (true_and Q))

/-- A last step that takes no level. -/
theorem andThen (hact : ReadsIf P act tokens a mid) (hnext : next a mid = .ok b left) :
    ReadsIf P (act >>= next) tokens b left :=
  (hact.bind (of_eq hnext trivial)).congr (Iff.of_eq (and_true P))

/-- No level is left. -/
theorem failTooDeep (hP : ¬ P) : ReadsIf P LiveDoc.Fragment.failTooDeep tokens a left where
  reads h := absurd h hP
  tooDeep _ := by cases tokens <;> exact ⟨_, _, rfl⟩

/-- A condition that does not stand in the way. -/
theorem guard {stop : Bool} {cause : SyntaxError.Cause} {next : Unit → TokenParser α}
    (hstop : stop = false) (h : ReadsIf P (next ()) tokens a left) :
    ReadsIf P (if stop = true then failHere cause >>= next else next ()) tokens a left := by
  subst hstop
  exact h

end ReadsIf

/-! ### Single tokens -/

/-- A look at the first token. -/
theorem Looks.first {k : Token.Kind} (h : Looks [k] act a)
    (htokens : (tokens.map Token.kind).head? = some k) : act tokens = .ok a tokens := by
  obtain ⟨ks, hks⟩ := List.head?_eq_some_iff.mp htokens
  exact h tokens ⟨ks, hks.symm⟩

theorem advance_cons (t : Token) (h : more ≠ []) : advance (t :: more) = .ok t more := by
  obtain ⟨u, rest, rfl⟩ := List.exists_cons_of_ne_nil h
  rfl

theorem eat_of_kind {s : Symbol} (line : Nat) (h : more ≠ []) :
    eat s (⟨line, .symbol s⟩ :: more) = .ok true more := by
  have hlook : atSymbol s (⟨line, .symbol s⟩ :: more) = .ok (decide (s = s)) _ := rfl
  rw [eat, Outcome.run_bind_of_ok hlook, decide_eq_true rfl, if_pos rfl,
    Outcome.run_bind_of_ok (advance_cons _ h)]
  rfl

theorem eat_of_other {s : Symbol} (h : t.kind.isSymbol s = false) :
    eat s (t :: more) = .ok false (t :: more) := by
  have hlook : atSymbol s (t :: more) = .ok (t.kind.isSymbol s) (t :: more) :=
    (looks_atSymbol s).first rfl
  rw [eat, Outcome.run_bind_of_ok hlook, h]
  rfl

theorem expect_of_kind {s : Symbol} {what : String} (line : Nat) (h : more ≠ []) :
    expect s what (⟨line, .symbol s⟩ :: more) = .ok () more := by
  rw [expect, Outcome.run_bind_of_ok (eat_of_kind line h)]
  rfl

/-! ### Parts that end before a comma or a closing token -/

/-- What stands behind a whole expression. -/
def Token.Kind.endsExpression : Token.Kind → Bool
  | .symbol .comma => true
  | .symbol .colon => true
  | .symbol .closeRound => true
  | .symbol .closeSquare => true
  | .symbol .closeCurly => true
  | .eof => true
  | _ => false

/-- Tokens of these kinds are read as `a` wherever an expression ends behind them. -/
def ReadsPart (act : TokenParser α) (kinds : List Token.Kind) (P : Prop) (a : α) : Prop :=
  ∀ tokens t more, tokens.map Token.kind = kinds → t.kind.endsExpression = true →
    ReadsIf P act (tokens ++ t :: more) a (t :: more)

theorem readsPart_entry {expr : TokenParser Expr} {key value : Expr}
    (hkey : ReadsPart expr key.kinds P key) (hvalue : ReadsPart expr value.kinds Q value) :
    ReadsPart
      (do
        let k ← expr
        expect .colon "':'"
        let v ← expr
        pure (k, v))
      (kindsOfEntry (key, value)) (P ∧ Q) (key, value) := by
  intro tokens t more htokens hends
  obtain ⟨first, others, rfl, hfirst, hothers⟩ := List.map_eq_append_iff.mp htokens
  obtain ⟨⟨line, kind⟩, second, rfl, rfl, hsecond⟩ := List.map_eq_cons_iff.mp hothers
  rw [List.append_assoc, List.cons_append]
  refine (hkey first _ _ hfirst rfl).bind (.step (expect_of_kind line (by simp)) ?_)
  exact (hvalue second t more hsecond hends).andThen rfl

/-- Other parts may stand behind the part that is read. -/
theorem ReadsPart.before {kinds : List Token.Kind} {parts : List (List Token.Kind)}
    {others : List Token} (h : ReadsPart act kinds P a) (htokens : tokens.map Token.kind = kinds)
    (hothers : others.map Token.kind = parts.flatMap (.symbol .comma :: ·))
    (ht : t.kind.endsExpression = true) :
    ReadsIf P act (tokens ++ (others ++ t :: more)) a (others ++ t :: more) := by
  cases parts with
  | nil =>
    obtain rfl := List.map_eq_nil_iff.mp hothers
    exact h tokens t more htokens ht
  | cons part parts =>
    rw [List.flatMap_cons, List.cons_append] at hothers
    obtain ⟨⟨line, kind⟩, rest, rfl, rfl, -⟩ := List.map_eq_cons_iff.mp hothers
    exact h tokens _ _ htokens rfl

/-- Behind a part, a comma goes on to the other parts, and where there are none the parts end. -/
theorem ReadsIf.eat_comma {parts : List (List Token.Kind)} {others : List Token}
    {next : Bool → TokenParser β}
    (hothers : others.map Token.kind = parts.flatMap (.symbol .comma :: ·))
    (ht : t.kind.isSymbol .comma = false)
    (hstop : parts = [] → ReadsIf Q (next false) (t :: more) b left)
    (hgo : ∀ rest, parts ≠ [] → rest.map Token.kind = separated parts →
      rest.length < others.length → ReadsIf Q (next true) (rest ++ t :: more) b left) :
    ReadsIf Q (eat .comma >>= next) (others ++ t :: more) b left := by
  cases parts with
  | nil =>
    obtain rfl := List.map_eq_nil_iff.mp hothers
    exact .step (eat_of_other ht) (hstop rfl)
  | cons part parts =>
    rw [List.flatMap_cons, List.cons_append, ← separated_cons] at hothers
    obtain ⟨⟨line, kind⟩, rest, rfl, rfl, hrest⟩ := List.map_eq_cons_iff.mp hothers
    exact .step (eat_of_kind line (by simp)) (hgo rest (List.cons_ne_nil _ _) hrest (by simp))

section Items

variable {item : TokenParser α} {kinds : α → List Token.Kind} {fits : α → Prop} {close : Symbol}

theorem readsIf_parseItems {xs : List α} {fuel : List Token} {line : Nat}
    (hclose : (Token.Kind.symbol close).endsExpression = true)
    (hcomma : (Token.Kind.symbol close).isSymbol .comma = false)
    (hitem : ∀ x ∈ xs, ReadsPart item (kinds x) (fits x) x)
    (hstart : ∀ x ∈ xs, ∃ k ks, kinds x = k :: ks ∧ k.isSymbol close = false)
    (htokens : tokens.map Token.kind = separated (xs.map kinds))
    (hfuel : tokens.length < fuel.length) :
    ReadsIf (∀ x ∈ xs, fits x) (parseItems close item fuel)
      (tokens ++ ⟨line, .symbol close⟩ :: more) xs (⟨line, .symbol close⟩ :: more) := by
  induction xs generalizing tokens fuel with
  | nil =>
    obtain rfl := List.map_eq_nil_iff.mp htokens
    obtain ⟨u, fuel, rfl⟩ := List.exists_cons_of_length_pos hfuel
    have hlook : atSymbol close (⟨line, .symbol close⟩ :: more) = .ok (decide (close = close)) _ :=
      rfl
    rw [parseItems, List.nil_append]
    refine .step hlook (.of_eq ?_ (by simp))
    rw [decide_eq_true rfl]
    rfl
  | cons x xs ih =>
    obtain ⟨u, fuel, rfl⟩ := List.exists_cons_of_length_pos (Nat.zero_lt_of_lt hfuel)
    rw [List.map_cons, separated_cons] at htokens
    obtain ⟨first, others, rfl, hfirst, hothers⟩ := List.map_eq_append_iff.mp htokens
    obtain ⟨k, ks, hkinds, hk⟩ := hstart x (List.mem_cons_self ..)
    rw [parseItems]
    refine .step ((looks_atSymbol (k := k) close).first (by simp [hfirst, hkinds])) ?_
    rw [hk, if_neg Bool.false_ne_true, List.append_assoc]
    have hx := hitem x (List.mem_cons_self ..)
    refine ((hx.before hfirst hothers hclose).bind (.eat_comma (Q := ∀ y ∈ xs, fits y) hothers
      hcomma ?_ ?_)).congr List.forall_mem_cons.symm
    · intro hnone
      obtain rfl := List.map_eq_nil_iff.mp hnone
      exact .of_eq rfl (by simp)
    · intro rest hsome hrest hlength
      have hshort : rest.length < fuel.length := by
        simp only [List.length_append, List.length_cons] at hfuel
        omega
      exact (ih (fun y hy => hitem y (List.mem_cons_of_mem x hy))
        (fun y hy => hstart y (List.mem_cons_of_mem x hy)) hrest hshort).andThen rfl

end Items

/-! ### Arguments -/

theorem eq_nil_of_kindsOfItems {items : List Expr} (h : kindsOfItems items = []) : items = [] := by
  cases items with
  | nil => rfl
  | cons e rest => cases h

theorem eq_nil_of_kindsOfNamed {named : List (String × Expr)} (h : kindsOfNamed named = []) :
    named = [] := by
  cases named with
  | nil => rfl
  | cons arg rest => cases h

section Arguments

variable {expr : TokenParser Expr} {fits : Expr → Prop} {fuel : List Token} {line : Nat}

/-- The argument at the tokens is a keyword argument. -/
def beginsNamed : List Token.Kind → Bool
  | .name _ :: .symbol .assign :: _ => true
  | _ => false

theorem readsIf_named {args : List Expr} {done named : List (String × Expr)}
    (hnamed : ∀ arg ∈ named, ReadsPart expr arg.2.kinds (fits arg.2) arg.2)
    (honce : ((done ++ named).map Prod.fst).Nodup)
    (htokens : tokens.map Token.kind = separated (kindsOfNamed named))
    (hfuel : tokens.length < fuel.length) :
    ReadsIf (∀ arg ∈ named, fits arg.2) (parseArguments expr args done fuel)
      (tokens ++ ⟨line, .symbol .closeRound⟩ :: more) (args, done ++ named)
      (⟨line, .symbol .closeRound⟩ :: more) := by
  induction named generalizing tokens fuel done with
  | nil =>
    obtain rfl := List.map_eq_nil_iff.mp htokens
    obtain ⟨u, fuel, rfl⟩ := List.exists_cons_of_length_pos hfuel
    rw [List.append_nil]
    exact .of_eq rfl (by simp)
  | cons arg named ih =>
    obtain ⟨s, value⟩ := arg
    obtain ⟨u, fuel, rfl⟩ := List.exists_cons_of_length_pos (Nat.zero_lt_of_lt hfuel)
    rw [kindsOfNamed, separated_cons] at htokens
    obtain ⟨first, others, rfl, hfirst, hbehind⟩ := List.map_eq_append_iff.mp htokens
    obtain ⟨⟨line₁, kind₁⟩, second, rfl, rfl, hsecond⟩ := List.map_eq_cons_iff.mp hfirst
    obtain ⟨⟨line₂, kind₂⟩, body, rfl, rfl, hbody⟩ := List.map_eq_cons_iff.mp hsecond
    have hnew : done.any (·.1 = s) = false := by
      simp only [List.map_append, List.map_cons] at honce
      have hdisjoint := (List.nodup_append.mp honce).2.2
      simp only [List.any_eq_false, decide_eq_true_eq]
      intro arg harg
      exact hdisjoint arg.1 (List.mem_map_of_mem harg) s (List.mem_cons_self ..)
    rw [List.append_cons done] at honce ⊢
    have htail : ReadsIf (∀ arg ∈ named, fits arg.2)
        (eat .comma >>= fun more =>
          if more = true then parseArguments expr args (done ++ [(s, value)]) fuel
          else pure (args, done ++ [(s, value)]))
        (others ++ ⟨line, .symbol .closeRound⟩ :: more) (args, done ++ [(s, value)] ++ named)
        (⟨line, .symbol .closeRound⟩ :: more) := by
      refine .eat_comma hbehind rfl ?_ ?_
      · intro hnone
        obtain rfl := eq_nil_of_kindsOfNamed hnone
        exact .of_eq (by rw [List.append_nil]; rfl) (by simp)
      · intro rest _ hrest hlength
        refine ih (fun arg harg => hnamed arg (List.mem_cons_of_mem _ harg)) honce hrest ?_
        simp only [List.length_append, List.length_cons] at hfuel
        omega
    refine .congr (P := fits value ∧ ∀ arg ∈ named, fits arg.2) ?_ (by simp)
    rw [parseArguments, List.cons_append, List.cons_append, List.cons_append, List.cons_append,
      List.append_assoc]
    refine .step (a := false) rfl ?_
    rw [if_neg Bool.false_ne_true]
    refine .step (a := .name s) rfl (.step (a := .symbol .assign) rfl ?_)
    refine .step (advance_cons _ (by simp)) (.step (advance_cons _ (by simp)) (.guard hnew ?_))
    refine ((hnamed (s, value) (List.mem_cons_self ..)).before hbody hbehind rfl).bind ?_
    exact .step rfl htail

theorem readsIf_parseArguments {args done : List Expr} {named : List (String × Expr)}
    (hargs : ∀ e ∈ args, ReadsPart expr e.kinds (fits e) e)
    (hplain : ∀ e ∈ args, ∀ k more, k ≠ .symbol .assign →
      beginsNamed (e.kinds ++ k :: more) = false)
    (hstart : ∀ e ∈ args, ∃ k ks, e.kinds = k :: ks ∧ k.isSymbol .closeRound = false)
    (hnamed : ∀ arg ∈ named, ReadsPart expr arg.2.kinds (fits arg.2) arg.2)
    (honce : (named.map Prod.fst).Nodup)
    (htokens : tokens.map Token.kind = separated (kindsOfItems args ++ kindsOfNamed named))
    (hfuel : tokens.length < fuel.length) :
    ReadsIf ((∀ e ∈ args, fits e) ∧ ∀ arg ∈ named, fits arg.2) (parseArguments expr done [] fuel)
      (tokens ++ ⟨line, .symbol .closeRound⟩ :: more) (done ++ args, named)
      (⟨line, .symbol .closeRound⟩ :: more) := by
  induction args generalizing tokens fuel done with
  | nil =>
    rw [List.append_nil]
    exact (readsIf_named hnamed (by simpa using honce) htokens hfuel).congr (by simp)
  | cons e args ih =>
    obtain ⟨u, fuel, rfl⟩ := List.exists_cons_of_length_pos (Nat.zero_lt_of_lt hfuel)
    rw [kindsOfItems, List.cons_append, separated_cons] at htokens
    obtain ⟨first, others, rfl, hfirst, hbehind⟩ := List.map_eq_append_iff.mp htokens
    obtain ⟨k, ks, hkinds, hk⟩ := hstart e (List.mem_cons_self ..)
    have htail : ReadsIf ((∀ e ∈ args, fits e) ∧ ∀ arg ∈ named, fits arg.2)
        (eat .comma >>= fun more =>
          if more = true then parseArguments expr (done ++ [e]) [] fuel else pure (done ++ [e], []))
        (others ++ ⟨line, .symbol .closeRound⟩ :: more) (done ++ [e] ++ args, named)
        (⟨line, .symbol .closeRound⟩ :: more) := by
      refine .eat_comma hbehind rfl ?_ ?_
      · intro hnone
        obtain ⟨hargs, hnamed⟩ := List.append_eq_nil_iff.mp hnone
        obtain rfl := eq_nil_of_kindsOfItems hargs
        obtain rfl := eq_nil_of_kindsOfNamed hnamed
        exact .of_eq (by rw [List.append_nil]; rfl) (by simp)
      · intro rest _ hrest hlength
        refine ih (fun e' he => hargs e' (List.mem_cons_of_mem e he))
          (fun e' he => hplain e' (List.mem_cons_of_mem e he))
          (fun e' he => hstart e' (List.mem_cons_of_mem e he)) hrest ?_
        simp only [List.length_append, List.length_cons] at hfuel
        omega
    have hbegins : beginsNamed ((first ++ (others ++ ⟨line, .symbol .closeRound⟩ :: more)).map
        Token.kind) = false := by
      rw [List.map_append, hfirst]
      have hplain := hplain e (List.mem_cons_self ..)
      cases hparts : kindsOfItems args ++ kindsOfNamed named with
      | nil =>
        rw [hparts] at hbehind
        obtain rfl := List.map_eq_nil_iff.mp hbehind
        exact hplain _ _ (by simp)
      | cons part parts =>
        rw [hparts] at hbehind
        rw [List.map_append, hbehind]
        exact hplain _ _ (by simp)
    refine .congr (P := fits e ∧ (∀ e ∈ args, fits e) ∧ ∀ arg ∈ named, fits arg.2) ?_
      (by simp [and_assoc])
    rw [List.append_cons done, List.append_assoc]
    have hread : ReadsIf (fits e) expr (first ++ (others ++ ⟨line, .symbol .closeRound⟩ :: more)) e
        (others ++ ⟨line, .symbol .closeRound⟩ :: more) :=
      (hargs e (List.mem_cons_self ..)).before hfirst hbehind rfl
    obtain ⟨t, tail, rfl, rfl, -⟩ := List.map_eq_cons_iff.mp (hfirst.trans hkinds)
    obtain ⟨u, behind, hbehind⟩ := List.exists_cons_of_ne_nil
      (l := tail ++ (others ++ ⟨line, .symbol .closeRound⟩ :: more)) (by simp)
    rw [parseArguments]
    refine .step ((looks_atSymbol (k := t.kind) .closeRound).first rfl) ?_
    rw [hk, if_neg Bool.false_ne_true]
    rw [List.cons_append, hbehind] at hread hbegins ⊢
    refine .step (a := t.kind) rfl (.step (a := u.kind) rfl ?_)
    split
    · rename_i hname hassign
      simp [hname, hassign, beginsNamed] at hbegins
    · refine .guard rfl (hread.bind ?_)
      exact .step rfl htail

end Arguments

end LiveDoc.Fragment
