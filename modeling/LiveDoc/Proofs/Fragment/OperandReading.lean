import LiveDoc.Proofs.Fragment.ExpressionEnds

/-!
Operands read from their tokens. `ReadsOperand` says it of constants, names, lists, dicts and
expressions in brackets, and of what calls, attributes and items make of them; `ReadsBack` says it
of expressions with operators. Both leave open what follows: they go on with whatever is read
behind the tokens.
-/
namespace LiveDoc.Fragment

open TokenParser

variable {field : List Char → Nat → Except SyntaxError Expr} {Q : Prop} {levels least need : Nat}
  {tokens ops rest more left : List Token} {b e : Expr} {t : Token} {k : Token.Kind} {i : Infix}

/-- Tokens of these kinds are read as the operand `e`, which may go on behind them with calls,
attributes and items. -/
def ReadsOperand (field : List Char → Nat → Except SyntaxError Expr) (kinds : List Token.Kind)
    (depth : Nat) (e : Expr) : Prop :=
  ∀ ⦃levels : Nat⦄ ⦃tokens : List Token⦄ ⦃t : Token⦄ ⦃more left : List Token⦄ ⦃Q : Prop⦄ ⦃b : Expr⦄,
    tokens.map Token.kind = kinds → (∀ s, t.kind ≠ .str s) →
    (∀ fuel, more.length < fuel.length →
      ReadsIf Q (parseSuffixes (parseExpr field levels 0) e fuel) (t :: more) b left) →
    ReadsIf (depth ≤ levels + 1 ∧ Q) (parseOperand field (parseExpr field levels))
      (tokens ++ t :: more) b left

/-- The tokens of `e` are read as `e`, which may go on behind them with operators. -/
def ReadsBack (field : List Char → Nat → Except SyntaxError Expr) (e : Expr) : Prop :=
  ∀ ⦃levels least : Nat⦄ ⦃tokens rest left : List Token⦄ ⦃Q : Prop⦄ ⦃b : Expr⦄,
    tokens.map Token.kind = e.kinds → least ≤ e.level → Stops e.closing rest →
    ReadsIf Q (parseOperators field (levels - 1 - e.chain) least e e.isCompare) rest b left →
    ReadsIf (e.depth ≤ levels ∧ Q) (parseExpr field levels least) (tokens ++ rest) b left

theorem ReadsBack.part (h : ReadsBack field e) (levels : Nat) :
    ReadsPart (parseExpr field levels 0) e.kinds (e.depth ≤ levels) e := by
  intro tokens t more htokens ht
  have hstops (power : Nat) : Stops power (t :: more) := .of_ends power ht more
  refine (h htokens (Nat.zero_le _) (hstops _) (.of_eq ?_ trivial)).congr (by simp)
  exact (hstops 0).parseOperators_eq le_rfl e.isCompare

/-- An operand that is known by its first token. -/
theorem readsOperand_of_atom {kinds : List Token.Kind} {depth : Nat}
    (hplain : ∃ k ks, kinds = k :: ks ∧ prefixed? k = none)
    (hatom : ∀ levels tokens t more, tokens.map Token.kind = kinds → (∀ s, t.kind ≠ .str s) →
      ReadsIf (depth ≤ levels + 1) (parseAtom field (parseExpr field levels 0))
        (tokens ++ t :: more) e (t :: more)) :
    ReadsOperand field kinds depth e := by
  intro levels tokens t more left Q b htokens ht hnext
  obtain ⟨k, ks, hkinds, hk⟩ := hplain
  have hpeek : peekKind (tokens ++ t :: more) = .ok k (tokens ++ t :: more) :=
    Looks.first looks_peekKind (by simp [htokens, hkinds])
  rw [parseOperand]
  refine .step hpeek ?_
  rw [hk]
  refine (hatom levels tokens t more htokens ht).bind ?_
  exact .step rfl (hnext (t :: more) (Nat.lt_succ_self _))

theorem readsOperand_constant (c : Constant) :
    ReadsOperand field (Expr.constant c).kinds 1 (.constant c) := by
  refine readsOperand_of_atom ⟨_, _, rfl, ?_⟩ fun levels tokens t more htokens ht => ?_
  · cases c with
    | bool b => cases b <;> rfl
    | _ => rfl
  · obtain ⟨⟨line, _⟩, none, rfl, rfl, hnone⟩ := List.map_eq_cons_iff.mp htokens
    obtain rfl := List.map_eq_nil_iff.mp hnone
    refine .of_eq ?_ (Nat.le_add_left 1 levels)
    cases c with
    | bool b => cases b <;> rfl
    | str s =>
      obtain ⟨line', kind⟩ := t
      cases kind with
      | str other => exact absurd rfl (ht other)
      | _ => rfl
    | _ => rfl

theorem readsOperand_name (s : String) : ReadsOperand field (Expr.name s).kinds 1 (.name s) := by
  refine readsOperand_of_atom ⟨_, _, rfl, rfl⟩ fun levels tokens t more htokens ht => ?_
  obtain ⟨⟨line, _⟩, none, rfl, rfl, hnone⟩ := List.map_eq_cons_iff.mp htokens
  obtain rfl := List.map_eq_nil_iff.mp hnone
  exact .of_eq rfl (Nat.le_add_left 1 levels)

theorem exists_between {first last : Token.Kind} {kinds : List Token.Kind}
    (h : tokens.map Token.kind = first :: (kinds ++ [last])) :
    ∃ line body line', tokens = ⟨line, first⟩ :: (body ++ [⟨line', last⟩]) ∧
      body.map Token.kind = kinds := by
  obtain ⟨⟨line, _⟩, rest, rfl, rfl, hrest⟩ := List.map_eq_cons_iff.mp h
  obtain ⟨body, ending, rfl, hbody, hending⟩ := List.map_eq_append_iff.mp hrest
  obtain ⟨⟨line', _⟩, none, rfl, rfl, hnone⟩ := List.map_eq_cons_iff.mp hending
  obtain rfl := List.map_eq_nil_iff.mp hnone
  exact ⟨line, body, line', rfl, hbody⟩

theorem readsOperand_brackets (h : ReadsBack field e) :
    ReadsOperand field (.symbol .openRound :: (e.kinds ++ [.symbol .closeRound])) (e.depth + 1)
      e := by
  refine readsOperand_of_atom ⟨_, _, rfl, rfl⟩ fun levels tokens t more htokens _ => ?_
  obtain ⟨line, body, line', rfl, hbody⟩ := exists_between htokens
  rw [List.cons_append, List.append_assoc, List.singleton_append]
  refine .step (a := false) rfl (.guard rfl (.step (advance_cons _ (by simp)) ?_))
  refine ((h.part levels body _ _ hbody rfl).andThen ?_).congr (by omega)
  exact Outcome.run_bind_of_ok (expect_of_kind line' (by simp))

theorem readsOperand_list {items : List Expr} (hitems : ∀ e ∈ items, ReadsBack field e)
    (hstart : ∀ e ∈ items, StartsExpr e.kinds) :
    ReadsOperand field (Expr.list items).kinds (Expr.list items).depth (.list items) := by
  refine readsOperand_of_atom ⟨_, _, rfl, rfl⟩ fun levels tokens t more htokens _ => ?_
  obtain ⟨line, body, line', rfl, hbody⟩ := exists_between htokens
  rw [kindsOfItems_eq_map] at hbody
  rw [List.cons_append, List.append_assoc, List.singleton_append]
  refine .step (a := false) rfl (.guard rfl (.step (advance_cons _ (by simp)) (.step rfl ?_)))
  have hopen (e : Expr) (he : e ∈ items) :
      ∃ k ks, e.kinds = k :: ks ∧ k.isSymbol .closeSquare = false := by
    obtain ⟨k, ks, hkinds, hk⟩ := hstart e he
    exact ⟨k, ks, hkinds, isSymbol_of_start hk rfl⟩
  refine .congr (.andThen (readsIf_parseItems rfl rfl (fun e he => (hitems e he).part levels) hopen
    hbody (by simp)) ?_) (by simp [Expr.depth, depthOfItems_le])
  exact Outcome.run_bind_of_ok (expect_of_kind line' (by simp))

theorem readsOperand_dict {entries : List (Expr × Expr)}
    (hkeys : ∀ entry ∈ entries, ReadsBack field entry.1)
    (hvalues : ∀ entry ∈ entries, ReadsBack field entry.2)
    (hstart : ∀ entry ∈ entries, StartsExpr entry.1.kinds) :
    ReadsOperand field (Expr.dict entries).kinds (Expr.dict entries).depth (.dict entries) := by
  refine readsOperand_of_atom ⟨_, _, rfl, rfl⟩ fun levels tokens t more htokens _ => ?_
  obtain ⟨line, body, line', rfl, hbody⟩ := exists_between htokens
  rw [kindsOfEntries_eq_map] at hbody
  rw [List.cons_append, List.append_assoc, List.singleton_append]
  refine .step (a := false) rfl (.guard rfl (.step (advance_cons _ (by simp)) (.step rfl ?_)))
  have hentry (entry : Expr × Expr) (h : entry ∈ entries) :=
    readsPart_entry ((hkeys entry h).part levels) ((hvalues entry h).part levels)
  have hopen (entry : Expr × Expr) (h : entry ∈ entries) :
      ∃ k ks, kindsOfEntry entry = k :: ks ∧ k.isSymbol .closeCurly = false := by
    obtain ⟨k, ks, hkinds, hk⟩ := hstart entry h
    exact ⟨k, _, by rw [kindsOfEntry, hkinds]; rfl, isSymbol_of_start hk rfl⟩
  refine .congr (.andThen (readsIf_parseItems rfl rfl hentry hopen hbody (by simp)) ?_)
    (by simp [Expr.depth, depthOfEntries_le])
  exact Outcome.run_bind_of_ok (expect_of_kind line' (by simp))

theorem readsOperand_placed (h : ReadsBack field e)
    (hwhole : objectNeed ≤ e.level → ReadsOperand field e.kinds e.depth e) :
    ReadsOperand field (placed objectNeed e.level e.kinds)
      (placedDepth objectNeed e.level e.depth) e := by
  rw [placed, placedDepth]
  split
  · exact readsOperand_brackets h
  · rename_i hlevel
    exact hwhole (Nat.not_lt.mp hlevel)

/-! ### Suffixes -/

section Suffixes

variable {kinds : List Token.Kind} {depth : Nat}

theorem readsOperand_call {args : List Expr} {named : List (String × Expr)}
    (h : ReadsOperand field kinds depth e) (hargs : ∀ arg ∈ args, ReadsBack field arg)
    (hwritten : ∀ arg ∈ args, arg.Written) (hnamed : ∀ arg ∈ named, ReadsBack field arg.2)
    (honce : (named.map Prod.fst).Nodup) :
    ReadsOperand field
      (kinds ++ .symbol .openRound ::
        (separated (kindsOfItems args ++ kindsOfNamed named) ++ [.symbol .closeRound]))
      (max depth (max (depthOfItems args) (depthOfNamed named) + 1)) (.call e args named) := by
  intro levels tokens t more left Q b htokens ht hnext
  obtain ⟨object, suffix, rfl, hobject, hsuffix⟩ := List.map_eq_append_iff.mp htokens
  obtain ⟨line, body, line', rfl, hbody⟩ := exists_between hsuffix
  rw [List.append_assoc, List.cons_append, List.append_assoc, List.singleton_append]
  have hread (fuel : List Token)
      (hfuel : (body ++ ⟨line', .symbol .closeRound⟩ :: t :: more).length < fuel.length) :
      ReadsIf (((∀ arg ∈ args, arg.depth ≤ levels) ∧ ∀ arg ∈ named, arg.2.depth ≤ levels) ∧ Q)
        (parseSuffixes (parseExpr field levels 0) e fuel)
        (⟨line, .symbol .openRound⟩ :: (body ++ ⟨line', .symbol .closeRound⟩ :: t :: more)) b
        left := by
    obtain ⟨u, fuel, rfl⟩ := List.exists_cons_of_length_pos (Nat.zero_lt_of_lt hfuel)
    have hopen (arg : Expr) (harg : arg ∈ args) :
        ∃ k ks, arg.kinds = k :: ks ∧ k.isSymbol .closeRound = false := by
      obtain ⟨k, ks, hkinds, hk⟩ := (hwritten arg harg).startsExpr
      exact ⟨k, ks, hkinds, isSymbol_of_start hk rfl⟩
    rw [parseSuffixes]
    refine .step (a := .symbol .openRound) rfl ?_
    refine .step (advance_cons _ (by simp)) (.step rfl ?_)
    refine .bind (readsIf_parseArguments (fun arg harg => (hargs arg harg).part levels)
      (fun arg harg => (hwritten arg harg).plain) hopen
      (fun arg harg => (hnamed arg harg).part levels) honce hbody (by simp)) ?_
    refine .step (expect_of_kind line' (by simp)) ?_
    refine hnext fuel ?_
    simp only [List.length_append, List.length_cons] at hfuel
    omega
  refine (h hobject (by simp) hread).congr ?_
  rw [← depthOfItems_le, ← depthOfNamed_le, ← and_assoc]
  exact and_congr_left fun _ => by omega

theorem readsOperand_attribute (h : ReadsOperand field kinds depth e) (s : String) :
    ReadsOperand field (kinds ++ [.symbol .dot, .name s]) depth (.attribute e s) := by
  intro levels tokens t more left Q b htokens ht hnext
  obtain ⟨object, suffix, rfl, hobject, hsuffix⟩ := List.map_eq_append_iff.mp htokens
  obtain ⟨⟨line, _⟩, naming, rfl, rfl, hnaming⟩ := List.map_eq_cons_iff.mp hsuffix
  obtain ⟨⟨line', _⟩, none, rfl, rfl, hnone⟩ := List.map_eq_cons_iff.mp hnaming
  obtain rfl := List.map_eq_nil_iff.mp hnone
  rw [List.append_assoc, List.cons_append, List.singleton_append]
  refine h hobject (by simp) fun fuel hfuel => ?_
  obtain ⟨u, fuel, rfl⟩ := List.exists_cons_of_length_pos (Nat.zero_lt_of_lt hfuel)
  rw [parseSuffixes]
  refine .step (a := .symbol .dot) rfl (.step (advance_cons _ (by simp)) ?_)
  refine .step (advance_cons _ (by simp)) (hnext fuel ?_)
  simp only [List.length_cons] at hfuel
  omega

theorem readsOperand_item {index : Expr} (h : ReadsOperand field kinds depth e)
    (hindex : ReadsBack field index) :
    ReadsOperand field
      (kinds ++ .symbol .openSquare :: (index.kinds ++ [.symbol .closeSquare]))
      (max depth (index.depth + 1)) (.item e index) := by
  intro levels tokens t more left Q b htokens ht hnext
  obtain ⟨object, suffix, rfl, hobject, hsuffix⟩ := List.map_eq_append_iff.mp htokens
  obtain ⟨line, body, line', rfl, hbody⟩ := exists_between hsuffix
  rw [List.append_assoc, List.cons_append, List.append_assoc, List.singleton_append]
  have hread (fuel : List Token)
      (hfuel : (body ++ ⟨line', .symbol .closeSquare⟩ :: t :: more).length < fuel.length) :
      ReadsIf (index.depth ≤ levels ∧ Q) (parseSuffixes (parseExpr field levels 0) e fuel)
        (⟨line, .symbol .openSquare⟩ :: (body ++ ⟨line', .symbol .closeSquare⟩ :: t :: more)) b
        left := by
    obtain ⟨u, fuel, rfl⟩ := List.exists_cons_of_length_pos (Nat.zero_lt_of_lt hfuel)
    rw [parseSuffixes]
    refine .step (a := .symbol .openSquare) rfl (.step (advance_cons _ (by simp)) ?_)
    refine (hindex.part levels body _ _ hbody rfl).bind (.step (expect_of_kind line' (by simp)) ?_)
    refine hnext fuel ?_
    simp only [List.length_append, List.length_cons] at hfuel
    omega
  refine (h hobject (by simp) hread).congr ?_
  rw [← and_assoc]
  exact and_congr_left fun _ => by omega

end Suffixes

end LiveDoc.Fragment
