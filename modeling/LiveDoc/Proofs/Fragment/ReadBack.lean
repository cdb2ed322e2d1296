import LiveDoc.Proofs.Fragment.OperandReading

/-!
Expressions read back from their tokens. The tokens that `kinds` gives are read as the expression
they were made of, if it is at most as deep as the levels that are left, and else the reading fails
because it is too deep. An operator goes on with the chain in front of it, and lets go of the
operand behind it in front of an operator that pulls less.
-/
namespace LiveDoc.Fragment

open TokenParser

variable {field : List Char → Nat → Except SyntaxError Expr} {Q : Prop} {levels least need : Nat}
  {tokens ops rest more left : List Token} {b e : Expr} {t : Token} {k : Token.Kind} {i : Infix}

/-! ### Operators -/

/-- An operand without prefix, and what the operators behind it make of it. -/
theorem ReadsOperand.bind {kinds : List Token.Kind} {depth : Nat}
    (h : ReadsOperand field kinds depth e) (hdepth : 0 < depth)
    (htokens : tokens.map Token.kind = kinds) (hstops : Stops objectNeed rest)
    (hnext : ReadsIf Q (parseOperators field (levels - 1) least e false) rest b left) :
    ReadsIf (depth ≤ levels ∧ Q) (parseExpr field levels least) (tokens ++ rest) b left := by
  cases levels with
  | zero =>
    rw [parseExpr]
    exact .failTooDeep fun hfits => by omega
  | succ levels =>
    obtain ⟨t, more, rfl, ht⟩ := hstops.whole
    have hstr (s : String) : t.kind ≠ .str s := by
      intro hkind
      rw [hkind] at ht
      cases ht
    have hoperand : ReadsIf (depth ≤ levels + 1) (parseOperand field (parseExpr field levels))
        (tokens ++ t :: more) e (t :: more) :=
      (h htokens hstr fun fuel _ => .of_eq (hstops.parseSuffixes_eq _ fuel) trivial).congr (by simp)
    rw [parseExpr]
    exact hoperand.bind hnext

theorem readsBack_of_operand (h : ReadsOperand field e.kinds e.depth e) (hdepth : 0 < e.depth)
    (hclosing : e.closing = objectNeed) (hchain : e.chain = 0) (hcompare : e.isCompare = false) :
    ReadsBack field e := by
  intro levels least tokens rest left Q b htokens _ hstops hnext
  rw [hclosing] at hstops
  rw [hchain, hcompare] at hnext
  exact h.bind hdepth htokens hstops hnext

/-- An operand in front of an operator. It is no open chain of comparisons if it is in brackets. -/
theorem ReadsBack.before (h : ReadsBack field e)
    (htokens : tokens.map Token.kind = placed i.leftNeed e.level e.kinds)
    (hops : ops.map Token.kind = i.kinds) (hleast : least ≤ i.leftPower)
    (hnext : ∀ chained, (chained = true → i.leftNeed ≤ e.level ∧ e.isCompare = true) →
      ReadsIf Q
        (parseOperators field (levels - 1 - placedChain i.leftNeed e.level e.chain) least e chained)
        (ops ++ rest) b left) :
    ReadsIf (placedDepth i.leftNeed e.level e.depth ≤ levels ∧ Q) (parseExpr field levels least)
      (tokens ++ (ops ++ rest)) b left := by
  rw [placed] at htokens
  rw [placedChain] at hnext
  rw [placedDepth]
  split at htokens
  · rename_i hlevel
    rw [if_pos hlevel] at hnext ⊢
    exact (readsOperand_brackets h).bind (Nat.succ_pos _) htokens
      (.of_kinds hops (power_bounds i).1 rest) (hnext false (by simp))
  · rename_i hlevel
    rw [if_neg hlevel] at hnext ⊢
    have hneed := Nat.not_lt.mp hlevel
    have hstops : Stops e.closing (ops ++ rest) := .of_kinds hops (leftPower_lt_closing hneed) rest
    exact h htokens (hleast.trans ((leftPower_le_leftNeed i).trans hneed)) hstops
      (hnext e.isCompare fun hcompare => ⟨hneed, hcompare⟩)

/-- An operand behind an operator, up to the place where the operator lets go of it. -/
theorem ReadsBack.behind (h : ReadsBack field e) (hneed : need ≤ objectNeed)
    (htokens : tokens.map Token.kind = placed need e.level e.kinds) (hstops : Stops need rest) :
    ReadsIf (placedDepth need e.level e.depth ≤ levels) (parseExpr field levels need)
      (tokens ++ rest) e rest := by
  have hnext (levels : Nat) (chained : Bool) :
      ReadsIf True (parseOperators field levels need e chained) rest e rest :=
    .of_eq (hstops.parseOperators_eq le_rfl chained) trivial
  rw [placed] at htokens
  rw [placedDepth]
  split at htokens
  · rename_i hlevel
    rw [if_pos hlevel]
    exact ((readsOperand_brackets h).bind (Nat.succ_pos _) htokens (hstops.mono hneed)
      (hnext _ false)).congr (by simp)
  · rename_i hlevel
    rw [if_neg hlevel]
    have hneed := Nat.not_lt.mp hlevel
    exact (h htokens hneed (hstops.mono (hneed.trans (level_le_closing e))) (hnext _ _)).congr
      (by simp)

/-- One operator of a chain takes one level, and the operand behind it lies below all of them. -/
theorem readsIf_operator {chained : Bool} {l r : Expr} (hr : ReadsBack field r)
    (hops : ops.map Token.kind = i.kinds)
    (htokens : tokens.map Token.kind = placed i.rightPower r.level r.kinds)
    (hleast : least ≤ i.leftPower) (hstops : Stops i.rightPower rest)
    (hnext : ReadsIf Q (parseOperators field (levels - 1) least (i.apply chained l r) i.isCompare)
      rest b left) :
    ReadsIf (placedDepth i.rightPower r.level r.depth + 1 ≤ levels ∧ Q)
      (parseOperators field levels least l chained) (ops ++ (tokens ++ rest)) b left := by
  obtain ⟨t, more, hrest, -⟩ := hstops.whole
  have htake : takeInfix least (ops ++ (tokens ++ rest)) = .ok (some i) (tokens ++ rest) :=
    takeInfix_of_kinds hops hleast (by simp [hrest])
  cases levels with
  | zero =>
    rw [parseOperators]
    exact .step htake (.failTooDeep fun hfits => by omega)
  | succ levels =>
    rw [parseOperators]
    refine .step htake ?_
    have hoperand : ReadsIf (placedDepth i.rightPower r.level r.depth ≤ levels)
        (parseExpr field levels i.rightPower) (tokens ++ rest) r rest :=
      hr.behind (power_bounds i).2 htokens hstops
    exact (hoperand.bind hnext).congr (by simp)

/-- Two operands with an operator that groups by the rules of its level. -/
theorem readsBack_infix {l r : Expr} (hl : ReadsBack field l) (hr : ReadsBack field r)
    (hkinds : e.kinds = placed i.leftNeed l.level l.kinds ++
      (i.kinds ++ placed i.rightPower r.level r.kinds))
    (hlevel : e.level = i.leftPower) (hclosing : e.closing = i.rightPower)
    (hchain : e.chain = placedChain i.leftNeed l.level l.chain + 1)
    (hdepth : e.depth = max (placedDepth i.leftNeed l.level l.depth)
      (e.chain + (placedDepth i.rightPower r.level r.depth + 1)))
    (happly : ∀ chained, i.apply chained l r = e) (hcompare : e.isCompare = i.isCompare) :
    ReadsBack field e := by
  intro levels least tokens rest left Q b htokens hleast hstops hnext
  rw [hkinds] at htokens
  obtain ⟨first, others, rfl, hfirst, hothers⟩ := List.map_eq_append_iff.mp htokens
  obtain ⟨ops, second, rfl, hops, hsecond⟩ := List.map_eq_append_iff.mp hothers
  rw [hlevel] at hleast
  rw [hclosing] at hstops
  rw [List.append_assoc, List.append_assoc]
  refine (hl.before hfirst hops hleast fun chained _ => readsIf_operator hr hops hsecond hleast
    hstops (Q := Q) ?_).congr ?_
  · rw [happly, ← hcompare]
    rwa [hchain, ← Nat.sub_sub] at hnext
  · rw [← and_assoc, hdepth]
    exact and_congr_left fun _ => by omega

theorem readsBack_binary (op : BinaryOp) {l r : Expr} (hl : ReadsBack field l)
    (hr : ReadsBack field r) : ReadsBack field (.binary op l r) := by
  have hright := rightPower_binary op
  refine readsBack_infix (i := .binary op) hl hr ?_ (leftPower_binary op).symm hright.symm rfl ?_
    (fun _ => rfl) rfl
  · rw [hright]
    rfl
  · rw [hright]
    rfl

theorem readsBack_logic (op : LogicOp) {l r : Expr} (hl : ReadsBack field l)
    (hr : ReadsBack field r) : ReadsBack field (.logic op l r) := by
  have hright := rightPower_logic op
  refine readsBack_infix (i := .logic op) hl hr ?_ (leftPower_logic op).symm hright.symm rfl ?_
    (fun _ => rfl) rfl
  · rw [hright]
    rfl
  · rw [hright]
    rfl

theorem readsBack_unary (op : UnaryOp) (h : ReadsBack field e) :
    ReadsBack field (.unary op e) := by
  intro levels least tokens rest left Q b htokens _ hstops hnext
  obtain ⟨⟨line, _⟩, operand, rfl, rfl, hoperand⟩ := List.map_eq_cons_iff.mp htokens
  cases levels with
  | zero =>
    rw [parseExpr]
    exact .failTooDeep fun hfits => absurd hfits.1 (Nat.not_succ_le_zero _)
  | succ levels =>
    have hprefixed : prefixed? op.kind = some (op, op.level) := by cases op <;> rfl
    obtain ⟨t, more, hrest, -⟩ := hstops.whole
    have hread : ReadsIf (placedDepth op.level e.level e.depth ≤ levels)
        (parseExpr field levels op.level) (operand ++ rest) e rest :=
      h.behind op.level_lt.le hoperand hstops
    rw [parseExpr, parseOperand, List.cons_append]
    refine ReadsIf.congr (ReadsIf.bind (.step (a := op.kind) rfl ?_) hnext)
      (and_congr_left fun _ => Nat.succ_le_succ_iff.symm)
    rw [hprefixed]
    exact .step (advance_cons _ (by simp [hrest])) (hread.andThen rfl)

/-- The operators of a chain are put behind those that the comparison has already. -/
theorem readsIf_chain {chained : Bool} {l first : Expr} {done others : List (CompareOp × Expr)}
    (hothers : ∀ other ∈ others, ReadsBack field other.2)
    (htokens : tokens.map Token.kind = kindsOfChain others) (hleast : least ≤ 8)
    (hstops : Stops comparedNeed rest) (hsome : others ≠ [])
    (happly : ∀ op r, (Infix.compare op).apply chained l r = .compare first (done ++ [(op, r)]))
    (hnext : ReadsIf Q
      (parseOperators field (levels - others.length) least (.compare first (done ++ others)) true)
      rest b left) :
    ReadsIf (depthOfChain others ≤ levels ∧ Q) (parseOperators field levels least l chained)
      (tokens ++ rest) b left := by
  induction others generalizing tokens levels chained l done with
  | nil => exact absurd rfl hsome
  | cons other others ih =>
    obtain ⟨op, r⟩ := other
    obtain ⟨ops, behind, rfl, hops, hbehind⟩ := List.map_eq_append_iff.mp htokens
    obtain ⟨operand, more, rfl, hoperand, hmore⟩ := List.map_eq_append_iff.mp hbehind
    have hr : ReadsBack field r := hothers (op, r) (List.mem_cons_self ..)
    rw [List.append_assoc, List.append_assoc]
    have hrest : Stops comparedNeed (more ++ rest) := by
      cases others with
      | nil =>
        obtain rfl := List.map_eq_nil_iff.mp hmore
        exact hstops
      | cons next others =>
        obtain ⟨nextOps, tail, rfl, hnextOps, -⟩ := List.map_eq_append_iff.mp hmore
        rw [List.append_assoc]
        exact .of_kinds (i := .compare next.1) hnextOps (Nat.lt_succ_self 8) _
    refine (readsIf_operator (i := .compare op) (Q := depthOfChain others ≤ levels - 1 ∧ Q) hr hops
      hoperand hleast hrest ?_).congr ?_
    · rw [happly]
      cases others with
      | nil =>
        obtain rfl := List.map_eq_nil_iff.mp hmore
        exact hnext.congr (by simp [depthOfChain])
      | cons next others =>
        have happly (op' : CompareOp) (r' : Expr) :
            (Infix.compare op').apply true (.compare first (done ++ [(op, r)])) r' =
              .compare first (done ++ [(op, r)] ++ [(op', r')]) := rfl
        refine ih (fun other hother => hothers other (List.mem_cons_of_mem _ hother)) hmore
          (List.cons_ne_nil _ _) happly ?_
        rw [List.append_assoc]
        rwa [List.length_cons, Nat.sub_add_eq, Nat.sub_right_comm] at hnext
    · rw [← and_assoc]
      have hright : (Infix.compare op).rightPower = comparedNeed := rfl
      rw [hright, depthOfChain]
      exact and_congr_left fun _ => by omega

theorem readsBack_compare {first : Expr} {others : List (CompareOp × Expr)}
    (hfirst : ReadsBack field first) (hsome : others ≠ [])
    (hothers : ∀ other ∈ others, ReadsBack field other.2) :
    ReadsBack field (.compare first others) := by
  intro levels least tokens rest left Q b htokens hleast hstops hnext
  obtain ⟨front, chain, rfl, hfront, hchain⟩ := List.map_eq_append_iff.mp htokens
  obtain ⟨⟨op, r⟩, others, rfl⟩ := List.exists_cons_of_ne_nil hsome
  obtain ⟨ops, behind, rfl, hops, hbehind⟩ := List.map_eq_append_iff.mp hchain
  rw [List.append_assoc, List.append_assoc]
  refine (hfirst.before (i := .compare op)
    (Q := depthOfChain ((op, r) :: others) ≤
      levels - 1 - placedChain comparedNeed first.level first.chain ∧ Q)
    hfront hops hleast fun chained hchained => ?_).congr ?_
  · have hopen : chained = false := by
      cases first with
      | compare =>
        exact Bool.eq_false_iff.mpr fun h => absurd (hchained h).1 (Nat.not_succ_le_self 8)
      | _ => exact Bool.eq_false_iff.mpr fun h => Bool.noConfusion (hchained h).2
    rw [← List.append_assoc, hopen]
    have happly (op : CompareOp) (r : Expr) :
        (Infix.compare op).apply false first r = .compare first ([] ++ [(op, r)]) := by
      cases first <;> rfl
    refine readsIf_chain hothers hchain hleast hstops hsome happly ?_
    rw [Nat.sub_sub]
    exact hnext
  · have hneed : (Infix.compare op).leftNeed = comparedNeed := rfl
    have hpos : 0 < depthOfChain ((op, r) :: others) := Nat.succ_pos _
    rw [← and_assoc, Expr.depth, hneed]
    exact and_congr_left fun _ => by omega

/-! ### All expressions -/

/-- How an expression is read, on its own and as an operand in front of suffixes. -/
structure Readable (field : List Char → Nat → Except SyntaxError Expr) (e : Expr) : Prop where
  readsBack : ReadsBack field e
  whole : objectNeed ≤ e.level → ReadsOperand field e.kinds e.depth e

theorem Readable.of_operand (h : ReadsOperand field e.kinds e.depth e) (hdepth : 0 < e.depth)
    (hclosing : e.closing = objectNeed) (hchain : e.chain = 0) (hcompare : e.isCompare = false) :
    Readable field e :=
  ⟨readsBack_of_operand h hdepth hclosing hchain hcompare, fun _ => h⟩

theorem Readable.of_operator (h : ReadsBack field e) (hlevel : e.level < objectNeed) :
    Readable field e :=
  ⟨h, fun hneed => absurd hlevel (Nat.not_lt.mpr hneed)⟩

theorem Readable.object (h : Readable field e) :
    ReadsOperand field (placed objectNeed e.level e.kinds)
      (placedDepth objectNeed e.level e.depth) e :=
  readsOperand_placed h.readsBack h.whole

theorem readable_of_written (h : e.Written) : Readable field e := by
  induction h with
  | constant c => exact .of_operand (readsOperand_constant c) Nat.one_pos rfl rfl rfl
  | name s => exact .of_operand (readsOperand_name s) Nat.one_pos rfl rfl rfl
  | list hitems ih =>
    exact .of_operand (readsOperand_list (fun e he => (ih e he).readsBack)
      fun e he => (hitems e he).startsExpr) (Expr.Written.list hitems).depth_pos rfl rfl rfl
  | dict hkeys hvalues ihkeys ihvalues =>
    exact .of_operand (readsOperand_dict (fun p hp => (ihkeys p hp).readsBack)
      (fun p hp => (ihvalues p hp).readsBack) fun p hp => (hkeys p hp).startsExpr)
      (Expr.Written.dict hkeys hvalues).depth_pos rfl rfl rfl
  | unary op h ih =>
    exact .of_operator (readsBack_unary op ih.readsBack) (UnaryOp.level_lt op)
  | binary op hleft hright ihleft ihright =>
    exact .of_operator (readsBack_binary op ihleft.readsBack ihright.readsBack)
      (BinaryOp.level_lt op)
  | logic op hleft hright ihleft ihright =>
    exact .of_operator (readsBack_logic op ihleft.readsBack ihright.readsBack) (LogicOp.level_lt op)
  | compare hfirst hsome hothers ihfirst ihothers =>
    exact .of_operator (readsBack_compare ihfirst.readsBack hsome
      fun p hp => (ihothers p hp).readsBack) (show 8 < 18 by decide)
  | call hcallee hargs hnamed honce ihcallee ihargs ihnamed =>
    exact .of_operand (readsOperand_call ihcallee.object (fun e he => (ihargs e he).readsBack)
      hargs (fun p hp => (ihnamed p hp).readsBack) honce)
      (Expr.Written.call hcallee hargs hnamed honce).depth_pos rfl rfl rfl
  | «attribute» s h ih =>
    exact .of_operand (readsOperand_attribute ih.object s)
      (Expr.Written.attribute s h).depth_pos rfl rfl rfl
  | item hobject hindex ihobject ihindex =>
    exact .of_operand (readsOperand_item ihobject.object ihindex.readsBack)
      (Expr.Written.item hobject hindex).depth_pos rfl rfl rfl

/-- A whole expression with nothing behind it. -/
theorem readsIf_parseExpr (h : e.Written) (htokens : tokens.map Token.kind = e.kinds)
    (ht : t.kind = .eof) (levels : Nat) :
    ReadsIf (e.depth ≤ levels) (parseExpr field levels 0) (tokens ++ [t]) e [t] :=
  (readable_of_written h).readsBack.part levels tokens t [] htokens (by rw [ht]; rfl)

/-- The tokens of an expression, with the end of the fragment behind them, are read as this very
expression up to the end. The only expressions that are not read back are those that are too
deep. -/
theorem parseExpr_of_kinds (field : List Char → Nat → Except SyntaxError Expr) {e : Expr}
    (he : e.Written) {tokens : List Token} (htokens : tokens.map Token.kind = e.kinds)
    {last : Token} (hlast : last.kind = .eof) :
    (e.depth ≤ maxDepth → parseExpr field maxDepth 0 (tokens ++ [last]) = .ok e [last]) ∧
      (maxDepth < e.depth → ∃ line left,
        parseExpr field maxDepth 0 (tokens ++ [last]) = .error ⟨.tooDeep, line⟩ left) := by
  have hread : ReadsIf (e.depth ≤ maxDepth) (parseExpr field maxDepth 0) (tokens ++ [last]) e
      [last] := readsIf_parseExpr he htokens hlast maxDepth
  exact ⟨hread.reads, fun hdeep => hread.tooDeep (Nat.not_le.mpr hdeep)⟩

/-- `not (a < b) < c not in d or (-2) ** x ** "s".f([y], k={y: None})[i]`. -/
def mixedExpr : Expr :=
  .logic .or
    (.unary .not (.compare (.compare (.name "a") [(.less, .name "b")])
      [(.less, .name "c"), (.notIn, .name "d")]))
    (.binary .pow (.unary .neg (.constant (.int 2)))
      (.binary .pow (.name "x")
        (.item
          (.call (.attribute (.constant (.str "s")) "f") [.list [.name "y"]]
            [("k", .dict [(.name "y", .constant .nothing)])])
          (.name "i"))))

/-- A list in a list, `n` times. -/
def nestedLists : (n : Nat) → Expr
  | 0 => .list []
  | n + 1 => .list [nestedLists n]

theorem written_nestedLists (n : Nat) : (nestedLists n).Written := by
  induction n with
  | zero => exact .list (by simp)
  | succ n ih => exact .list (by simpa using ih)

theorem depth_nestedLists (n : Nat) : (nestedLists n).depth = n + 1 := by
  induction n with
  | zero => rfl
  | succ n ih => simp [nestedLists, Expr.depth, depthOfItems, ih]

theorem parseExpr_of_kinds_mixed :
    (mixedExpr.Written ∧ mixedExpr.depth ≤ maxDepth ∧
      parseExpr (fun _ line => .error ⟨.tooDeep, line⟩) maxDepth 0
        ((mixedExpr.kinds.map (⟨1, ·⟩)) ++ [⟨1, .eof⟩]) = .ok mixedExpr [⟨1, .eof⟩]) ∧
    ((nestedLists 200).Written ∧ maxDepth < (nestedLists 200).depth ∧
      ∃ line left, parseExpr (fun _ line => .error ⟨.tooDeep, line⟩) maxDepth 0
        (((nestedLists 200).kinds.map (⟨1, ·⟩)) ++ [⟨1, .eof⟩]) =
          .error ⟨.tooDeep, line⟩ left) := by
  have hmixed : mixedExpr.Written := by
    refine .logic _ (.unary _ (.compare (.compare (.name _) (by simp) ?_) (by simp) ?_))
      (.binary _ (.unary _ (.constant _)) (.binary _ (.name _) (.item (.call (.attribute _
        (.constant _)) ?_ ?_ (by simp)) (.name _))))
    · simpa using .name "b"
    · simpa using ⟨.name "c", .name "d"⟩
    · simpa using .list (by simpa using .name "y")
    · simpa using .dict (by simpa using .name "y") (by simpa using .constant .nothing)
  have hdeep : maxDepth < (nestedLists 200).depth := by
    rw [depth_nestedLists]
    decide
  have hkinds (e : Expr) : (e.kinds.map (Token.mk 1)).map Token.kind = e.kinds := by
    rw [List.map_map]
    exact List.map_id e.kinds
  refine ⟨⟨hmixed, by decide, ?_⟩, written_nestedLists 200, hdeep, ?_⟩
  · exact (parseExpr_of_kinds _ hmixed (hkinds _) rfl).1 (by decide)
  · exact (parseExpr_of_kinds _ (written_nestedLists 200) (hkinds _) rfl).2 hdeep

/-- A comparison in brackets is an operand of its own, and one without them is part of the chain. -/
example : (Expr.compare (.compare (.name "a") [(.less, .name "b")]) [(.less, .name "c")]).kinds =
    [.symbol .openRound, .name "a", .symbol .less, .name "b", .symbol .closeRound, .symbol .less,
      .name "c"] := rfl

end LiveDoc.Fragment
