import LiveDoc.Evaluation.Expression
import LiveDoc.Proofs.Fragment.LiteralTokens
import LiveDoc.Proofs.Fragment.ReadBack

/-!
Written values read back. What is written for a value that is built of constants, lists and dicts
is an expression, `Value.expr`, that has the value in every environment. The expression is read
if the value is nested no deeper than an expression may be; a sign takes a level of its own.
-/
namespace LiveDoc

open Fragment

/-- Values with a literal form. Of the integers of 64 bits the least one has none, since its digits
alone are too large, and a dict has each key once. -/
inductive Value.Literal : Value → Prop where
  | nothing : Literal .nothing
  | bool (b : Bool) : Literal (.bool b)
  | int {n : Int} (hleast : Integer64.least < n) (hlargest : n ≤ Integer64.largest) :
    Literal (.int n)
  | str (s : String) : Literal (.str s)
  | list {items : List Value} (hitems : ∀ v ∈ items, Literal v) : Literal (.list items)
  | dict {entries : List (String × Value)} (hvalues : ∀ entry ∈ entries, Literal entry.2)
    (hkeys : (entries.map Prod.fst).Nodup) : Literal (.dict entries)

mutual

/-- How deep a value is nested. A key is as deep as any string. -/
def Value.nesting : Value → Nat
  | .int n => if n < 0 then 2 else 1
  | .list items => 1 + nestingOfItems items
  | .dict entries => 1 + nestingOfEntries entries
  | _ => 1

def nestingOfItems : List Value → Nat
  | [] => 0
  | v :: rest => max v.nesting (nestingOfItems rest)

def nestingOfEntries : List (String × Value) → Nat
  | [] => 0
  | (_, v) :: rest => max (max 1 v.nesting) (nestingOfEntries rest)

end

mutual

/-- The expression that is written for a value. -/
def Value.expr : Value → Expr
  | .bool b => .constant (.bool b)
  | .int n =>
    if n < 0 then .unary .neg (.constant (.int n.natAbs)) else .constant (.int n.natAbs)
  | .str s => .constant (.str s)
  | .list items => .list (exprOfItems items)
  | .dict entries => .dict (exprOfEntries entries)
  | _ => .constant .nothing

def exprOfItems : List Value → List Expr
  | [] => []
  | v :: rest => v.expr :: exprOfItems rest

def exprOfEntries : List (String × Value) → List (Expr × Expr)
  | [] => []
  | (key, v) :: rest => (.constant (.str key), v.expr) :: exprOfEntries rest

end

/-! ### The expression of a value -/

theorem exprOfItems_eq_map (items : List Value) : exprOfItems items = items.map Value.expr := by
  induction items with
  | nil => rfl
  | cons v rest ih => rw [exprOfItems, ih, List.map_cons]

def exprOfEntry (entry : String × Value) : Expr × Expr :=
  (.constant (.str entry.1), entry.2.expr)

theorem exprOfEntries_eq_map (entries : List (String × Value)) :
    exprOfEntries entries = entries.map exprOfEntry := by
  induction entries with
  | nil => rfl
  | cons entry rest ih => rw [exprOfEntries, ih, List.map_cons, exprOfEntry]

theorem depthOfItems_expr {items : List Value} (h : ∀ v ∈ items, v.expr.depth = v.nesting) :
    depthOfItems (exprOfItems items) = nestingOfItems items := by
  induction items with
  | nil => rfl
  | cons v rest ih =>
    obtain ⟨hv, hrest⟩ := List.forall_mem_cons.mp h
    rw [exprOfItems, depthOfItems, nestingOfItems, hv, ih hrest]

theorem depthOfEntries_expr {entries : List (String × Value)}
    (h : ∀ entry ∈ entries, entry.2.expr.depth = entry.2.nesting) :
    depthOfEntries (exprOfEntries entries) = nestingOfEntries entries := by
  induction entries with
  | nil => rfl
  | cons entry rest ih =>
    obtain ⟨hentry, hrest⟩ := List.forall_mem_cons.mp h
    rw [exprOfEntries, depthOfEntries, nestingOfEntries, hentry, ih hrest, Expr.depth]

namespace Value.Literal

variable {v : Value}

theorem written_expr (h : v.Literal) : v.expr.Written := by
  induction h with
  | nothing => exact .constant _
  | bool b => exact .constant _
  | str s => exact .constant _
  | @int n _ _ =>
    rw [Value.expr]
    split
    · exact .unary _ (.constant _)
    · exact .constant _
  | list hitems ih =>
    rw [Value.expr, exprOfItems_eq_map]
    exact .list (List.forall_mem_map.mpr ih)
  | dict hvalues hkeys ih =>
    rw [Value.expr, exprOfEntries_eq_map]
    exact .dict (List.forall_mem_map.mpr fun _ _ => .constant _) (List.forall_mem_map.mpr ih)

/-- The reading of a literal takes as many levels as the value is nested. -/
theorem depth_expr (h : v.Literal) : v.expr.depth = v.nesting := by
  induction h with
  | nothing => rfl
  | bool b => rfl
  | str s => rfl
  | @int n _ _ =>
    rw [Value.expr, Value.nesting]
    split
    · rfl
    · rfl
  | list hitems ih =>
    rw [Value.expr, Value.nesting, Expr.depth, depthOfItems_expr ih, Nat.add_comm]
  | dict hvalues hkeys ih =>
    rw [Value.expr, Value.nesting, Expr.depth, depthOfEntries_expr ih, Nat.add_comm]

end Value.Literal

/-! ### Tokens -/

/-- Texts with a comma and a space between two and the closing bracket behind the last one. -/
def joined (close : Char) : List (List Char) → List Char
  | [] => [close]
  | [text] => text ++ [close]
  | text :: rest => text ++ ',' :: ' ' :: joined close rest

def writtenEntry (entry : String × Value) : List Char :=
  Value.quoted entry.1.toList ++ ':' :: ' ' :: entry.2.written

theorem writtenItems_eq_joined (items : List Value) :
    Value.writtenItems items = joined ']' (items.map Value.written) := by
  induction items with
  | nil => rfl
  | cons v rest ih =>
    cases rest with
    | nil => rfl
    | cons next rest =>
      rw [Value.writtenItems, ih]
      · rfl
      · simp

theorem writtenEntries_eq_joined (entries : List (String × Value)) :
    Value.writtenEntries entries = joined '\x7d' (entries.map writtenEntry) := by
  induction entries with
  | nil => rfl
  | cons entry rest ih =>
    cases rest with
    | nil => rfl
    | cons next rest =>
      rw [Value.writtenEntries, ih]
      · rfl
      · simp

variable {α : Type} {rest : List Char}

theorem endsLiteral_cons {c : Char} (hc : c ∈ [',', ':', ']', '\x7d']) (rest : List Char) :
    EndsLiteral (c :: rest) := by
  intro d hd
  obtain rfl := Option.some_inj.mp hd
  exact hc

/-- Parts that are read in front of any end of a literal are read between commas. -/
theorem scannedAs_joined {close : Char} {symbol : Symbol} {text : α → List Char}
    {kinds : α → List Token.Kind} {parts : List α} (hclose : close ∈ [']', '\x7d'])
    (hsymbol : Symbol.ofChar? close = some symbol)
    (hparts : ∀ p ∈ parts, ∀ rest, EndsLiteral rest → ScannedAs (text p) (kinds p) rest)
    (rest : List Char) :
    ScannedAs (joined close (parts.map text)) (separated (parts.map kinds) ++ [.symbol symbol])
      rest := by
  have hend : ScannedAs [close] [.symbol symbol] rest := by
    refine .symbol hsymbol fun d _ => ?_
    rcases List.mem_pair.mp hclose with rfl | rfl <;> rfl
  induction parts with
  | nil => exact hend
  | cons p more ih =>
    obtain ⟨hp, hmore⟩ := List.forall_mem_cons.mp hparts
    cases more with
    | nil =>
      have hlast : EndsLiteral (close :: rest) := by
        refine endsLiteral_cons ?_ rest
        rcases List.mem_pair.mp hclose with rfl | rfl <;> decide
      simpa [joined, separated] using (hp _ hlast).append hend
    | cons next more =>
      have hcomma : ScannedAs [','] [.symbol .comma]
          (' ' :: joined close ((next :: more).map text) ++ rest) := .symbol rfl fun d _ => rfl
      have hbehind := hcomma.append ((ScannedAs.space _).append (ih hmore))
      simpa [joined, separated_cons_cons] using
        (hp _ (endsLiteral_cons (by decide) _)).append hbehind

theorem scannedAs_entry (key : String) {v : Value}
    (hv : ScannedAs v.written v.expr.kinds rest) :
    ScannedAs (writtenEntry (key, v)) (kindsOfEntry (exprOfEntry (key, v))) rest := by
  have hcolon : ScannedAs [':'] [.symbol .colon] (' ' :: v.written ++ rest) :=
    .symbol rfl fun d _ => rfl
  have hkey : ScannedAs (Value.quoted key.toList) [.str key] (':' :: ' ' :: v.written ++ rest) :=
    scannedAs_quoted key (endsLiteral_cons (by decide) _)
  exact hkey.append (hcolon.append ((ScannedAs.space _).append hv))

theorem scannedAs_integer {n : Int} (hleast : Integer64.least < n)
    (hlargest : n ≤ Integer64.largest) (hrest : EndsLiteral rest) :
    ScannedAs (Value.integerText n) (Value.int n).expr.kinds rest := by
  have habs : (n.natAbs : Int) ≤ Integer64.largest := by
    simp only [Integer64.least, Integer64.largest] at *
    omega
  have hnumeral := scannedAs_numeral habs hrest
  rw [Value.integerText, Value.expr]
  split
  · have hminus : ScannedAs ['-'] [.symbol .minus] (Nat.toDigits 10 n.natAbs ++ rest) := by
      refine .symbol rfl fun d hd => ?_
      rw [List.head?_append_of_ne_nil _ Nat.toDigits_ne_nil] at hd
      have hdigit := Nat.isDigit_of_mem_toDigits (by decide) (by decide) (List.mem_of_mem_head? hd)
      have hne : d ≠ '=' := by
        rintro rfl
        exact absurd hdigit (by decide)
      simp [Symbol.ofPair?, hne]
    exact hminus.append hnumeral
  · exact hnumeral

/-- A literal is scanned as the tokens of its expression. -/
theorem Value.Literal.scannedAs_written {v : Value} (h : v.Literal) (hrest : EndsLiteral rest) :
    ScannedAs v.written v.expr.kinds rest := by
  induction h generalizing rest with
  | nothing => exact scannedAs_keyword (.inr (.inr rfl)) hrest
  | bool b =>
    cases b with
    | true => exact scannedAs_keyword (.inl rfl) hrest
    | false => exact scannedAs_keyword (.inr (.inl rfl)) hrest
  | int hleast hlargest => exact scannedAs_integer hleast hlargest hrest
  | str s => exact scannedAs_quoted s hrest
  | @list items hitems ih =>
    have hopen : ScannedAs ['['] [.symbol .openSquare] (Value.writtenItems items ++ rest) :=
      .symbol rfl fun d _ => rfl
    have hitems : ScannedAs (Value.writtenItems items)
        (separated (kindsOfItems (exprOfItems items)) ++ [.symbol .closeSquare]) rest := by
      rw [writtenItems_eq_joined, kindsOfItems_eq_map, exprOfItems_eq_map, List.map_map]
      exact scannedAs_joined (by decide) rfl (fun v hv rest hrest => ih v hv hrest) rest
    exact hopen.append hitems
  | @dict entries hvalues hkeys ih =>
    have hopen : ScannedAs ['\x7b'] [.symbol .openCurly] (Value.writtenEntries entries ++ rest) :=
      .symbol rfl fun d _ => rfl
    have hentries : ScannedAs (Value.writtenEntries entries)
        (separated (kindsOfEntries (exprOfEntries entries)) ++ [.symbol .closeCurly]) rest := by
      rw [writtenEntries_eq_joined, kindsOfEntries_eq_map, exprOfEntries_eq_map, List.map_map]
      exact scannedAs_joined (by decide) rfl
        (fun entry hentry rest hrest => scannedAs_entry entry.1 (ih entry hentry hrest)) rest
    exact hopen.append hentries

/-! ### Evaluation -/

theorem setEntry_of_not_mem {key : String} {v : Value} {entries : List (String × Value)}
    (h : key ∉ entries.map Prod.fst) :
    Value.setEntry key v entries = entries ++ [(key, v)] := by
  induction entries with
  | nil => rfl
  | cons entry rest ih =>
    rw [List.map_cons, List.mem_cons, not_or] at h
    rw [Value.setEntry, if_neg (Ne.symm h.1), ih h.2, List.cons_append]

section Evaluation

variable {σ : Type} {h : Host σ} {env : Environment}

theorem evalItems_expr {items : List Value} (hitems : ∀ v ∈ items, v.expr.eval h env = pure v) :
    evalItems h env (exprOfItems items) = pure items := by
  induction items with
  | nil => rfl
  | cons v rest ih =>
    obtain ⟨hv, hrest⟩ := List.forall_mem_cons.mp hitems
    rw [exprOfItems, evalItems, hv, pure_bind, ih hrest, pure_bind]

/-- A new key is put behind the entries that are there, so that the order is kept. -/
theorem evalEntries_expr {done entries : List (String × Value)}
    (hvalues : ∀ entry ∈ entries, entry.2.expr.eval h env = pure entry.2)
    (hkeys : ((done ++ entries).map Prod.fst).Nodup) :
    evalEntries h env (exprOfEntries entries) (.dict done) = pure (.dict (done ++ entries)) := by
  induction entries generalizing done with
  | nil => rw [exprOfEntries, evalEntries, List.append_nil]
  | cons entry rest ih =>
    obtain ⟨key, v⟩ := entry
    obtain ⟨hv, hrest⟩ := List.forall_mem_cons.mp hvalues
    rw [List.append_cons] at hkeys ⊢
    have hnew : key ∉ done.map Prod.fst := by
      rw [List.map_append, List.map_append] at hkeys
      have hdone := (List.nodup_append.mp hkeys).1
      intro hmem
      exact (List.nodup_append.mp hdone).2.2 key hmem key (by simp) rfl
    have hset : Value.setItem (.dict done) (.str key) v = .ok (.dict (done ++ [(key, v)])) := by
      rw [Value.setItem, setEntry_of_not_mem hnew]
    rw [exprOfEntries, evalEntries, hv, Expr.eval, pure_bind, pure_bind, Constant.value, hset,
      ← ih hrest hkeys]
    rfl

theorem unary_neg_natAbs {n : Int} (hneg : n < 0) (hleast : Integer64.least < n) :
    Value.unary .neg (.int n.natAbs) = .ok (.int n) := by
  have habs : -(n.natAbs : Int) = n := by omega
  have hlargest : n ≤ Integer64.largest := Int.le_trans (Int.le_of_lt hneg) (by decide)
  have hfits : Integer64.fits n = true := by
    simp [Integer64.fits, Int.le_of_lt hleast, hlargest]
  change Value.integer (-(n.natAbs : Int)) = _
  rw [habs, Value.integer, if_pos hfits]

theorem Value.Literal.eval_expr {v : Value} (hv : v.Literal) : v.expr.eval h env = pure v := by
  induction hv with
  | nothing => rfl
  | bool b => rfl
  | str s => rfl
  | @int n hleast hlargest =>
    rw [Value.expr]
    split
    · rename_i hneg
      rw [Expr.eval, Expr.eval, pure_bind, Constant.value, unary_neg_natAbs hneg hleast]
      rfl
    · rename_i hneg
      rw [Expr.eval, Constant.value, Int.natAbs_of_nonneg (Int.not_lt.mp hneg)]
  | list hitems ih => rw [Value.expr, Expr.eval, evalItems_expr ih, pure_bind]
  | dict hvalues hkeys ih =>
    rw [Value.expr, Expr.eval, evalEntries_expr ih (by simpa using hkeys), List.nil_append]

end Evaluation

theorem tokenizeExpression_of_scannedAs {text : List Char} {kinds : List Token.Kind}
    (h : ScannedAs text kinds []) (line : Nat) :
    tokenizeExpression text line = .ok (kinds.map (Token.mk line) ++ [⟨line, .eof⟩]) := by
  obtain ⟨last, hline, htokens, hscan⟩ := h ⟨line, 0, [], []⟩
  rw [List.append_nil, scan_nil] at hscan
  rw [tokenizeExpression, hscan]
  simp [Scanner.finish, Scanner.push, hline, htokens]

/-- The expression is read as a whole, or it is too deep. -/
theorem Value.Literal.readsIf_wholeExpression {v : Value} (hv : v.Literal)
    (field : List Char → Nat → Except SyntaxError Expr) (line : Nat) :
    ReadsIf (v.nesting ≤ maxDepth) (wholeExpression field)
      (v.expr.kinds.map (Token.mk line) ++ [⟨line, .eof⟩]) v.expr [⟨line, .eof⟩] := by
  have hkinds : (v.expr.kinds.map (Token.mk line)).map Token.kind = v.expr.kinds := by
    rw [List.map_map]
    exact List.map_id v.expr.kinds
  rw [← hv.depth_expr]
  exact (readsIf_parseExpr hv.written_expr hkinds rfl maxDepth).andThen rfl

theorem Value.Literal.tokenize_repr {v : Value} (hv : v.Literal) (line : Nat) :
    tokenizeExpression v.repr.toList line =
      .ok (v.expr.kinds.map (Token.mk line) ++ [⟨line, .eof⟩]) := by
  have hend : EndsLiteral [] := fun c hc => nomatch hc
  rw [Value.repr, String.toList_ofList]
  exact tokenizeExpression_of_scannedAs (hv.scannedAs_written hend) line

theorem parseExpression_repr_of_deep {v : Value} (hv : v.Literal) (hdeep : maxDepth < v.nesting)
    (line : Nat) : ∃ failed, parseExpression v.repr.toList line = .error ⟨.tooDeep, failed⟩ := by
  have hread := hv.readsIf_wholeExpression (fieldsWithin v.repr.toList.length) line
  obtain ⟨failed, left, herror⟩ := hread.tooDeep (Nat.not_le.mpr hdeep)
  refine ⟨failed, ?_⟩
  rw [parseExpression, parseExpressionWithin_eq, hv.tokenize_repr]
  simp only [bind, Except.bind, EStateM.run, herror]

/-- What is written for a literal is an expression that has the value in every environment, and its
evaluation leaves the state of the host as it is. -/
theorem eval_parseExpression_repr {v : Value} (hv : v.Literal) (hdepth : v.nesting ≤ maxDepth)
    (line : Nat) : ∃ e, parseExpression v.repr.toList line = .ok e ∧
      ∀ {σ : Type} (h : Host σ) (env : Environment) (s : σ), e.eval h env s = .ok v s := by
  have hread := hv.readsIf_wholeExpression (fieldsWithin v.repr.toList.length) line
  refine ⟨v.expr, ?_, fun h env s => ?_⟩
  · exact parseExpressionWithin_eq_ok_iff.mpr ⟨_, _, hv.tokenize_repr line, hread.reads hdepth⟩
  · rw [hv.eval_expr]
    rfl

/-- `{'it\'s "so"': [-42, 'a\nb', []], "'": {'': None, '\\': True}}`. -/
def mixedLiteral : Value :=
  .dict [("it's \"so\"", .list [.int (-42), .str "a\nb", .list []]),
    ("'", .dict [("", .nothing), ("\\", .bool true)])]

theorem eval_parseExpression_repr_mixed :
    mixedLiteral.Literal ∧ mixedLiteral.nesting ≤ maxDepth ∧
      ∃ e, parseExpression mixedLiteral.repr.toList 1 = .ok e ∧
        ∀ {σ : Type} (h : Host σ) (env : Environment) (s : σ),
          e.eval h env s = .ok mixedLiteral s := by
  have hlist : (Value.list [.int (-42), .str "a\nb", .list []]).Literal := by
    refine .list ?_
    simp only [List.forall_mem_cons, List.not_mem_nil, false_implies, implies_true, and_true]
    exact ⟨.int (by decide) (by decide), .str _, .list fun _ h => nomatch h⟩
  have hdict : (Value.dict [("", .nothing), ("\\", .bool true)]).Literal := by
    refine .dict ?_ (by decide)
    simp only [List.forall_mem_cons, List.not_mem_nil, false_implies, implies_true, and_true]
    exact ⟨.nothing, .bool true⟩
  have hliteral : mixedLiteral.Literal := by
    refine .dict ?_ (by decide)
    simp only [List.forall_mem_cons, List.not_mem_nil, false_implies, implies_true, and_true]
    exact ⟨hlist, hdict⟩
  have hdepth : mixedLiteral.nesting ≤ maxDepth := by decide
  exact ⟨hliteral, hdepth, eval_parseExpression_repr hliteral hdepth 1⟩

end LiveDoc
