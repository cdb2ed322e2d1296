import LiveDoc.Fragment.ParseProgram
import LiveDoc.Proofs.Fragment.ExpressionLines
import LiveDoc.Proofs.Fragment.TokenLines

/-!
The lines of statements. Every statement of a program, however deep it stands in the blocks of
others, is read from one of the program's tokens on and has the line of that token, which is never
a layout token. What cannot be read as a program fails on the line of one of its tokens. What is
known of all expressions that are read is known of those of each statement.
-/
namespace LiveDoc.Fragment

open TokenParser

def Action.blocks : Action → List (List Stmt)
  | .choose branches otherwise => branches.map (·.2) ++ [otherwise]
  | .forEach _ _ body => [body]
  | .whileTrue _ body => [body]
  | _ => []

def Stmt.blocks (s : Stmt) : List (List Stmt) := s.action.blocks

def Target.exprs : Target → List Expr
  | .name _ => []
  | .item _ index => [index]

/-- The expressions of a statement, without those of the statements in its blocks. -/
def Action.exprs : Action → List Expr
  | .evaluate e => [e]
  | .assign target value => target.exprs ++ [value]
  | .update target _ value => target.exprs ++ [value]
  | .choose branches _ => branches.map (·.1)
  | .forEach _ items _ => [items]
  | .whileTrue condition _ => [condition]
  | .raise what => what.toList
  | .assert test message => test :: message.toList
  | _ => []

/-- A statement of a block or of a block inside it. -/
inductive Inside : Stmt → List Stmt → Prop where
  | here {s : Stmt} {block : List Stmt} : s ∈ block → Inside s block
  | deeper {s outer : Stmt} {block inner : List Stmt} :
      outer ∈ block → inner ∈ outer.blocks → Inside s inner → Inside s block

theorem Inside.cons {s first : Stmt} {rest : List Stmt} (h : Inside s rest) :
    Inside s (first :: rest) := by
  cases h with
  | here h => exact .here (List.mem_cons_of_mem _ h)
  | deeper h hinner hs => exact .deeper (List.mem_cons_of_mem _ h) hinner hs

/-- The statement is read from the token `t` on, and that is no layout token. -/
structure ReadAt (expr : TokenParser Expr) (t : Token) (back : List Token) (s : Stmt) : Prop where
  read : ∃ inLoop fuel left, parseStatement expr inLoop fuel (t :: back) = .ok s left
  line_eq : s.line = t.line
  written : t.kind.isLayout = false

/-- Each statement inside a block has its first token in `base`. -/
def ReadFrom (expr : TokenParser Expr) (base : List Token) (block : List Stmt) : Prop :=
  ∀ s, Inside s block → ∃ front t back, base = front ++ t :: back ∧ ReadAt expr t back s

variable {expr : TokenParser Expr} {base back left : List Token} {block : List Stmt} {s : Stmt}
  {t : Token} {inLoop : Bool} {fuel : Nat}

namespace ReadFrom

theorem nil : ReadFrom expr base [] := by
  intro s h
  cases h with
  | here h => simp at h
  | deeper h => simp at h

theorem cons (hs : ReadFrom expr base [s]) (hblock : ReadFrom expr base block) :
    ReadFrom expr base (s :: block) := by
  intro x h
  cases h with
  | here h =>
    rcases List.mem_cons.mp h with rfl | h
    · exact hs x (.here (List.mem_singleton_self x))
    · exact hblock x (.here h)
  | deeper h hinner hx =>
    rcases List.mem_cons.mp h with rfl | h
    · exact hs x (.deeper (List.mem_singleton_self _) hinner hx)
    · exact hblock x (.deeper h hinner hx)

theorem singleton (hs : ∃ front t back, base = front ++ t :: back ∧ ReadAt expr t back s)
    (hblocks : ∀ inner ∈ s.blocks, ReadFrom expr base inner) : ReadFrom expr base [s] := by
  intro x h
  cases h with
  | here h =>
    rw [List.mem_singleton.mp h]
    exact hs
  | deeper h hinner hx =>
    rw [List.mem_singleton.mp h] at hinner
    exact hblocks _ hinner x hx

end ReadFrom

/-! ### The first token of a statement -/

/-- What a statement without blocks begins with. -/
def Token.Kind.isSimpleStart : Token.Kind → Bool
  | .keyword .pass => true
  | .keyword .breakLoop => true
  | .keyword .continueLoop => true
  | .keyword .raise => true
  | .keyword .assert => true
  | kind => kind.isExprStart

/-- What a statement with blocks begins with. -/
def Token.Kind.isBlockStart : Token.Kind → Bool
  | .keyword .ifThen => true
  | .keyword .whileTrue => true
  | .keyword .forEach => true
  | _ => false

theorem isLayout_of_isSimpleStart {kind : Token.Kind} (h : kind.isSimpleStart = true) :
    kind.isLayout = false := by
  cases kind with
  | newline => exact Bool.noConfusion h
  | indent => exact Bool.noConfusion h
  | dedent => exact Bool.noConfusion h
  | eof => exact Bool.noConfusion h
  | _ => rfl

theorem isBlockStart_of_isSimpleStart {kind : Token.Kind} (h : kind.isSimpleStart = true) :
    kind.isBlockStart = false := by
  fun_cases Token.Kind.isBlockStart kind with
  | case1 => exact Bool.noConfusion h
  | case2 => exact Bool.noConfusion h
  | case3 => exact Bool.noConfusion h
  | case4 => rfl

theorem kind_of_isBlockStart {kind : Token.Kind} (h : kind.isBlockStart = true) :
    kind = .keyword .ifThen ∨ kind = .keyword .whileTrue ∨ kind = .keyword .forEach := by
  unfold Token.Kind.isBlockStart at h
  split at h
  · exact .inl rfl
  · exact .inr (.inl rfl)
  · exact .inr (.inr rfl)
  · exact Bool.noConfusion h

theorem isBlockStart_of_isLayout {kind : Token.Kind} (h : kind.isLayout = true) :
    kind.isBlockStart = false := by
  fun_cases Token.Kind.isBlockStart kind with
  | case1 => exact Bool.noConfusion h
  | case2 => exact Bool.noConfusion h
  | case3 => exact Bool.noConfusion h
  | case4 => rfl

/-- Any other token is taken as the first one of an expression. -/
theorem parseSimple_of_not_start (hexpr : ReadsExprs expr) (inLoop : Bool) (back : List Token)
    (h : t.kind.isSimpleStart = false) :
    ∃ e left, parseSimple expr inLoop (t :: back) = .error e left := by
  have hstart : t.kind.isExprStart = false := by
    unfold Token.Kind.isSimpleStart at h
    split at h
    all_goals first
      | exact Bool.noConfusion h
      | exact h
  obtain ⟨e, left, hfail⟩ : ∃ e left, expr (t :: back) = .error e left := by
    cases hrun : expr (t :: back) with
    | error e left => exact ⟨e, left, rfl⟩
    | ok value left =>
      rw [hexpr t back value left hrun] at hstart
      exact Bool.noConfusion hstart
  obtain ⟨line, kind⟩ := t
  rw [parseSimple, Outcome.run_bind_of_ok (peek_cons _ back)]
  cases kind with
  | keyword k =>
    cases k
    all_goals first
      | exact Bool.noConfusion h
      | exact ⟨e, left, Outcome.run_bind_of_error (Outcome.run_bind_of_error hfail)⟩
  | _ => exact ⟨e, left, Outcome.run_bind_of_error (Outcome.run_bind_of_error hfail)⟩

theorem isSimpleStart_of_parseSimpleLine (hexpr : ReadsExprs expr)
    (h : parseSimpleLine expr inLoop (t :: back) = .ok s left) : t.kind.isSimpleStart = true := by
  cases hstart : t.kind.isSimpleStart with
  | true => rfl
  | false =>
    obtain ⟨e, rest, hfail⟩ := parseSimple_of_not_start hexpr inLoop back hstart
    rw [parseSimpleLine, Outcome.run_bind_of_error hfail] at h
    cases h

theorem parseStatement_of_not_block (h : t.kind.isBlockStart = false) :
    parseStatement expr inLoop (fuel + 1) (t :: back) =
      parseSimpleLine expr inLoop (t :: back) := by
  obtain ⟨line, kind⟩ := t
  rw [parseStatement, Outcome.run_bind_of_ok (peek_cons _ back)]
  cases kind with
  | keyword k =>
    cases k
    all_goals first
      | exact Bool.noConfusion h
      | rfl
  | _ => rfl

theorem isLayout_of_parseStatement (hexpr : ReadsExprs expr)
    (h : parseStatement expr inLoop fuel (t :: back) = .ok s left) : t.kind.isLayout = false := by
  cases fuel with
  | zero =>
    have hfail : Ends (t :: back) (fun _ => False) (parseStatement expr inLoop 0 (t :: back)) :=
      reads_failHere _ _ List.suffix_rfl (List.cons_ne_nil t back)
    rw [h] at hfail
    exact hfail.2.2.elim
  | succ fuel =>
    cases hlayout : t.kind.isLayout with
    | false => rfl
    | true =>
      rw [parseStatement_of_not_block (isBlockStart_of_isLayout hlayout)] at h
      have hstart := isLayout_of_isSimpleStart (isSimpleStart_of_parseSimpleLine hexpr h)
      rw [hlayout] at hstart
      exact hstart

/-! ### Simple statements -/

variable {part : Expr → Prop}

/-- An expression reader that is fit for the tokens `base`, and what is known of its trees. -/
structure Fit (part : Expr → Prop) (expr : TokenParser Expr) (base : List Token) : Prop where
  reads : Reads base expr part
  starts : ReadsExprs expr
  index : ∀ {object index}, part (.item object index) → part index

theorem reads_endStatement : Reads base endStatement fun _ => True := by
  refine reads_peekKind.bind fun kind _ => ?_
  split
  · exact reads_advance.bind fun _ _ => .pure trivial
  · exact .pure trivial
  · exact .pure trivial
  · exact reads_failHere _

theorem reads_targetOf (hindex : ∀ {object index}, part (.item object index) → part index)
    {e : Expr} (he : part e) :
    Reads base (targetOf e) fun target => ∀ e ∈ target.exprs, part e := by
  fun_cases targetOf e with
  | case1 => exact .pure (by simp [Target.exprs])
  | case2 => exact .pure (List.forall_mem_singleton.mpr (hindex he))
  | case3 => exact reads_failHere _
  | case4 => exact reads_failHere _

theorem reads_parseExpressionStatement {good : Action → Prop} (hexpr : Reads base expr part)
    (hindex : ∀ {object index}, part (.item object index) → part index)
    (hevaluate : ∀ e, part e → good (.evaluate e))
    (hassign : ∀ target value, (∀ e ∈ target.exprs ++ [value], part e) →
      good (.assign target value))
    (hupdate : ∀ target op value, (∀ e ∈ target.exprs ++ [value], part e) →
      good (.update target op value)) :
    Reads base (parseExpressionStatement expr) good := by
  refine hexpr.bind fun e he => ?_
  have hstore (store : Target → Expr → Action)
      (h : ∀ target value, (∀ e ∈ target.exprs ++ [value], part e) → good (store target value)) :
      Reads base (do
        let target ← targetOf e
        let _ ← advance
        return store target (← expr)) good :=
    (reads_targetOf hindex he).bind fun target htarget => reads_advance.bind fun _ _ =>
      hexpr.bind fun value hvalue => .pure (h target value
        (List.forall_mem_append.mpr ⟨htarget, List.forall_mem_singleton.mpr hvalue⟩))
  refine reads_peekKind.bind fun kind _ => ?_
  split
  · exact hstore .assign hassign
  · exact hstore (.update · .add ·) fun target value => hupdate target .add value
  · exact hstore (.update · .sub ·) fun target value => hupdate target .sub value
  · exact hstore (.update · .mul ·) fun target value => hupdate target .mul value
  · exact .pure (hevaluate e he)

/-- A statement without blocks that begins with the token `t`. -/
structure IsSimple (part : Expr → Prop) (t : Token) (s : Stmt) : Prop where
  line_eq : s.line = t.line
  noBlocks : s.blocks = []
  exprs : ∀ e ∈ s.action.exprs, part e

theorem ends_parseSimple (hexpr : Fit part expr base) (hbase : t :: back <:+ base) :
    Ends base (IsSimple part t) (parseSimple expr inLoop (t :: back)) := by
  refine Ends.peek hbase ?_
  split
  · exact reads_advance.bind fun _ _ => .pure ⟨rfl, rfl, List.forall_mem_nil _⟩
  · exact .guard (reads_advance.bind fun _ _ => .pure ⟨rfl, rfl, List.forall_mem_nil _⟩)
  · exact .guard (reads_advance.bind fun _ _ => .pure ⟨rfl, rfl, List.forall_mem_nil _⟩)
  · refine reads_advance.bind fun _ _ => reads_atStatementEnd.bind fun ended _ => ?_
    split
    · exact .pure ⟨rfl, rfl, List.forall_mem_nil _⟩
    · exact hexpr.reads.bind fun what hwhat =>
        .pure ⟨rfl, rfl, List.forall_mem_singleton.mpr hwhat⟩
  · refine reads_advance.bind fun _ _ => hexpr.reads.bind fun test htest =>
      (reads_eat .comma).bind fun more _ => ?_
    split
    · exact hexpr.reads.bind fun message hmessage => .pure ⟨rfl, rfl,
        List.forall_mem_cons.mpr ⟨htest, List.forall_mem_singleton.mpr hmessage⟩⟩
    · exact .pure ⟨rfl, rfl, List.forall_mem_singleton.mpr htest⟩
  · have hplain : Reads base (parseExpressionStatement expr)
        fun action => action.blocks = [] ∧ ∀ e ∈ action.exprs, part e :=
      reads_parseExpressionStatement hexpr.reads hexpr.index
        (fun _ he => ⟨rfl, List.forall_mem_singleton.mpr he⟩) (fun _ _ h => ⟨rfl, h⟩)
        fun _ _ _ h => ⟨rfl, h⟩
    exact hplain.bind fun action haction => .pure ⟨rfl, haction.1, haction.2⟩

theorem ends_parseSimpleLine (hexpr : Fit part expr base) (hbase : t :: back <:+ base) :
    Ends base (IsSimple part t) (parseSimpleLine expr inLoop (t :: back)) :=
  (ends_parseSimple hexpr hbase).bind fun _ hs => reads_endStatement.bind fun _ _ => .pure hs

/-! ### Blocks -/

theorem readFrom_of_run (hexpr : ReadsExprs expr)
    (h : parseStatement expr inLoop fuel (t :: back) = .ok s left) (hbase : t :: back <:+ base)
    (hline : s.line = t.line) (hblocks : ∀ inner ∈ s.blocks, ReadFrom expr base inner) :
    ReadFrom expr base [s] := by
  obtain ⟨front, hfront⟩ := hbase
  exact .singleton ⟨front, t, back, hfront.symm,
    ⟨⟨inLoop, fuel, left, h⟩, hline, isLayout_of_parseStatement hexpr h⟩⟩ hblocks

/-- A block behind a colon may be a statement on the same line. -/
theorem reads_parseSimpleLine (hexpr : Fit part expr base) :
    Reads base (parseSimpleLine expr inLoop) fun s => ReadFrom expr base [s] := by
  intro tokens hbase hsome
  obtain ⟨t, back, rfl⟩ := List.exists_cons_of_ne_nil hsome
  refine (ends_parseSimpleLine hexpr hbase).mono fun s left hread hs => ?_
  have hstart := isSimpleStart_of_parseSimpleLine hexpr.starts hread
  have hsimple : parseStatement expr inLoop 1 (t :: back) = .ok s left := by
    rw [parseStatement_of_not_block (isBlockStart_of_isSimpleStart hstart), hread]
  refine readFrom_of_run hexpr.starts hsimple hbase hs.line_eq ?_
  rw [hs.noBlocks]
  simp

theorem reads_eatLayout (isWanted : Token.Kind → Bool) :
    Reads base (eatLayout isWanted) fun _ => True := by
  refine reads_peekKind.bind fun kind _ => ?_
  split
  · exact reads_advance.bind fun _ _ => .pure trivial
  · exact .pure trivial

theorem reads_parseLoopVariable (ht : t ∈ base) :
    Reads base (parseLoopVariable t.line) fun _ => True := by
  refine reads_advance.bind fun name _ => ?_
  split
  · exact .pure trivial
  · exact .throw ⟨t, ht, rfl⟩

theorem readFrom_choose {condition : Expr} {body otherwise : List Stmt}
    {branches : List (Expr × List Stmt)} {line : Nat} (hbody : ReadFrom expr base body)
    (hbranches : ∀ branch ∈ branches, ReadFrom expr base branch.2)
    (hotherwise : ReadFrom expr base otherwise) :
    ∀ inner ∈ (Stmt.mk line (.choose ((condition, body) :: branches) otherwise)).blocks,
      ReadFrom expr base inner := by
  intro inner h
  rcases List.mem_append.mp h with h | h
  · obtain ⟨branch, hbranch, rfl⟩ := List.mem_map.mp h
    rcases List.mem_cons.mp hbranch with rfl | hbranch
    · exact hbody
    · exact hbranches branch hbranch
  · rw [List.mem_singleton.mp h]
    exact hotherwise

/-- A statement that begins with the token `t`. -/
structure IsStatement (part : Expr → Prop) (expr : TokenParser Expr) (base : List Token) (t : Token)
    (s : Stmt) : Prop where
  line_eq : s.line = t.line
  exprs : ∀ e ∈ s.action.exprs, part e
  blocks : ∀ inner ∈ s.blocks, ReadFrom expr base inner

theorem IsSimple.isStatement (h : IsSimple part t s) : IsStatement part expr base t s where
  line_eq := h.line_eq
  exprs := h.exprs
  blocks := by
    rw [h.noBlocks]
    simp

mutual

theorem ends_parseStatement (hexpr : Fit part expr base) (inLoop : Bool) (fuel : Nat)
    {t : Token} {back : List Token} (hbase : t :: back <:+ base) :
    Ends base (IsStatement part expr base t) (parseStatement expr inLoop fuel (t :: back)) := by
  have ht : t ∈ base := hbase.subset (List.mem_cons_self ..)
  cases fuel with
  | zero => exact reads_failHere _ _ hbase (List.cons_ne_nil t back)
  | succ fuel =>
    cases hkind : t.kind.isBlockStart with
    | false =>
      rw [parseStatement_of_not_block hkind]
      exact (ends_parseSimpleLine hexpr hbase).mono fun s left _ hs => hs.isStatement
    | true =>
      rw [parseStatement]
      refine Ends.peek hbase ?_
      rcases kind_of_isBlockStart hkind with hif | hwhile | hfor
      · rw [hif]
        refine reads_advance.bind fun _ _ => hexpr.reads.bind fun condition hcondition =>
          (reads_parseSuite hexpr inLoop fuel).bind fun body hbody =>
          (reads_parseBranches hexpr inLoop fuel).bind fun branches hbranches =>
          (reads_eatKeyword _).bind fun more _ => ?_
        have hconditions : ∀ e ∈ (Action.choose ((condition, body) :: branches) []).exprs,
            part e := by
          refine List.forall_mem_cons.mpr ⟨hcondition, ?_⟩
          exact List.forall_mem_map.mpr fun branch hbranch => (hbranches branch hbranch).1
        have hblocks := fun branch hbranch => (hbranches branch hbranch).2
        split
        · exact (reads_parseSuite hexpr inLoop fuel).bind fun otherwise hotherwise =>
            .pure ⟨rfl, hconditions, readFrom_choose hbody hblocks hotherwise⟩
        · exact .pure ⟨rfl, hconditions, readFrom_choose hbody hblocks .nil⟩
      · rw [hwhile]
        exact reads_advance.bind fun _ _ => hexpr.reads.bind fun condition hcondition =>
          (reads_parseSuite hexpr true fuel).bind fun body hbody =>
          .pure ⟨rfl, List.forall_mem_singleton.mpr hcondition,
            List.forall_mem_singleton.mpr hbody⟩
      · rw [hfor]
        refine reads_advance.bind fun _ _ => (reads_parseLoopVariable ht).bind fun name _ =>
          (reads_eatKeyword _).bind fun found _ => .guard ?_
        exact hexpr.reads.bind fun items hitems => (reads_parseSuite hexpr true fuel).bind
          fun body hbody => .pure ⟨rfl, List.forall_mem_singleton.mpr hitems,
            List.forall_mem_singleton.mpr hbody⟩

theorem reads_parseStatement (hexpr : Fit part expr base) (inLoop : Bool) (fuel : Nat) :
    Reads base (parseStatement expr inLoop fuel) fun s => ReadFrom expr base [s] := by
  intro tokens hbase hsome
  obtain ⟨t, back, rfl⟩ := List.exists_cons_of_ne_nil hsome
  -- Only now that the reading is known can its first token be named.
  exact (ends_parseStatement hexpr inLoop fuel hbase).mono fun s left hread hs =>
    readFrom_of_run hexpr.starts hread hbase hs.line_eq hs.blocks

theorem reads_parseBranches (hexpr : Fit part expr base) (inLoop : Bool) (fuel : Nat) :
    Reads base (parseBranches expr inLoop fuel) fun branches =>
      ∀ branch ∈ branches, part branch.1 ∧ ReadFrom expr base branch.2 := by
  cases fuel with
  | zero => exact .pure (by simp)
  | succ fuel =>
    rw [parseBranches]
    refine (reads_eatKeyword _).bind fun more _ => ?_
    split
    · refine hexpr.reads.bind fun condition hcondition =>
        (reads_parseSuite hexpr inLoop fuel).bind fun body hbody =>
          (reads_parseBranches hexpr inLoop fuel).bind fun branches hbranches => ?_
      exact .pure (List.forall_mem_cons.mpr ⟨⟨hcondition, hbody⟩, hbranches⟩)
    · exact .pure (by simp)

theorem reads_parseSuite (hexpr : Fit part expr base) (inLoop : Bool) (fuel : Nat) :
    Reads base (parseSuite expr inLoop fuel) fun block => ReadFrom expr base block := by
  cases fuel with
  | zero => exact reads_failHere _
  | succ fuel =>
    rw [parseSuite]
    refine (reads_expect _ _).bind fun _ _ => (reads_eatLayout _).bind fun ended _ => ?_
    split
    · exact (reads_parseSimpleLine hexpr).bind fun s hs => .pure hs
    · refine (reads_eatLayout _).bind fun indented _ => ?_
      split
      · have hmissing (t : Token) (ht : t ∈ base) :
            Reads base (throw ⟨.missingBlock, t.line⟩ : TokenParser PUnit) fun _ => False :=
          .throw ⟨t, ht, rfl⟩
        exact reads_peek.bind fun t ht => (hmissing t ht).bind fun _ hnever => hnever.elim
      · exact (reads_parseBlock hexpr inLoop fuel).bind fun body hbody =>
          (reads_eatLayout _).bind fun _ _ => .pure hbody

theorem reads_parseBlock (hexpr : Fit part expr base) (inLoop : Bool) (fuel : Nat) :
    Reads base (parseBlock expr inLoop fuel) fun block => ReadFrom expr base block := by
  cases fuel with
  | zero => exact .pure .nil
  | succ fuel =>
    rw [parseBlock]
    refine reads_peekKind.bind fun kind _ => ?_
    split
    · exact .pure .nil
    · refine (reads_eatLayout _).bind fun skipped _ => ?_
      split
      · exact reads_parseBlock hexpr inLoop fuel
      · exact (reads_parseStatement hexpr inLoop fuel).bind fun s hs =>
          (reads_parseBlock hexpr inLoop fuel).bind fun block hblock => .pure (hs.cons hblock)

end

theorem reads_parseStatements (hexpr : Fit part expr base) (fuel : Nat) :
    Reads base (parseStatements expr fuel) fun program => ReadFrom expr base program := by
  induction fuel with
  | zero => exact .pure .nil
  | succ fuel ih =>
    refine reads_peek.bind fun t ht => ?_
    split
    · exact .pure .nil
    · exact reads_advance.bind fun _ _ => ih
    · exact .throw ⟨t, ht, rfl⟩
    · exact (reads_parseStatement hexpr false fuel).bind fun s hs =>
        ih.bind fun program hprogram => .pure (hs.cons hprogram)

/-! ### Programs -/

/-- The reader of expressions for a whole fragment. -/
abbrev expressionReader (code : List Char) : TokenParser Expr :=
  parseExpr (parseExpressionWithin code.length) maxDepth 0

theorem fit_expressionReader (code : List Char) (base : List Token) :
    Fit (fun _ => True) (expressionReader code) base :=
  ⟨reads_parseExpr maxDepth 0, readsExprs_parseExpr maxDepth 0, fun _ => trivial⟩

/-- The first token of the statement is written in the fragment behind `before`. -/
def BeginsBehind (code before : List Char) (s : Stmt) : Prop :=
  ∃ front t back, tokenize code = .ok (front ++ t :: back) ∧
    ReadAt (expressionReader code) t back s ∧ ReadBehind code before front t

variable {code : List Char}

theorem parseProgram_eq {tokens : List Token} (h : tokenize code = .ok tokens) :
    parseProgram code = Outcome.resultOf
      (parseStatements (expressionReader code) (2 * tokens.length + 2) tokens) := by
  generalize hread : parseStatements (expressionReader code) (2 * tokens.length + 2) tokens = result
  have hrun : (parseStatements (expressionReader code) (2 * tokens.length + 2)).run tokens =
      result := hread
  rw [parseProgram, h]
  change parseTokens (parseExpressionWithin code.length) tokens = _
  rw [parseTokens, hrun]
  cases result with
  | ok program left => rfl
  | error e left => rfl

/-- The tokens that a fragment is cut into are those its statements are read from. -/
theorem ends_parseProgram {tokens : List Token} (h : tokenize code = .ok tokens) :
    AllStand code tokens ∧ Ends tokens (ReadFrom (expressionReader code) tokens)
      (parseStatements (expressionReader code) (2 * tokens.length + 2) tokens) := by
  have hscan := onLines_of_tokenize code
  rw [h] at hscan
  obtain ⟨hstand, hsome⟩ := hscan
  exact ⟨hstand, reads_parseStatements (fit_expressionReader code tokens) _ tokens
    List.suffix_rfl hsome⟩

theorem line_of_parseProgram_error {e : SyntaxError} (h : parseProgram code = .error e) :
    1 ≤ e.line ∧ e.line ≤ newlines code + 1 := by
  cases htokens : tokenize code with
  | error e' =>
    have hscan := onLines_of_tokenize code
    rw [parseProgram, htokens] at h
    cases h
    rw [htokens] at hscan
    exact hscan
  | ok tokens =>
    obtain ⟨hstand, hends⟩ := ends_parseProgram htokens
    rw [parseProgram_eq htokens] at h
    cases hrun : parseStatements (expressionReader code) (2 * tokens.length + 2) tokens with
    | ok program left =>
      rw [hrun] at h
      cases h
    | error e' left =>
      rw [hrun] at h hends
      cases h
      obtain ⟨t, ht, hline⟩ := hends
      obtain ⟨front, back, rfl⟩ := List.append_of_mem ht
      have hstands := hstand front t back rfl
      rw [hline]
      exact ⟨hstands.one_le, hstands.le⟩

theorem line_of_parseProgram {program : Program} {s : Stmt}
    (h : parseProgram code = .ok program) (hs : Inside s program) :
    ∃ before, BeginsBehind code before s ∧ s.line = newlines before + 1 := by
  obtain ⟨tokens, htokens, -⟩ := Outcome.bind_eq_ok_iff.mp h
  obtain ⟨hstand, hends⟩ := ends_parseProgram htokens
  rw [parseProgram_eq htokens] at h
  cases hrun : parseStatements (expressionReader code) (2 * tokens.length + 2) tokens with
  | error e left =>
    rw [hrun] at h
    cases h
  | ok program' left =>
    rw [hrun] at h hends
    cases h
    obtain ⟨front, t, back, rfl, hread⟩ := hends.2.2 s hs
    obtain ⟨before, hbehind, hline⟩ := (hstand front t back rfl).behind hread.written
    exact ⟨before, ⟨front, t, back, htokens, hread, hbehind⟩, hread.line_eq.trans hline⟩

end LiveDoc.Fragment
