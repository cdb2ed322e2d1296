import LiveDoc.Execution.Runner
import LiveDoc.Proofs.Fragment.ProgramAppend

/-!
One fragment behind another. A statement hands on the control to the next one unless a `break` or
a `continue` leaves it, and in what is read as a fragment each of these stands in a loop of its own.
So a program that is put together from two runs the second one where the first one has ended. A
program on later lines runs as it does where it stands, and fails on later lines.
-/
namespace LiveDoc

open Fragment Execution

/-! ### Statements that hand on the control -/

namespace Fragment

mutual

/-- Every `break` and `continue` in the statement stands in a loop inside it. -/
def Stmt.Whole : Stmt → Prop
  | .mk _ action => action.Whole

def Action.Whole : Action → Prop
  | .choose branches otherwise => WholeBranches branches ∧ WholeBlock otherwise
  | .breakLoop => False
  | .continueLoop => False
  | _ => True

def WholeBranches : List (Expr × List Stmt) → Prop
  | [] => True
  | (_, body) :: rest => WholeBlock body ∧ WholeBranches rest

def WholeBlock : List Stmt → Prop
  | [] => True
  | s :: rest => s.Whole ∧ WholeBlock rest

end

section Reading

variable {expr : TokenParser Expr} {base : List Token} {inLoop : Bool}

theorem reads_wholeSimpleLine (hexpr : Reads base expr fun _ => True) :
    Reads base (parseSimpleLine expr inLoop) fun s => inLoop = false → s.Whole := by
  have hsimple : Reads base (parseSimple expr inLoop) fun s => inLoop = false → s.Whole := by
    refine reads_peek.bind fun t ht => ?_
    have hleave (cause : SyntaxError.Cause) (action : Action) :
        Reads base (do
          if ! inLoop then TokenParser.failHere cause
          let _ ← TokenParser.advance
          return Stmt.mk t.line action) fun s => inLoop = false → s.Whole := by
      cases inLoop with
      | false =>
        have hstop : Reads base (TokenParser.failHere cause : TokenParser Unit) fun _ => False :=
          reads_failHere cause
        exact hstop.bind fun _ hnever => hnever.elim
      | true => exact reads_advance.bind fun _ _ => .pure fun h => nomatch h
    split
    · exact reads_advance.bind fun _ _ => .pure fun _ => trivial
    · exact hleave _ .breakLoop
    · exact hleave _ .continueLoop
    · refine reads_advance.bind fun _ _ => reads_atStatementEnd.bind fun ended _ => ?_
      split
      · exact .pure fun _ => trivial
      · exact hexpr.bind fun what _ => .pure fun _ => trivial
    · refine reads_advance.bind fun _ _ => hexpr.bind fun test _ =>
        (reads_eat .comma).bind fun more _ => ?_
      split
      · exact hexpr.bind fun message _ => .pure fun _ => trivial
      · exact .pure fun _ => trivial
    · have hplain : Reads base (parseExpressionStatement expr) Action.Whole :=
        reads_parseExpressionStatement hexpr (fun _ => trivial) (fun _ _ => trivial)
          (fun _ _ _ => trivial) fun _ _ _ _ => trivial
      exact hplain.bind fun action h => .pure fun _ => h
  exact hsimple.bind fun s hs => reads_endStatement.bind fun _ _ => .pure hs

mutual

/-- Outside of loops, whole statements are read. -/
theorem reads_wholeStatement (hexpr : Reads base expr fun _ => True) (inLoop : Bool) (fuel : Nat) :
    Reads base (parseStatement expr inLoop fuel) fun s => inLoop = false → s.Whole := by
  cases fuel with
  | zero => exact reads_failHere _
  | succ fuel =>
    rw [parseStatement]
    refine reads_peek.bind fun t ht => ?_
    split
    · refine reads_advance.bind fun _ _ => hexpr.bind fun condition _ =>
        (reads_wholeSuite hexpr inLoop fuel).bind fun body hbody =>
        (reads_wholeBranches hexpr inLoop fuel).bind fun branches hbranches =>
        (reads_eatKeyword _).bind fun more _ => ?_
      split
      · exact (reads_wholeSuite hexpr inLoop fuel).bind fun otherwise hotherwise =>
          .pure fun h => ⟨⟨hbody h, hbranches h⟩, hotherwise h⟩
      · exact .pure fun h => ⟨⟨hbody h, hbranches h⟩, trivial⟩
    · exact reads_advance.bind fun _ _ => hexpr.bind fun condition _ =>
        (reads_wholeSuite hexpr true fuel).bind fun body _ => .pure fun _ => trivial
    · exact reads_advance.bind fun _ _ => (reads_parseLoopVariable ht).bind fun name _ =>
        (reads_eatKeyword _).bind fun found _ => .guard (hexpr.bind fun items _ =>
          (reads_wholeSuite hexpr true fuel).bind fun body _ => .pure fun _ => trivial)
    · exact reads_wholeSimpleLine hexpr

theorem reads_wholeBranches (hexpr : Reads base expr fun _ => True) (inLoop : Bool) (fuel : Nat) :
    Reads base (parseBranches expr inLoop fuel) fun branches =>
      inLoop = false → WholeBranches branches := by
  cases fuel with
  | zero => exact .pure fun _ => trivial
  | succ fuel =>
    rw [parseBranches]
    refine (reads_eatKeyword _).bind fun more _ => ?_
    split
    · exact hexpr.bind fun condition _ => (reads_wholeSuite hexpr inLoop fuel).bind
        fun body hbody => (reads_wholeBranches hexpr inLoop fuel).bind fun branches hbranches =>
          .pure fun h => ⟨hbody h, hbranches h⟩
    · exact .pure fun _ => trivial

theorem reads_wholeSuite (hexpr : Reads base expr fun _ => True) (inLoop : Bool) (fuel : Nat) :
    Reads base (parseSuite expr inLoop fuel) fun block => inLoop = false → WholeBlock block := by
  cases fuel with
  | zero => exact reads_failHere _
  | succ fuel =>
    rw [parseSuite]
    refine (reads_expect _ _).bind fun _ _ => (reads_eatLayout _).bind fun ended _ => ?_
    split
    · exact (reads_wholeSimpleLine hexpr).bind fun s hs => .pure fun h => ⟨hs h, trivial⟩
    · refine (reads_eatLayout _).bind fun indented _ => ?_
      split
      · have hmissing (t : Token) (ht : t ∈ base) :
            Reads base (throw ⟨.missingBlock, t.line⟩ : TokenParser PUnit) fun _ => False :=
          .throw ⟨t, ht, rfl⟩
        exact reads_peek.bind fun t ht => (hmissing t ht).bind fun _ hnever => hnever.elim
      · exact (reads_wholeBlock hexpr inLoop fuel).bind fun body hbody =>
          (reads_eatLayout _).bind fun _ _ => .pure hbody

theorem reads_wholeBlock (hexpr : Reads base expr fun _ => True) (inLoop : Bool) (fuel : Nat) :
    Reads base (parseBlock expr inLoop fuel) fun block => inLoop = false → WholeBlock block := by
  cases fuel with
  | zero => exact .pure fun _ => trivial
  | succ fuel =>
    rw [parseBlock]
    refine reads_peekKind.bind fun kind _ => ?_
    split
    · exact .pure fun _ => trivial
    · refine (reads_eatLayout _).bind fun skipped _ => ?_
      split
      · exact reads_wholeBlock hexpr inLoop fuel
      · exact (reads_wholeStatement hexpr inLoop fuel).bind fun s hs =>
          (reads_wholeBlock hexpr inLoop fuel).bind fun block hblock =>
            .pure fun h => ⟨hs h, hblock h⟩

end

theorem reads_wholeStatements (hexpr : Reads base expr fun _ => True) (fuel : Nat) :
    Reads base (parseStatements expr fuel) WholeBlock := by
  induction fuel with
  | zero => exact .pure trivial
  | succ fuel ih =>
    refine reads_peek.bind fun t ht => ?_
    split
    · exact .pure trivial
    · exact reads_advance.bind fun _ _ => ih
    · exact .throw ⟨t, ht, rfl⟩
    · exact (reads_wholeStatement hexpr false fuel).bind fun s hs =>
        ih.bind fun program hprogram => .pure ⟨hs rfl, hprogram⟩

end Reading

theorem whole_of_parseProgram {code : List Char} {program : Program}
    (h : parseProgram code = .ok program) : WholeBlock program := by
  obtain ⟨tokens, left, htokens, hrun⟩ := parseProgram_eq_ok_iff.mp h
  have hsome : tokens ≠ [] := by
    obtain ⟨body, line, rfl, -⟩ := exists_sealed htokens
    simp
  have hends : Ends tokens WholeBlock
      (parseStatements (expressionReader code) (2 * tokens.length + 2) tokens) :=
    reads_wholeStatements (reads_parseExpr maxDepth 0) _ tokens List.suffix_rfl hsome
  rw [hrun] at hends
  exact hends.2.2

end Fragment

variable {σ α β : Type}

theorem normal_of_visitAll {body : Value → Execution σ Flow} {values : List Value}
    {m m' : Machine σ} {flow : Flow} (h : visitAll body values m = .ok flow m') :
    flow = .normal := by
  induction values generalizing m with
  | nil =>
    cases h
    rfl
  | cons v rest ih =>
    obtain ⟨step, mid, -, hrest⟩ := Outcome.run_bind_eq_ok_iff.mp h
    cases step with
    | breakLoop =>
      cases hrest
      rfl
    | _ => exact ih hrest

theorem normal_of_repeatWhile {test : Execution σ Bool} {body : Execution σ Flow} {rounds : Nat}
    {m m' : Machine σ} {flow : Flow} (h : repeatWhile test body rounds m = .ok flow m') :
    flow = .normal := by
  induction rounds generalizing m with
  | zero => cases h
  | succ rounds ih =>
    obtain ⟨holds, mid, -, hround⟩ := Outcome.run_bind_eq_ok_iff.mp h
    cases holds with
    | false =>
      cases hround
      rfl
    | true =>
      obtain ⟨step, mid', -, hrest⟩ := Outcome.run_bind_eq_ok_iff.mp hround
      cases step with
      | breakLoop =>
        cases hrest
        rfl
      | _ => exact ih hrest

namespace Fragment

variable {h : Host σ} {rounds : Nat} {m m' : Machine σ} {flow : Flow}

/-- An action that ends with something of its own hands on the control. -/
theorem normal_of_bind {act : Execution σ α}
    (hrun : (act >>= fun _ => pure Flow.normal) m = .ok flow m') : flow = .normal := by
  obtain ⟨_, _, -, hdone⟩ := Outcome.run_bind_eq_ok_iff.mp hrun
  cases hdone
  rfl

mutual

theorem normal_of_stmt : ∀ (s : Stmt) {m m' : Machine σ} {flow : Flow}, s.Whole →
    s.run h rounds m = .ok flow m' → flow = .normal
  | .mk line action => normal_of_action line action

theorem normal_of_action (line : Nat) : ∀ (action : Action) {m m' : Machine σ} {flow : Flow},
    action.Whole → action.run h rounds line m = .ok flow m' → flow = .normal
  | .evaluate e => fun _ hrun => normal_of_bind hrun
  | .assign target value => fun _ hrun => normal_of_bind hrun
  | .update target op value => fun _ hrun => normal_of_bind hrun
  | .choose branches otherwise => fun hwhole hrun =>
    normal_of_branches line branches hwhole.1
      (fun _ _ _ hrest => normal_of_block otherwise hwhole.2 hrest) hrun
  | .forEach name items body => fun _ hrun => by
    rw [Action.run] at hrun
    obtain ⟨values, mid, -, hvisit⟩ := Outcome.run_bind_eq_ok_iff.mp hrun
    exact normal_of_visitAll hvisit
  | .whileTrue condition body => fun _ hrun => by
    rw [Action.run] at hrun
    exact normal_of_repeatWhile hrun
  | .breakLoop => fun hwhole _ => hwhole.elim
  | .continueLoop => fun hwhole _ => hwhole.elim
  | .pass => fun _ hrun => by
    cases hrun
    rfl
  | .raise what => fun _ hrun => normal_of_bind hrun
  | .assert test message => fun _ hrun => normal_of_bind hrun

theorem normal_of_branches (line : Nat) {otherwise : Execution σ Flow} :
    ∀ (branches : List (Expr × List Stmt)) {m m' : Machine σ} {flow : Flow},
    WholeBranches branches →
    (∀ m m' flow, otherwise m = .ok flow m' → flow = .normal) →
    runBranches h rounds line otherwise branches m = .ok flow m' → flow = .normal
  | [], _, _, _ => fun _ hotherwise hrun => hotherwise _ _ _ hrun
  | (condition, body) :: rest, _, _, _ => fun hwhole hotherwise hrun => by
    rw [runBranches] at hrun
    obtain ⟨chosen, mid, -, hrun⟩ := Outcome.run_bind_eq_ok_iff.mp hrun
    cases chosen with
    | true => exact normal_of_block body hwhole.1 hrun
    | false => exact normal_of_branches line rest hwhole.2 hotherwise hrun

theorem normal_of_block : ∀ (block : List Stmt) {m m' : Machine σ} {flow : Flow},
    WholeBlock block → runBlock h rounds block m = .ok flow m' → flow = .normal
  | [], _, _, _ => fun _ hrun => by
    cases hrun
    rfl
  | s :: rest, _, _, _ => fun hwhole hrun => by
    rw [runBlock] at hrun
    obtain ⟨step, mid, hs, hrest⟩ := Outcome.run_bind_eq_ok_iff.mp hrun
    cases normal_of_stmt s hwhole.1 hs
    exact normal_of_block rest hwhole.2 hrest

end

theorem runBlock_append (h : Host σ) (rounds : Nat) (front back : List Stmt) :
    runBlock h rounds (front ++ back) = runBlock h rounds front >>= fun flow =>
      match flow with
      | .normal => runBlock h rounds back
      | flow => pure flow := by
  induction front with
  | nil => rw [List.nil_append, runBlock, pure_bind]
  | cons s rest ih =>
    rw [List.cons_append, runBlock, runBlock, bind_assoc]
    congr 1
    funext flow
    cases flow with
    | normal => exact ih
    | _ => rfl

end Fragment

/-! ### Statements on later lines -/

/-- What stops statements that stand `n` lines further on. -/
def Interrupt.moved (n : Nat) : Interrupt → Interrupt
  | .raised f line => .raised f (line + n)
  | .host e => .host e
  | .exhausted => .exhausted

/-- The same computation, with faults `n` lines further on. -/
def Execution.moved (n : Nat) (act : Execution σ α) : Execution σ α :=
  act.adaptExcept (Interrupt.moved n)

namespace Execution

variable {n : Nat}

@[simp] theorem moved_pure (a : α) : (Pure.pure a : Execution σ α).moved n = Pure.pure a := rfl

@[simp] theorem moved_bind (act : Execution σ α) (next : α → Execution σ β) :
    (act >>= next).moved n = act.moved n >>= fun a => (next a).moved n := by
  funext m
  cases hrun : act m with
  | ok a m' =>
    have hact : act.moved n m = .ok a m' := by simp [moved, EStateM.adaptExcept, hrun]
    rw [Outcome.run_bind_of_ok hact]
    simp [moved, EStateM.adaptExcept, Outcome.run_bind_of_ok hrun]
  | error i m' =>
    have hact : act.moved n m = .error (i.moved n) m' := by
      simp [moved, EStateM.adaptExcept, hrun]
    rw [Outcome.run_bind_of_error hact]
    simp [moved, EStateM.adaptExcept, Outcome.run_bind_of_error hrun]

@[simp] theorem moved_map (f : α → β) (act : Execution σ α) :
    (f <$> act).moved n = f <$> act.moved n := by
  rw [← bind_pure_comp, ← bind_pure_comp, moved_bind]
  rfl

@[simp] theorem moved_throw (i : Interrupt) :
    (throw i : Execution σ α).moved n = throw (i.moved n) := rfl

@[simp] theorem moved_setLocal (name : String) (v : Value) :
    (setLocal name v : Execution σ Unit).moved n = setLocal name v := rfl

@[simp] theorem moved_setEnvironment (env : Environment) :
    (setEnvironment env : Execution σ Unit).moved n = setEnvironment env := rfl

@[simp] theorem moved_evaluate (line : Nat) (act : Environment → Evaluation σ α) :
    (evaluate line act).moved n = evaluate (line + n) act := by
  funext m
  simp only [moved, EStateM.adaptExcept, evaluate]
  cases act m.environment m.host with
  | ok a s => rfl
  | error stop s => cases stop <;> rfl

@[simp] theorem moved_compute (line : Nat) (act : Environment → Except Fault α) :
    (compute line act : Execution σ α).moved n = compute (line + n) act :=
  moved_evaluate line _

theorem moved_visitAll (body : Value → Execution σ Flow) (values : List Value) :
    (visitAll body values).moved n = visitAll (fun v => (body v).moved n) values := by
  induction values with
  | nil => rfl
  | cons v rest ih =>
    rw [visitAll, visitAll, moved_bind]
    congr 1
    funext flow
    cases flow with
    | breakLoop => rfl
    | _ => exact ih

theorem moved_repeatWhile (test : Execution σ Bool) (body : Execution σ Flow) (rounds : Nat) :
    (repeatWhile test body rounds).moved n = repeatWhile (test.moved n) (body.moved n) rounds := by
  induction rounds with
  | zero => rfl
  | succ rounds ih =>
    rw [repeatWhile, repeatWhile, moved_bind]
    congr 1
    funext holds
    cases holds with
    | false => rfl
    | true =>
      simp only [if_true, moved_bind]
      congr 1
      funext flow
      cases flow with
      | breakLoop => rfl
      | _ => exact ih

end Execution

namespace Fragment

variable {h : Host σ} {rounds n : Nat}

@[simp] theorem moved_runAssign (line : Nat) (target : Target) (value : Expr) :
    (runAssign h line target value).moved n = runAssign h (line + n) target value := by
  cases target with
  | name s => simp [runAssign]
  | item s index => simp [runAssign]

@[simp] theorem moved_runUpdate (line : Nat) (target : Target) (op : BinaryOp) (value : Expr) :
    (runUpdate h line target op value).moved n = runUpdate h (line + n) target op value := by
  cases target with
  | name s => simp [runUpdate]
  | item s index => simp [runUpdate]

@[simp] theorem moved_runRaise (line : Nat) (what : Option Expr) :
    (runRaise h line what).moved n = runRaise h (line + n) what := by
  simp [runRaise, Interrupt.moved]

@[simp] theorem moved_runAssert (line : Nat) (test : Expr) (message : Option Expr) :
    (runAssert h line test message).moved n = runAssert h (line + n) test message := by
  rw [runAssert, runAssert, moved_bind, moved_evaluate]
  congr 1
  funext v
  cases hv : v.isTrue with
  | true => rfl
  | false =>
    cases message with
    | none => simp [Interrupt.moved]
    | some e => simp [Interrupt.moved]

@[simp] theorem moved_holds (line : Nat) (condition : Expr) :
    (holds h line condition).moved n = holds h (line + n) condition := by
  simp [holds]

mutual

/-- A statement on a later line does the same and fails on a later line. -/
theorem run_moved : ∀ s : Stmt, (s.moved n).run h rounds = (s.run h rounds).moved n
  | .mk line action => run_movedAction line action

theorem run_movedAction (line : Nat) : ∀ action : Action,
    (action.moved n).run h rounds (line + n) = (action.run h rounds line).moved n
  | .evaluate e => by simp [Action.moved, Action.run]
  | .assign target value => by simp [Action.moved, Action.run]
  | .update target op value => by simp [Action.moved, Action.run]
  | .choose branches otherwise => by
    rw [Action.moved, Action.run, Action.run, run_movedBlock otherwise, run_movedBranches]
  | .forEach name items body => by
    rw [Action.moved, Action.run, Action.run, moved_bind, moved_evaluate, run_movedBlock body]
    simp only [moved_visitAll, moved_bind, moved_setLocal]
  | .whileTrue condition body => by
    rw [Action.moved, Action.run, Action.run, moved_repeatWhile, moved_holds, run_movedBlock body]
  | .breakLoop => rfl
  | .continueLoop => rfl
  | .pass => rfl
  | .raise what => by simp [Action.moved, Action.run]
  | .assert test message => by simp [Action.moved, Action.run]

theorem run_movedBranches (line : Nat) (otherwise : Execution σ Flow) :
    ∀ branches : List (Expr × List Stmt),
      runBranches h rounds (line + n) (otherwise.moved n) (movedBranches n branches) =
        (runBranches h rounds line otherwise branches).moved n
  | [] => rfl
  | (condition, body) :: rest => by
    rw [movedBranches, runBranches, runBranches, moved_bind, moved_holds]
    congr 1
    funext chosen
    cases chosen with
    | true => exact run_movedBlock body
    | false => exact run_movedBranches line otherwise rest

theorem run_movedBlock : ∀ block : List Stmt,
    runBlock h rounds (movedBlock n block) = (runBlock h rounds block).moved n
  | [] => rfl
  | s :: rest => by
    rw [movedBlock, runBlock, runBlock, moved_bind, run_moved s]
    congr 1
    funext flow
    cases flow with
    | normal => exact run_movedBlock rest
    | _ => rfl

end

end Fragment

/-! ### Fragments -/

/-- What stops a fragment that stands `n` lines further on. -/
def FragmentStop.moved (n : Nat) : FragmentStop → FragmentStop
  | .failure f => .failure { f with line := f.line + n }
  | .host e => .host e
  | .exhausted => .exhausted

theorem ofInterrupt_moved (n : Nat) (i : Interrupt) :
    FragmentStop.ofInterrupt (i.moved n) = (FragmentStop.ofInterrupt i).moved n := by
  cases i with
  | raised f line => rfl
  | host e => rfl
  | exhausted => rfl

variable {h : Host σ} {rounds n : Nat}

theorem runProgram_moved (program : Program) :
    runProgram h rounds (movedBlock n program) =
      (runProgram h rounds program).adaptExcept (FragmentStop.moved n) := by
  funext m
  simp only [runProgram, run_movedBlock, Execution.moved, EStateM.adaptExcept]
  cases runBlock h rounds program m with
  | ok flow m' => rfl
  | error i m' => exact congrArg (EStateM.Result.error · m') (ofInterrupt_moved n i)

/-- The second program runs where the first one ends, unless that fails. -/
theorem runProgram_append {program : Program} (hwhole : WholeBlock program) (rest : Program) :
    runProgram h rounds (program ++ rest) =
      runProgram h rounds program >>= fun _ => runProgram h rounds rest := by
  funext m
  cases hrun : runBlock h rounds program m with
  | error i m' =>
    have hfirst : runProgram h rounds program m = .error (.ofInterrupt i) m' := by
      simp [runProgram, hrun]
    rw [Outcome.run_bind_of_error hfirst, runProgram, runBlock_append,
      Outcome.run_bind_of_error hrun]
  | ok flow m' =>
    have hfirst : runProgram h rounds program m = .ok () m' := by simp [runProgram, hrun]
    obtain rfl := normal_of_block program hwhole hrun
    rw [Outcome.run_bind_of_ok hfirst, runProgram, runBlock_append, Outcome.run_bind_of_ok hrun]
    rfl

/-- Fragments one behind the other are read as their statements one behind the other, the second
ones on later lines, and to run them is to run one fragment and then, if it has not failed, the
other one. -/
theorem runFragment_append {a b : List Char} {first second : Program}
    (ha : parseProgram a = .ok first) (hb : parseProgram b = .ok second) (hends : EndsLine a) :
    parseProgram (a ++ b) = .ok (first ++ second.map (Stmt.moved (newlines a))) ∧
      ∀ (σ : Type) (h : Host σ) (rounds : Nat),
        runFragment h rounds (a ++ b) =
          runFragment h rounds a >>= fun _ =>
            (runFragment h rounds b).adaptExcept (FragmentStop.moved (newlines a)) := by
  have happend := parseProgram_append ha hb hends
  refine ⟨happend, fun σ h rounds => ?_⟩
  simp only [runFragment, happend, ha, hb]
  rw [runProgram_append (whole_of_parseProgram ha), ← movedBlock_eq_map, runProgram_moved]

/-- A fragment whose block is still open at its end. -/
def openBlock : List Char := "if True:\n  x = 1\n".toList

/-- A fragment with a line end inside brackets. -/
def brokenList : List Char := "y = [\n2]\nz = 3\n".toList

theorem brokenList_behind_openBlock :
    ∃ first second, parseProgram openBlock = .ok first ∧ parseProgram brokenList = .ok second ∧
      EndsLine openBlock ∧ first.map Stmt.line = [1] ∧ second.map Stmt.line = [1, 3] ∧
      parseProgram (openBlock ++ brokenList) = .ok (first ++ second.map (Stmt.moved 2)) ∧
      ∀ (σ : Type) (h : Host σ) (rounds : Nat),
        runFragment h rounds (openBlock ++ brokenList) =
          runFragment h rounds openBlock >>= fun _ =>
            (runFragment h rounds brokenList).adaptExcept (FragmentStop.moved 2) := by
  have hfirst : (parseProgram openBlock).toOption.map (·.map Stmt.line) = some [1] := by
    decide +kernel
  have hsecond : (parseProgram brokenList).toOption.map (·.map Stmt.line) = some [1, 3] := by
    decide +kernel
  obtain ⟨first, ha, hlines⟩ := Outcome.map_toOption_eq_some_iff.mp hfirst
  obtain ⟨second, hb, hlines'⟩ := Outcome.map_toOption_eq_some_iff.mp hsecond
  have hends : EndsLine openBlock := ⟨by decide, by decide, by decide⟩
  have hcount : newlines openBlock = 2 := by decide
  obtain ⟨hprogram, hrun⟩ := runFragment_append ha hb hends
  rw [hcount] at hprogram hrun
  exact ⟨first, second, ha, hb, hends, hlines, hlines', hprogram, hrun⟩

end LiveDoc
