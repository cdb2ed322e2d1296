import LiveDoc.Evaluation.Statement
import LiveDoc.Proofs.Fragment.StatementLines

/-!
The innermost failing statement. While a block runs, its statements are begun one after the other,
and a statement with blocks of its own enters these, maybe many times. When a block fails, one of
the statements begun has failed and none of those begun inside it has. The fault is reported on
the line of this one statement.
-/
namespace LiveDoc

open Execution

variable {σ α β : Type}

/-! ### The line of a fault -/

/-- A fault of the computation is one on the given line. -/
def FaultsOn (line : Nat) (act : Execution σ α) : Prop :=
  ∀ m f faultLine m', act m = .error (.raised f faultLine) m' → faultLine = line

namespace FaultsOn

variable {line : Nat} {act : Execution σ α} {next : α → Execution σ β}

theorem pure (a : α) : FaultsOn line (Pure.pure a : Execution σ α) := by
  intro m f faultLine m' h
  cases h

theorem bind (hact : FaultsOn line act) (hnext : ∀ a, FaultsOn line (next a)) :
    FaultsOn line (act >>= next) := by
  intro m f faultLine m' h
  cases hrun : act m with
  | error i s =>
    rw [Outcome.run_bind_of_error hrun] at h
    cases h
    exact hact m f faultLine m' hrun
  | ok a s =>
    rw [Outcome.run_bind_of_ok hrun] at h
    exact hnext a s f faultLine m' h

theorem evaluate (act : Environment → Evaluation σ α) :
    FaultsOn line (Execution.evaluate line act) := by
  intro m f faultLine m' h
  unfold Execution.evaluate at h
  split at h
  · cases h
  · cases h
    rfl
  · cases h

theorem compute (act : Environment → Except Fault α) :
    FaultsOn line (Execution.compute line act : Execution σ α) :=
  FaultsOn.evaluate _

theorem throw (f : Fault) : FaultsOn line (MonadExcept.throw (.raised f line) : Execution σ α) := by
  intro m f faultLine m' h
  cases h
  rfl

theorem setLocal (name : String) (v : Value) :
    FaultsOn line (Execution.setLocal name v : Execution σ Unit) := by
  intro m f faultLine m' h
  cases h

theorem setEnvironment (env : Environment) :
    FaultsOn line (Execution.setEnvironment env : Execution σ Unit) := by
  intro m f faultLine m' h
  cases h

end FaultsOn

namespace Fragment

variable {h : Host σ} {line : Nat}

theorem faultsOn_holds (condition : Expr) : FaultsOn line (holds h line condition) :=
  (FaultsOn.evaluate _).bind fun _ => .pure _

theorem faultsOn_runAssign (target : Target) (value : Expr) :
    FaultsOn line (runAssign h line target value) := by
  refine (FaultsOn.evaluate _).bind fun v => ?_
  cases target with
  | name s => exact .setLocal s v
  | item s index =>
    exact (FaultsOn.evaluate _).bind fun i => (FaultsOn.compute _).bind .setEnvironment

theorem faultsOn_runUpdate (target : Target) (op : BinaryOp) (value : Expr) :
    FaultsOn line (runUpdate h line target op value) := by
  cases target with
  | name s =>
    exact (FaultsOn.compute _).bind fun current => (FaultsOn.evaluate _).bind fun v =>
      (FaultsOn.compute _).bind fun result => .setLocal s result
  | item s index =>
    exact (FaultsOn.evaluate _).bind fun i => (FaultsOn.compute _).bind fun current =>
      (FaultsOn.evaluate _).bind fun v => (FaultsOn.compute _).bind fun result =>
      (FaultsOn.compute _).bind .setEnvironment

theorem faultsOn_runRaise (what : Option Expr) : FaultsOn line (runRaise h line what) :=
  (FaultsOn.evaluate _).bind fun fault => .throw fault

theorem faultsOn_runAssert (test : Expr) (message : Option Expr) :
    FaultsOn line (runAssert h line test message) := by
  refine (FaultsOn.evaluate _).bind fun v => ?_
  split
  · cases message with
    | none => exact .throw _
    | some e => exact (FaultsOn.evaluate _).bind fun _ => .throw _
  · exact .pure ()

end Fragment

/-! ### Loops and branches -/

/-- From `m` on, a loop over values comes to run its body with one of them. -/
inductive Visits (body : Value → Execution σ Flow) :
    List Value → Machine σ → Value → Machine σ → Prop where
  | here {v : Value} {rest : List Value} {m : Machine σ} : Visits body (v :: rest) m v m
  | later {v w : Value} {rest : List Value} {m m' last : Machine σ} {flow : Flow} :
      body v m = .ok flow m' → flow ≠ .breakLoop → Visits body rest m' w last →
      Visits body (v :: rest) m w last

theorem visitAll_eq_error_iff {body : Value → Execution σ Flow} {values : List Value}
    {m m' : Machine σ} {i : Interrupt} :
    visitAll body values m = .error i m' ↔
      ∃ v last, Visits body values m v last ∧ body v last = .error i m' := by
  constructor
  · intro h
    induction values generalizing m with
    | nil => cases h
    | cons v rest ih =>
      cases hrun : body v m with
      | error j s =>
        rw [visitAll, Outcome.run_bind_of_error hrun] at h
        cases h
        exact ⟨v, m, .here, hrun⟩
      | ok flow s =>
        rw [visitAll, Outcome.run_bind_of_ok hrun] at h
        cases flow with
        | breakLoop => cases h
        | _ =>
          obtain ⟨w, last, hvisits, hw⟩ := ih h
          exact ⟨w, last, .later hrun (by simp) hvisits, hw⟩
  · rintro ⟨v, last, hvisits, hv⟩
    induction hvisits with
    | here =>
      rw [visitAll]
      exact Outcome.run_bind_of_error hv
    | @later v w rest m m' last flow hrun hflow hvisits ih =>
      rw [visitAll, Outcome.run_bind_of_ok hrun]
      cases flow with
      | breakLoop => exact absurd rfl hflow
      | _ => exact ih hv

/-- From `m` on, a loop comes to make its test. -/
inductive Tests (test : Execution σ Bool) (body : Execution σ Flow) :
    (rounds : Nat) → Machine σ → Machine σ → Prop where
  | here {rounds : Nat} {m : Machine σ} : Tests test body (rounds + 1) m m
  | later {rounds : Nat} {m m₁ m₂ last : Machine σ} {flow : Flow} :
      test m = .ok true m₁ → body m₁ = .ok flow m₂ → flow ≠ .breakLoop →
      Tests test body rounds m₂ last → Tests test body (rounds + 1) m last

theorem repeatWhile_raised {test : Execution σ Bool} {body : Execution σ Flow} {rounds : Nat}
    {m m' : Machine σ} {f : Fault} {line : Nat}
    (h : repeatWhile test body rounds m = .error (.raised f line) m') :
    ∃ last, Tests test body rounds m last ∧ (test last = .error (.raised f line) m' ∨
      ∃ inner, test last = .ok true inner ∧ body inner = .error (.raised f line) m') := by
  induction rounds generalizing m with
  | zero => cases h
  | succ rounds ih =>
    cases htest : test m with
    | error i s =>
      rw [repeatWhile, Outcome.run_bind_of_error htest] at h
      cases h
      exact ⟨m, .here, .inl htest⟩
    | ok holds inner =>
      rw [repeatWhile, Outcome.run_bind_of_ok htest] at h
      cases holds with
      | false => cases h
      | true =>
        cases hbody : body inner with
        | error i s =>
          rw [if_pos rfl, Outcome.run_bind_of_error hbody] at h
          cases h
          exact ⟨m, .here, .inr ⟨inner, htest, hbody⟩⟩
        | ok flow s =>
          rw [if_pos rfl, Outcome.run_bind_of_ok hbody] at h
          cases flow with
          | breakLoop => cases h
          | _ =>
            obtain ⟨last, htests, hlast⟩ := ih h
            exact ⟨last, .later htest hbody (by simp) htests, hlast⟩

theorem repeatWhile_of_error {test : Execution σ Bool} {body : Execution σ Flow} {rounds : Nat}
    {m last inner m' : Machine σ} {i : Interrupt} (htests : Tests test body rounds m last)
    (htest : test last = .ok true inner) (hbody : body inner = .error i m') :
    repeatWhile test body rounds m = .error i m' := by
  induction htests with
  | here =>
    rw [repeatWhile, Outcome.run_bind_of_ok htest, if_pos rfl]
    exact Outcome.run_bind_of_error hbody
  | @later rounds m m₁ m₂ last flow hfirst hrun hflow htests ih =>
    rw [repeatWhile, Outcome.run_bind_of_ok hfirst, if_pos rfl, Outcome.run_bind_of_ok hrun]
    cases flow with
    | breakLoop => exact absurd rfl hflow
    | _ => exact ih htest

namespace Fragment

variable {h : Host σ} {rounds line : Nat}

/-- From `m` on, the conditions of branches pick one of the blocks. -/
inductive Picks (h : Host σ) (line : Nat) (otherwise : List Stmt) :
    List (Expr × List Stmt) → Machine σ → List Stmt → Machine σ → Prop where
  | otherwise {m : Machine σ} : Picks h line otherwise [] m otherwise m
  | here {condition : Expr} {block : List Stmt} {rest : List (Expr × List Stmt)}
      {m inner : Machine σ} : holds h line condition m = .ok true inner →
      Picks h line otherwise ((condition, block) :: rest) m block inner
  | later {condition : Expr} {skipped block : List Stmt} {rest : List (Expr × List Stmt)}
      {m next inner : Machine σ} : holds h line condition m = .ok false next →
      Picks h line otherwise rest next block inner →
      Picks h line otherwise ((condition, skipped) :: rest) m block inner

variable {otherwise block : List Stmt} {branches : List (Expr × List Stmt)}
  {m inner m' : Machine σ} {i : Interrupt}

theorem Picks.mem (hpicks : Picks h line otherwise branches m block inner) :
    block ∈ branches.map (·.2) ++ [otherwise] := by
  induction hpicks with
  | otherwise => simp
  | here => simp
  | later _ _ ih => exact List.mem_cons_of_mem _ ih

theorem runBranches_of_error (hpicks : Picks h line otherwise branches m block inner)
    (hblock : runBlock h rounds block inner = .error i m') :
    runBranches h rounds line (runBlock h rounds otherwise) branches m = .error i m' := by
  induction hpicks with
  | otherwise =>
    rw [runBranches]
    exact hblock
  | here hcondition =>
    rw [runBranches, Outcome.run_bind_of_ok hcondition]
    exact hblock
  | later hcondition _ ih =>
    rw [runBranches, Outcome.run_bind_of_ok hcondition]
    exact ih hblock

theorem runBranches_raised {f : Fault} {faultLine : Nat}
    (hrun : runBranches h rounds line (runBlock h rounds otherwise) branches m =
      .error (.raised f faultLine) m') :
    faultLine = line ∨ ∃ block inner, Picks h line otherwise branches m block inner ∧
      runBlock h rounds block inner = .error (.raised f faultLine) m' := by
  induction branches generalizing m with
  | nil =>
    rw [runBranches] at hrun
    exact .inr ⟨otherwise, m, .otherwise, hrun⟩
  | cons branch rest ih =>
    obtain ⟨condition, block⟩ := branch
    cases hcondition : holds h line condition m with
    | error i s =>
      rw [runBranches, Outcome.run_bind_of_error hcondition] at hrun
      cases hrun
      exact .inl (faultsOn_holds condition m f faultLine m' hcondition)
    | ok holds inner =>
      rw [runBranches, Outcome.run_bind_of_ok hcondition] at hrun
      cases holds with
      | true => exact .inr ⟨block, inner, .here hcondition, hrun⟩
      | false =>
        rcases ih hrun with hline | ⟨picked, last, hpicks, hpicked⟩
        · exact .inl hline
        · exact .inr ⟨picked, last, .later hcondition hpicks, hpicked⟩

/-! ### Statements inside statements -/

/-- The values that a loop goes through. -/
def valuesOf (h : Host σ) (line : Nat) (items : Expr) : Execution σ (List Value) :=
  Execution.evaluate line fun env => do Evaluation.settle (← items.eval h env).visited

/-- What a loop does with each value. -/
def visit (h : Host σ) (rounds : Nat) (name : String) (body : List Stmt) (v : Value) :
    Execution σ Flow := do
  setLocal name v
  runBlock h rounds body

/-- A statement begun on `m` enters one of its blocks on `inner`. -/
inductive Enters (h : Host σ) (rounds : Nat) :
    Stmt → Machine σ → List Stmt → Machine σ → Prop where
  | choose {line : Nat} {branches : List (Expr × List Stmt)} {otherwise block : List Stmt}
      {m inner : Machine σ} : Picks h line otherwise branches m block inner →
      Enters h rounds (.mk line (.choose branches otherwise)) m block inner
  | forEach {line : Nat} {name : String} {items : Expr} {body : List Stmt} {values : List Value}
      {v : Value} {m first last : Machine σ} : valuesOf h line items m = .ok values first →
      Visits (visit h rounds name body) values first v last →
      Enters h rounds (.mk line (.forEach name items body)) m body
        { last with environment := last.environment.set name v }
  | whileTrue {line : Nat} {condition : Expr} {body : List Stmt} {m last inner : Machine σ} :
      Tests (holds h line condition) (runBlock h rounds body) rounds m last →
      holds h line condition last = .ok true inner →
      Enters h rounds (.mk line (.whileTrue condition body)) m body inner

variable {s : Stmt}

theorem Enters.mem_blocks (henters : Enters h rounds s m block inner) : block ∈ s.blocks := by
  cases henters with
  | choose hpicks => exact hpicks.mem
  | forEach => exact List.mem_singleton_self _
  | whileTrue => exact List.mem_singleton_self _

/-- A statement fails with the block it has entered. -/
theorem run_of_enters (henters : Enters h rounds s m block inner)
    (hblock : runBlock h rounds block inner = .error i m') : s.run h rounds m = .error i m' := by
  cases henters with
  | choose hpicks =>
    rw [Stmt.run, Action.run]
    exact runBranches_of_error hpicks hblock
  | forEach hvalues hvisits =>
    rw [Stmt.run, Action.run]
    exact (Outcome.run_bind_of_ok hvalues).trans
      (visitAll_eq_error_iff.mpr ⟨_, _, hvisits, hblock⟩)
  | whileTrue htests htest =>
    rw [Stmt.run, Action.run]
    exact repeatWhile_of_error htests htest hblock

/-- A statement fails on its own line or with a block it has entered. -/
theorem line_or_enters {f : Fault} {faultLine : Nat}
    (hrun : s.run h rounds m = .error (.raised f faultLine) m') :
    faultLine = s.line ∨ ∃ block inner, Enters h rounds s m block inner ∧
      runBlock h rounds block inner = .error (.raised f faultLine) m' := by
  obtain ⟨line, action⟩ := s
  rw [Stmt.run] at hrun
  cases action with
  | evaluate e =>
    rw [Action.run] at hrun
    exact .inl (((FaultsOn.evaluate _).bind fun _ => .pure _) m f faultLine m' hrun)
  | assign target value =>
    rw [Action.run] at hrun
    exact .inl (((faultsOn_runAssign target value).bind fun _ => .pure _) m f faultLine m' hrun)
  | update target op value =>
    rw [Action.run] at hrun
    exact .inl (((faultsOn_runUpdate target op value).bind fun _ => .pure _) m f faultLine m' hrun)
  | choose branches otherwise =>
    rw [Action.run] at hrun
    rcases runBranches_raised hrun with hline | ⟨block, inner, hpicks, hblock⟩
    · exact .inl hline
    · exact .inr ⟨block, inner, .choose hpicks, hblock⟩
  | forEach name items body =>
    rw [Action.run] at hrun
    change (valuesOf h line items >>= visitAll (visit h rounds name body)) m = _ at hrun
    cases hvalues : valuesOf h line items m with
    | error i first =>
      rw [Outcome.run_bind_of_error hvalues] at hrun
      cases hrun
      exact .inl (FaultsOn.evaluate _ m f faultLine m' hvalues)
    | ok values first =>
      rw [Outcome.run_bind_of_ok hvalues] at hrun
      obtain ⟨v, last, hvisits, hbody⟩ := visitAll_eq_error_iff.mp hrun
      exact .inr ⟨body, _, .forEach hvalues hvisits, hbody⟩
  | whileTrue condition body =>
    rw [Action.run] at hrun
    obtain ⟨last, htests, htest | ⟨inner, htest, hbody⟩⟩ := repeatWhile_raised hrun
    · exact .inl (faultsOn_holds condition last f faultLine m' htest)
    · exact .inr ⟨body, inner, .whileTrue htests htest, hbody⟩
  | breakLoop => cases hrun
  | continueLoop => cases hrun
  | pass => cases hrun
  | raise what =>
    rw [Action.run] at hrun
    exact .inl (((faultsOn_runRaise what).bind fun _ => .pure _) m f faultLine m' hrun)
  | assert test message =>
    rw [Action.run] at hrun
    exact .inl (((faultsOn_runAssert test message).bind fun _ => .pure _) m f faultLine m' hrun)

/-- While a block runs from `m` on, a statement of it or inside it is begun. -/
inductive Begun (h : Host σ) (rounds : Nat) :
    List Stmt → Machine σ → Stmt → Machine σ → Prop where
  | head {s : Stmt} {rest : List Stmt} {m : Machine σ} : Begun h rounds (s :: rest) m s m
  | inside {s t : Stmt} {rest block : List Stmt} {m inner last : Machine σ} :
      Enters h rounds s m block inner → Begun h rounds block inner t last →
      Begun h rounds (s :: rest) m t last
  | tail {s t : Stmt} {rest : List Stmt} {m next last : Machine σ} :
      s.run h rounds m = .ok .normal next → Begun h rounds rest next t last →
      Begun h rounds (s :: rest) m t last

/-- The statement fails on `m`, and no statement begun inside it does. -/
structure FailsInnermost (h : Host σ) (rounds : Nat) (s : Stmt) (m : Machine σ) (i : Interrupt)
    (m' : Machine σ) : Prop where
  fails : s.run h rounds m = .error i m'
  innermost : ∀ block inner t last j m'', Enters h rounds s m block inner →
    Begun h rounds block inner t last → t.run h rounds last ≠ .error j m''

theorem runBlock_of_begun {last : Machine σ} (hbegun : Begun h rounds block m s last)
    (hs : s.run h rounds last = .error i m') : runBlock h rounds block m = .error i m' := by
  induction hbegun with
  | head =>
    rw [runBlock]
    exact Outcome.run_bind_of_error hs
  | inside henters _ ih =>
    rw [runBlock]
    exact Outcome.run_bind_of_error (run_of_enters henters (ih hs))
  | tail hrun _ ih =>
    rw [runBlock, Outcome.run_bind_of_ok hrun]
    exact ih hs

theorem sizeOf_lt_of_mem_blocks (hblock : block ∈ s.blocks) : sizeOf block < sizeOf s := by
  obtain ⟨line, action⟩ := s
  have haction : sizeOf block < sizeOf action := by
    cases action with
    | choose branches otherwise =>
      rcases List.mem_append.mp hblock with hbranch | hotherwise
      · obtain ⟨⟨condition, body⟩, hmem, rfl⟩ := List.mem_map.mp hbranch
        have hbranches := List.sizeOf_lt_of_mem hmem
        simp only [Prod.mk.sizeOf_spec, Action.choose.sizeOf_spec] at hbranches ⊢
        omega
      · rw [List.mem_singleton.mp hotherwise, Action.choose.sizeOf_spec]
        omega
    | forEach name items body =>
      rw [List.mem_singleton.mp hblock, Action.forEach.sizeOf_spec]
      omega
    | whileTrue condition body =>
      rw [List.mem_singleton.mp hblock, Action.whileTrue.sizeOf_spec]
      omega
    | _ => exact absurd hblock List.not_mem_nil
  rw [Stmt.mk.sizeOf_spec]
  omega

/-- A fault of a block is that of one statement, which has the line that is reported. -/
theorem exists_innermost {f : Fault} {faultLine : Nat} (block : List Stmt) (m : Machine σ)
    (hrun : runBlock h rounds block m = .error (.raised f faultLine) m') :
    ∃ s last, Begun h rounds block m s last ∧ Inside s block ∧ s.line = faultLine ∧
      FailsInnermost h rounds s last (.raised f faultLine) m' := by
  match block with
  | [] => cases hrun
  | s :: rest =>
    cases hs : s.run h rounds m with
    | ok flow next =>
      rw [runBlock, Outcome.run_bind_of_ok hs] at hrun
      cases flow with
      | normal =>
        obtain ⟨t, last, hbegun, hinside, hline, hfails⟩ := exists_innermost rest next hrun
        exact ⟨t, last, .tail hs hbegun, hinside.cons, hline, hfails⟩
      | _ => cases hrun
    | error i m'' =>
      rw [runBlock, Outcome.run_bind_of_error hs] at hrun
      cases hrun
      -- Either a block inside fails, which is smaller, or all statements begun inside succeed.
      by_cases hinner : ∃ block inner j m'', Enters h rounds s m block inner ∧
          runBlock h rounds block inner = .error j m''
      · obtain ⟨block, inner, j, m'', henters, hblock⟩ := hinner
        have hsmaller := sizeOf_lt_of_mem_blocks henters.mem_blocks
        have hsame := hs.symm.trans (run_of_enters henters hblock)
        cases hsame
        obtain ⟨t, last, hbegun, hinside, hline, hfails⟩ := exists_innermost block inner hblock
        exact ⟨t, last, .inside henters hbegun,
          .deeper (List.mem_cons_self ..) henters.mem_blocks hinside, hline, hfails⟩
      · refine ⟨s, m, .head, .here (List.mem_cons_self ..), ?_, hs, ?_⟩
        · rcases line_or_enters hs with hline | ⟨block, inner, henters, hblock⟩
          · exact hline.symm
          · exact absurd ⟨block, inner, _, _, henters, hblock⟩ hinner
        · intro block inner t last j m'' henters hbegun ht
          exact hinner ⟨block, inner, j, m'', henters, runBlock_of_begun hbegun ht⟩
termination_by sizeOf block
decreasing_by
  all_goals simp_wf
  all_goals omega

end Fragment

end LiveDoc
