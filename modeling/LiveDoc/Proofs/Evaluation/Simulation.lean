import LiveDoc.Execution.Runner
import LiveDoc.Proofs.Simulation

/-!
Fragments on two hosts. A fragment asks its host to take texts and remarks and for nothing else.
So when the hosts answer these requests alike, it computes the same values, binds the same names
and stops for the same reasons on both of them. If the second host breaks off with an error, then
so does the fragment, however deep inside of its statements.
-/
namespace LiveDoc

open Fragment Outcome

variable {σ τ α : Type} {R : σ → τ → Prop} {C : HostError → σ → τ → Prop} {h : Host σ}
  {k : Host τ}

/-- The hosts treat the requests of fragments alike. -/
structure ServeAlike (R : σ → τ → Prop) (h : Host σ) (k : Host τ) : Prop where
  emit : ∀ text, Alike R (h.emitText text) (k.emitText text)
  note : ∀ text s t, R s t → R (h.note text s) (k.note text t)

/-- The hosts treat the requests of fragments alike until the second one breaks off. -/
structure ServeUntil (R : σ → τ → Prop) (C : HostError → σ → τ → Prop) (h : Host σ)
    (k : Host τ) : Prop where
  emit : ∀ text, AlikeUntil R C id (h.emitText text) (k.emitText text)
  note : ∀ text s t, R s t → R (h.note text s) (k.note text t)
  noteOn : ∀ text e s t, C e s t → C e (h.note text s) t

theorem ServeAlike.until (hosts : ServeAlike R h k) : ServeUntil R Uncut h k where
  emit text := (hosts.emit text).until id
  note := hosts.note
  noteOn _ _ _ _ hcut := hcut

/-! ### Expressions -/

/-- Evaluations that go alike until the second one is cut off by an error of its host. -/
abbrev EvaluateUntil (R : σ → τ → Prop) (C : HostError → σ → τ → Prop) (act : Evaluation σ α)
    (act' : Evaluation τ α) : Prop :=
  AlikeUntil R C Stop.host act act'

theorem until_settle (r : Except Fault α) :
    EvaluateUntil R C (Evaluation.settle r) (Evaluation.settle r) := by
  cases r with
  | ok a => exact until_pure a
  | error f => exact until_throw (Stop.fault f)

theorem stateOf_ofHost (act : EStateM HostError σ α) (s : σ) :
    stateOf (Evaluation.ofHost act s) = stateOf (act s) := by
  simp only [Evaluation.ofHost]
  cases act s with
  | ok a s => rfl
  | error e s => rfl

theorem until_ofHost {act : EStateM HostError σ α} {act' : EStateM HostError τ α}
    (hact : AlikeUntil R C id act act') :
    EvaluateUntil R C (Evaluation.ofHost act) (Evaluation.ofHost act') where
  ends s t hst := by
    rcases hact.ends s t hst with hfirst | ⟨e, t', hright, hcut⟩
    · simp only [Evaluation.ofHost]
      generalize act s = left at hfirst
      generalize act' t = right at hfirst
      cases hfirst with
      | ok hst => exact .inl (.ok hst)
      | error hst => exact .inl (.error hst)
    · refine .inr ⟨e, t', by simp [Evaluation.ofHost, hright], ?_⟩
      rwa [stateOf_ofHost]
  goesOn e s t hcut := by
    rw [stateOf_ofHost]
    exact hact.goesOn e s t hcut

theorem until_perform (hosts : ServeUntil R C h k) (outcome : Builtin.Outcome) :
    EvaluateUntil R C (Builtin.perform h outcome) (Builtin.perform k outcome) := by
  cases outcome with
  | value v => exact until_pure v
  | emit text => exact until_bind (until_ofHost (hosts.emit text)) fun _ => until_pure _
  | note text =>
    exact until_bind (until_modify (hosts.note text) (hosts.noteOn text)) fun _ => until_pure _

theorem until_call (hosts : ServeUntil R C h k) (function : Value) (args : Arguments) :
    EvaluateUntil R C (function.call h args) (function.call k args) := by
  unfold Value.call
  cases function with
  | builtin f => exact until_bind (until_settle _) fun outcome => until_perform hosts outcome
  | _ => exact until_settle _

mutual

theorem until_eval (hosts : ServeUntil R C h k) (env : Environment) :
    (e : Expr) → EvaluateUntil R C (e.eval h env) (e.eval k env)
  | .constant c => until_pure _
  | .name s => until_settle _
  | .format parts => until_bind (until_parts hosts env parts "") fun _ => until_pure _
  | .list items => until_bind (until_items hosts env items) fun _ => until_pure _
  | .dict entries => until_entries hosts env entries _
  | .unary op operand => until_bind (until_eval hosts env operand) fun _ => until_settle _
  | .binary op left right =>
    until_bind (until_eval hosts env left) fun _ =>
      until_bind (until_eval hosts env right) fun _ => until_settle _
  | .logic op left right => by
    refine until_bind (until_eval hosts env left) fun a => ?_
    by_cases hdecides : op.decides a = true
    · simp only [hdecides, if_true]
      exact until_pure a
    · simp only [hdecides]
      exact until_eval hosts env right
  | .compare first others =>
    until_bind (until_eval hosts env first) fun v =>
      until_bind (until_chain hosts env v others) fun _ => until_pure _
  | .call callee args named =>
    until_bind (until_eval hosts env callee) fun function =>
      until_bind (until_items hosts env args) fun positional =>
        until_bind (until_named hosts env named) fun _ => until_call hosts function _
  | .attribute object name => until_bind (until_eval hosts env object) fun _ => until_settle _
  | .item object index =>
    until_bind (until_eval hosts env object) fun _ =>
      until_bind (until_eval hosts env index) fun _ => until_settle _

theorem until_parts (hosts : ServeUntil R C h k) (env : Environment) :
    (parts : List FormatPart) → (done : String) →
      EvaluateUntil R C (evalParts h env parts done) (evalParts k env parts done)
  | [], done => until_pure done
  | part :: rest, done =>
    until_bind (until_part hosts env part) fun text => until_parts hosts env rest (done ++ text)

theorem until_part (hosts : ServeUntil R C h k) (env : Environment) :
    (part : FormatPart) → EvaluateUntil R C (part.eval h env) (part.eval k env)
  | .literal s => until_pure s
  | .field e => until_bind (until_eval hosts env e) fun _ => until_pure _

theorem until_items (hosts : ServeUntil R C h k) (env : Environment) :
    (items : List Expr) → EvaluateUntil R C (evalItems h env items) (evalItems k env items)
  | [] => until_pure []
  | e :: rest =>
    until_bind (until_eval hosts env e) fun _ =>
      until_bind (until_items hosts env rest) fun _ => until_pure _

theorem until_entries (hosts : ServeUntil R C h k) (env : Environment) :
    (entries : List (Expr × Expr)) → ∀ dict : Value,
      EvaluateUntil R C (evalEntries h env entries dict) (evalEntries k env entries dict)
  | [], _ => until_pure _
  | (key, value) :: rest, _ =>
    until_bind (until_eval hosts env key) fun _ =>
      until_bind (until_eval hosts env value) fun _ =>
        until_bind (until_settle _) fun more => until_entries hosts env rest more

theorem until_named (hosts : ServeUntil R C h k) (env : Environment) :
    (named : List (String × Expr)) →
      EvaluateUntil R C (evalNamed h env named) (evalNamed k env named)
  | [] => until_pure []
  | (_, e) :: rest =>
    until_bind (until_eval hosts env e) fun _ =>
      until_bind (until_named hosts env rest) fun _ => until_pure _

theorem until_chain (hosts : ServeUntil R C h k) (env : Environment) (left : Value) :
    (others : List (CompareOp × Expr)) →
      EvaluateUntil R C (evalChain h env left others) (evalChain k env left others)
  | [] => until_pure true
  | (op, e) :: rest => by
    refine until_bind (until_eval hosts env e) fun right => ?_
    refine until_bind (until_settle _) fun holds => ?_
    by_cases hholds : holds = true
    · simp only [hholds, if_true]
      exact until_chain hosts env right rest
    · simp only [hholds]
      exact until_pure false

end

/-! ### Statements -/

/-- Machines with one environment on related hosts. -/
def OnHosts (R : σ → τ → Prop) (m : Machine σ) (m' : Machine τ) : Prop :=
  m.environment = m'.environment ∧ R m.host m'.host

/-- Machines of which the second one is cut off. -/
def CutHosts (C : HostError → σ → τ → Prop) (e : HostError) (m : Machine σ) (m' : Machine τ) :
    Prop :=
  C e m.host m'.host

/-- Executions that go alike until the second one is cut off by an error of its host. -/
abbrev ExecuteUntil (R : σ → τ → Prop) (C : HostError → σ → τ → Prop) (act : Execution σ α)
    (act' : Execution τ α) : Prop :=
  AlikeUntil (OnHosts R) (CutHosts C) Interrupt.host act act'

theorem host_evaluate (line : Nat) (act : Environment → Evaluation σ α) (m : Machine σ) :
    (stateOf (Execution.evaluate line act m)).host = stateOf (act m.environment m.host) := by
  simp only [Execution.evaluate]
  cases act m.environment m.host with
  | ok a s => rfl
  | error stop s => cases stop <;> rfl

theorem until_evaluate (line : Nat) {act : Environment → Evaluation σ α}
    {act' : Environment → Evaluation τ α} (hact : ∀ env, EvaluateUntil R C (act env) (act' env)) :
    ExecuteUntil R C (Execution.evaluate line act) (Execution.evaluate line act') where
  ends := by
    rintro ⟨env, s⟩ ⟨env', t⟩ ⟨henv, hst⟩
    obtain rfl : env = env' := henv
    rcases (hact env).ends s t hst with hfirst | ⟨e, t', hright, hcut⟩
    · simp only [Execution.evaluate]
      generalize act env s = left at hfirst
      generalize act' env t = right at hfirst
      cases hfirst with
      | ok hst => exact .inl (.ok ⟨rfl, hst⟩)
      | @error stop s t hst => cases stop <;> exact .inl (.error ⟨rfl, hst⟩)
    · refine .inr ⟨e, ⟨env, t'⟩, by simp [Execution.evaluate, hright], ?_⟩
      rwa [CutHosts, host_evaluate]
  goesOn e m m' hcut := by
    rw [CutHosts, host_evaluate]
    exact (hact m.environment).goesOn e m.host m'.host hcut

theorem until_compute (line : Nat) (act : Environment → Except Fault α) :
    ExecuteUntil R C (Execution.compute line act) (Execution.compute line act) :=
  until_evaluate line fun env => until_settle (act env)

theorem until_setLocal (name : String) (v : Value) :
    ExecuteUntil R C (Execution.setLocal name v) (Execution.setLocal name v) := by
  refine until_modify ?_ fun _ _ _ hcut => hcut
  rintro m m' ⟨henv, hst⟩
  exact ⟨congrArg (·.set name v) henv, hst⟩

theorem until_setEnvironment (env : Environment) :
    ExecuteUntil R C (Execution.setEnvironment env) (Execution.setEnvironment env) := by
  refine until_modify ?_ fun _ _ _ hcut => hcut
  rintro m m' ⟨henv, hst⟩
  exact ⟨rfl, hst⟩

theorem until_visitAll {body : Value → Execution σ Flow} {body' : Value → Execution τ Flow}
    (hbody : ∀ v, ExecuteUntil R C (body v) (body' v)) (values : List Value) :
    ExecuteUntil R C (Execution.visitAll body values) (Execution.visitAll body' values) := by
  induction values with
  | nil => exact until_pure _
  | cons v rest ih =>
    refine until_bind (hbody v) fun flow => ?_
    cases flow with
    | breakLoop => exact until_pure _
    | _ => exact ih

theorem until_repeatWhile {test : Execution σ Bool} {test' : Execution τ Bool}
    {body : Execution σ Flow} {body' : Execution τ Flow} (htest : ExecuteUntil R C test test')
    (hbody : ExecuteUntil R C body body') (rounds : Nat) :
    ExecuteUntil R C (Execution.repeatWhile test body rounds)
      (Execution.repeatWhile test' body' rounds) := by
  induction rounds with
  | zero => exact until_throw _
  | succ rounds ih =>
    refine until_bind htest fun holds => ?_
    by_cases hholds : holds = true
    · simp only [hholds, if_true]
      refine until_bind hbody fun flow => ?_
      cases flow with
      | breakLoop => exact until_pure _
      | _ => exact ih
    · simp only [hholds]
      exact until_pure _

theorem until_runAssign (hosts : ServeUntil R C h k) (line : Nat) (target : Target) (value : Expr) :
    ExecuteUntil R C (runAssign h line target value) (runAssign k line target value) := by
  refine until_bind (until_evaluate line fun env => until_eval hosts env value) fun v => ?_
  cases target with
  | name s => exact until_setLocal s v
  | item s index =>
    refine until_bind (until_evaluate line fun env => until_eval hosts env index) fun i => ?_
    exact until_bind (until_compute line _) fun env => until_setEnvironment env

theorem until_runUpdate (hosts : ServeUntil R C h k) (line : Nat) (target : Target) (op : BinaryOp)
    (value : Expr) :
    ExecuteUntil R C (runUpdate h line target op value) (runUpdate k line target op value) := by
  have hvalue := until_evaluate line fun env => until_eval hosts env value
  cases target with
  | name s =>
    refine until_bind (until_compute line _) fun current => ?_
    refine until_bind hvalue fun v => ?_
    exact until_bind (until_compute line _) fun result => until_setLocal s result
  | item s index =>
    refine until_bind (until_evaluate line fun env => until_eval hosts env index) fun i => ?_
    refine until_bind (until_compute line _) fun current => ?_
    refine until_bind hvalue fun v => ?_
    refine until_bind (until_compute line _) fun result => ?_
    exact until_bind (until_compute line _) fun env => until_setEnvironment env

theorem until_raisedFault (hosts : ServeUntil R C h k) (what : Option Expr) (env : Environment) :
    EvaluateUntil R C (raisedFault h what env) (raisedFault k what env) := by
  cases what with
  | none => exact until_pure _
  | some e =>
    cases hname : exceptionName? env e with
    | none =>
      simp only [raisedFault, hname]
      exact until_bind (until_eval hosts env e) fun _ => until_pure _
    | some name =>
      simp only [raisedFault, hname]
      refine until_bind ?_ fun message => until_pure _
      unfold exceptionMessage
      split
      · exact until_bind (until_eval hosts env _) fun _ => until_pure _
      · exact until_pure _

theorem until_runRaise (hosts : ServeUntil R C h k) (line : Nat) (what : Option Expr) :
    ExecuteUntil R C (runRaise h line what) (runRaise k line what) :=
  until_bind (until_evaluate line (until_raisedFault hosts what)) fun _ => until_throw _

theorem until_runAssert (hosts : ServeUntil R C h k) (line : Nat) (test : Expr)
    (message : Option Expr) :
    ExecuteUntil R C (runAssert h line test message) (runAssert k line test message) := by
  refine until_bind (until_evaluate line fun env => until_eval hosts env test) fun v => ?_
  by_cases hholds : v.isTrue = true
  · simp only [hholds]
    exact until_pure _
  · simp only [hholds]
    cases message with
    | none => exact until_bind (until_pure _) fun _ => until_throw _
    | some e =>
      exact until_bind (until_evaluate line fun env => until_eval hosts env e) fun _ =>
        until_throw _

theorem until_holds (hosts : ServeUntil R C h k) (line : Nat) (condition : Expr) :
    ExecuteUntil R C (holds h line condition) (holds k line condition) :=
  until_bind (until_evaluate line fun env => until_eval hosts env condition) fun _ => until_pure _

mutual

theorem until_stmt (hosts : ServeUntil R C h k) (rounds : Nat) :
    (s : Stmt) → ExecuteUntil R C (s.run h rounds) (s.run k rounds)
  | .mk line action => until_action hosts rounds line action

theorem until_action (hosts : ServeUntil R C h k) (rounds line : Nat) :
    (action : Action) → ExecuteUntil R C (action.run h rounds line) (action.run k rounds line)
  | .evaluate e =>
    until_bind (until_evaluate line fun env => until_eval hosts env e) fun _ => until_pure _
  | .assign target value =>
    until_bind (until_runAssign hosts line target value) fun _ => until_pure _
  | .update target op value =>
    until_bind (until_runUpdate hosts line target op value) fun _ => until_pure _
  | .choose branches otherwise =>
    until_branches hosts rounds line (until_block hosts rounds otherwise) branches
  | .forEach name items body =>
    until_bind
      (until_evaluate line fun env =>
        until_bind (until_eval hosts env items) fun _ => until_settle _)
      fun values => until_visitAll
        (fun v => until_bind (until_setLocal name v) fun _ => until_block hosts rounds body) values
  | .whileTrue condition body =>
    until_repeatWhile (until_holds hosts line condition) (until_block hosts rounds body) rounds
  | .breakLoop => until_pure _
  | .continueLoop => until_pure _
  | .pass => until_pure _
  | .raise what => until_bind (until_runRaise hosts line what) fun _ => until_pure _
  | .assert test message =>
    until_bind (until_runAssert hosts line test message) fun _ => until_pure _

theorem until_branches (hosts : ServeUntil R C h k) (rounds line : Nat)
    {otherwise : Execution σ Flow} {otherwise' : Execution τ Flow}
    (hotherwise : ExecuteUntil R C otherwise otherwise') :
    (branches : List (Expr × List Stmt)) →
      ExecuteUntil R C (runBranches h rounds line otherwise branches)
        (runBranches k rounds line otherwise' branches)
  | [] => hotherwise
  | (condition, body) :: rest => by
    refine until_bind (until_holds hosts line condition) fun holds => ?_
    by_cases hholds : holds = true
    · simp only [hholds, if_true]
      exact until_block hosts rounds body
    · simp only [hholds]
      exact until_branches hosts rounds line hotherwise rest

theorem until_block (hosts : ServeUntil R C h k) (rounds : Nat) :
    (body : List Stmt) → ExecuteUntil R C (runBlock h rounds body) (runBlock k rounds body)
  | [] => until_pure _
  | s :: rest => by
    refine until_bind (until_stmt hosts rounds s) fun flow => ?_
    cases flow with
    | normal => exact until_block hosts rounds rest
    | _ => exact until_pure _

end

/-! ### Fragments -/

theorem host_runProgram (h : Host σ) (rounds : Nat) (program : Program) (m : Machine σ) :
    (stateOf (runProgram h rounds program m)).host =
      (stateOf (runBlock h rounds program m)).host := by
  simp only [runProgram]
  cases runBlock h rounds program m with
  | ok flow m => rfl
  | error i m => rfl

theorem until_runProgram (hosts : ServeUntil R C h k) (rounds : Nat) (program : Program) :
    AlikeUntil (OnHosts R) (CutHosts C) FragmentStop.host (runProgram h rounds program)
      (runProgram k rounds program) where
  ends m m' hm := by
    rcases (until_block hosts rounds program).ends m m' hm with hblock | ⟨e, n', hright, hcut⟩
    · simp only [runProgram]
      generalize runBlock h rounds program m = left at hblock
      generalize runBlock k rounds program m' = right at hblock
      cases hblock with
      | ok hm => exact .inl (.ok hm)
      | error hm => exact .inl (.error hm)
    · refine .inr ⟨e, n', by simp [runProgram, hright, FragmentStop.ofInterrupt], ?_⟩
      rw [CutHosts, host_runProgram]
      exact hcut
  goesOn e m m' hcut := by
    rw [CutHosts, host_runProgram]
    exact (until_block hosts rounds program).goesOn e m m' hcut

/-- A fragment runs alike on hosts that serve it alike, until the second one breaks off. -/
theorem until_runFragment (hosts : ServeUntil R C h k) (rounds : Nat) (fragment : List Char) :
    AlikeUntil (OnHosts R) (CutHosts C) FragmentStop.host (runFragment h rounds fragment)
      (runFragment k rounds fragment) := by
  unfold runFragment
  cases parseProgram fragment with
  | ok program => exact until_runProgram hosts rounds program
  | error e => exact until_throw _

theorem alike_runFragment (hosts : ServeAlike R h k) (rounds : Nat) (fragment : List Char) :
    Alike (OnHosts R) (runFragment h rounds fragment) (runFragment k rounds fragment) :=
  (until_runFragment hosts.until rounds fragment).alike fun _ _ _ hcut => hcut

/-- What every request of a fragment keeps is kept by the fragment. -/
theorem runFragment_keeps {I : σ → Prop}
    (hemit : ∀ text s, I s → I (stateOf (h.emitText text s)))
    (hnote : ∀ text s, I s → I (h.note text s)) (rounds : Nat) (fragment : List Char)
    {m : Machine σ} (hm : I m.host) :
    I (stateOf (runFragment h rounds fragment m)).host := by
  have hosts : ServeAlike (fun s t => s = t ∧ I t) h h := by
    refine ⟨?_, ?_⟩
    · rintro text s t ⟨rfl, hs⟩
      have hafter := hemit text s hs
      cases hact : h.emitText text s with
      | ok a s' =>
        rw [hact] at hafter
        exact .ok ⟨rfl, hafter⟩
      | error e s' =>
        rw [hact] at hafter
        exact .error ⟨rfl, hafter⟩
    · rintro text s t ⟨rfl, hs⟩
      exact ⟨rfl, hnote text s hs⟩
  have hrun := alike_runFragment hosts rounds fragment m m ⟨rfl, rfl, hm⟩
  generalize runFragment h rounds fragment m = result at hrun
  cases hrun with
  | ok hafter => exact hafter.2.2
  | error hafter => exact hafter.2.2

end LiveDoc
