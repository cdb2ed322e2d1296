import LiveDoc.Execution.Run
import LiveDoc.Proofs.Document.NodeLines

/-!
The steps of a run as equations on how far it has come. A fragment is run with its scope and its
place bound, and only a failure of the fragment itself is put before the host.
-/
namespace LiveDoc

variable {σ : Type}

namespace Progress

/-- The state in which a fragment is run. -/
def started (p : Progress σ) (scope : Scope) (u : FragmentUnit) : Progress σ :=
  { p with
    machine := { p.machine with environment := p.machine.environment.bindUnit scope u.name }
    counts := Run.countUnit u p.counts }

/-- The state after a request to the host. -/
def withHost (p : Progress σ) (s : σ) : Progress σ :=
  { p with machine := { p.machine with host := s } }

def failed (p : Progress σ) : Progress σ := { p with counts := Run.countError p.counts }

end Progress

namespace Run

/-- How a run goes on after a failure of a fragment. -/
def settle (h : Host σ) (e : FragmentError) (p : Progress σ) :
    EStateM.Result RunError (Progress σ) Continuation :=
  let (action, s) := h.reportError e p.machine.host
  match action with
  | .halt => .error (.fragment e) (p.withHost s)
  | .skipSection => .ok .skipSection (p.withHost s).failed
  | .proceed => .ok .next (p.withHost s).failed

theorem dispatch_eq (source : Source) (h : Host σ) (run : Runner σ) (scope : Scope)
    (u : FragmentUnit) (p : Progress σ) :
    dispatch source h run scope u p =
      let started := p.started scope u
      match run u started.machine with
      | .ok _ m => .ok .next { started with machine := m }
      | .error (.failure f) m =>
        settle h (.ofFailure source u f) { started with machine := m }
      | .error (.host e) m => .error (.output e) { started with machine := m }
      | .error .exhausted m => .error .exhausted { started with machine := m } := by
  simp only [dispatch, bind, EStateM.bind, Outcome.run_modify, count, tryUnit, settle,
    Progress.started]
  cases run u ⟨p.machine.environment.bindUnit scope u.name, p.machine.host⟩ with
  | ok a m => rfl
  | error stop m =>
    cases stop with
    | failure f =>
      cases hanswer : h.reportError (.ofFailure source u f) m.host with
      | mk action s =>
        simp only [EStateM.bind, askHost, hanswer]
        cases action <;> rfl
    | host e => rfl
    | exhausted => rfl

/-- A step that counts no failure has run its fragment to the end. -/
theorem unit_of_dispatch {source : Source} {h : Host σ} {run : Runner σ} {scope : Scope}
    {u : FragmentUnit} {p p' : Progress σ} {go : Continuation}
    (hrun : dispatch source h run scope u p = .ok go p') (herrors : p'.counts.errors = 0) :
    go = .next ∧ p.counts.errors = 0 ∧ run u (p.started scope u).machine = .ok () p'.machine := by
  rw [dispatch_eq] at hrun
  dsimp only at hrun
  cases hunit : run u (p.started scope u).machine with
  | ok a m =>
    rw [hunit] at hrun
    injection hrun with hgo hp
    subst hgo hp
    exact ⟨rfl, herrors, rfl⟩
  | error stop m =>
    rw [hunit] at hrun
    cases stop with
    | failure f =>
      simp only [settle] at hrun
      split at hrun
      · simp at hrun
      · injection hrun with hgo hp
        subst hp
        exact absurd herrors (Nat.succ_ne_zero _)
      · injection hrun with hgo hp
        subst hp
        exact absurd herrors (Nat.succ_ne_zero _)
    | host e => simp at hrun
    | exhausted => simp at hrun

/-- A failure that skips the rest ends the content as its last piece does. -/
theorem runContents_cons (source : Source) (h : Host σ) (run : Runner σ) (c : Document.Content)
    (rest : List Document.Content) (p : Progress σ) :
    runContents source h run (c :: rest) p =
      match dispatch source h run ((ScopeStack.current? p.stack).getD (documentScope source))
        (.ofContent source c) p with
      | .ok .next p => runContents source h run rest p
      | .ok .skipSection p => .ok () p
      | .error e p => .error e p := by
  simp only [runContents, bind, EStateM.bind, Outcome.run_get]
  cases dispatch source h run ((ScopeStack.current? p.stack).getD (documentScope source))
    (.ofContent source c) p with
  | ok go p => cases go <;> rfl
  | error e p => rfl

/-- The header's fragment is run in a scope of its own, which is closed in any case. -/
theorem runHeader_eq (source : Source) (h : Host σ) (run : Runner σ) (header : Document.Header)
    (p : Progress σ) :
    runHeader source h run header p =
      match h.openScope headerScope none p.machine.host with
      | .error e s => .error (.output e) (p.withHost s)
      | .ok handle s =>
        match dispatch source h run headerScope (.ofText source (.header header)) (p.withHost s) with
        | .ok _ p => onHost (h.closeScope handle) p
        | .error e p =>
          .error e (p.withHost (Outcome.stateOf (h.closeScope handle p.machine.host))) := by
  cases hopen : h.openScope headerScope none p.machine.host with
  | error e s =>
    have hscope : onHost (h.openScope headerScope none) p = .error (.output e) (p.withHost s) := by
      simp [onHost, hopen, Progress.withHost]
    rw [runHeader, Outcome.run_bind_of_error hscope]
  | ok handle s =>
    have hscope : onHost (h.openScope headerScope none) p = .ok handle (p.withHost s) := by
      simp [onHost, hopen, Progress.withHost]
    rw [runHeader, Outcome.run_bind_of_ok hscope]
    simp only [bind, EStateM.bind, Outcome.run_tryCatch]
    cases dispatch source h run headerScope (.ofText source (.header header)) (p.withHost s) with
    | ok go p' => rfl
    | error e p' =>
      cases hclose : h.closeScope handle p'.machine.host with
      | ok a s' =>
        simp only [onHost, hclose]
        rfl
      | error e' s' =>
        simp only [onHost, hclose]
        rfl

theorem runSection_eq (source : Source) (h : Host σ) (run : Runner σ) (part : Document.Section)
    (p : Progress σ) :
    runSection source h run part p =
      (onStack (ScopeStack.enter h part.heading.level part.heading.title
          (some (String.ofList part.heading.raw))) >>= fun _ =>
        runContents source h run part.children) { p with counts := countSection p.counts } := rfl

/-- What is run in front of the content. -/
def runFront (source : Source) (h : Host σ) (run : Runner σ) : Option Document.Header → Run σ Unit
  | some header => runHeader source h run header
  | none => pure ()

theorem runBody_eq (source : Source) (h : Host σ) (run : Runner σ) (d : Document) :
    runBody source h run d =
      runFront source h run d.header >>= fun _ =>
        runContents source h run d.intro >>= fun _ => runSections source h run d.sections := by
  unfold runBody
  cases d.header <;> rfl

end Run

/-! ### The whole run -/

theorem host_closeRun (h : Host σ) (outcome : EStateM.Result RunError (Progress σ) Unit) :
    (closeRun h outcome).2.host =
      (ScopeStack.closeEach h (Outcome.stateOf outcome).stack
        (Outcome.stateOf outcome).machine.host).2 := by
  cases outcome with
  | ok a p => rfl
  | error e p => rfl

/-- A run ends well when its body does and then every scope can be closed. -/
theorem execute_eq_ok_iff {source : Source} {h : Host σ} {run : Runner σ} {d : Document}
    {m m' : Machine σ} {counts : RunCounts} :
    execute source h run d m = (.ok counts, m') ↔
      ∃ p s, Run.runBody source h run d ⟨m, [], ⟨0, 0, 0, 0⟩⟩ = .ok () p ∧
        ScopeStack.closeEach h p.stack p.machine.host = (none, s) ∧
        counts = p.counts ∧ m' = { p.machine with host := s } := by
  cases hbody : Run.runBody source h run d ⟨m, [], ⟨0, 0, 0, 0⟩⟩ with
  | error e p => simp [execute, closeRun, hbody]
  | ok a p =>
    cases hclose : ScopeStack.closeEach h p.stack p.machine.host with
    | mk closed s =>
      cases closed with
      | none => simp [execute, closeRun, hbody, hclose, eq_comm]
      | some e => simp [execute, closeRun, hbody, hclose]

/-- What is told as fatal of the result of a run. -/
def fatalOf : RunResult → List String
  | .ok _ => []
  | .error e => if e.isFragment then [] else [e.message]

/-- An error is told when all scopes are closed. -/
theorem execute_eq_closeRun (source : Source) (h : Host σ) (run : Runner σ) (d : Document)
    (m : Machine σ) :
    execute source h run d m =
      let closed := closeRun h (Run.runBody source h run d ⟨m, [], ⟨0, 0, 0, 0⟩⟩)
      (closed.1, (fatalOf closed.1).foldl (fun m message => reportFatal h message m) closed.2) := by
  simp only [execute]
  generalize closeRun h (Run.runBody source h run d ⟨m, [], ⟨0, 0, 0, 0⟩⟩) = closed
  obtain ⟨result, m'⟩ := closed
  cases result with
  | ok counts => rfl
  | error e => by_cases hfragment : e.isFragment = true <;> simp [fatalOf, hfragment]

theorem executeSource_of_parse {source : Source} {d : Document}
    (hparse : Document.parse source.text.toList = .ok d) (h : Host σ) (run : Runner σ)
    (m : Machine σ) : executeSource source h run m = execute source h run d m := by
  have hsome : source.text.isEmpty = false := by
    have hchars := Document.ne_nil_of_parse hparse
    simpa [String.isEmpty_iff] using hchars
  simp only [executeSource, hsome, hparse, Bool.false_eq_true, if_false]

/-- Only a document that can be read is run. -/
theorem exists_parse_of_executeSource {source : Source} {h : Host σ} {run : Runner σ}
    {m m' : Machine σ} {counts : RunCounts}
    (hrun : executeSource source h run m = (.ok counts, m')) :
    ∃ d, Document.parse source.text.toList = .ok d ∧
      execute source h run d m = (.ok counts, m') := by
  cases hparse : Document.parse source.text.toList with
  | ok d =>
    rw [executeSource_of_parse hparse] at hrun
    exact ⟨d, rfl, hrun⟩
  | error e =>
    unfold executeSource at hrun
    split at hrun
    · simp at hrun
    · simp [hparse] at hrun

end LiveDoc
