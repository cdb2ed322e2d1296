import LiveDoc.Execution.Recorder
import LiveDoc.Proofs.Execution.ErrorEvents

/-!
The routes of errors in a run. Each step of a run adds events to its journal behind which the run
goes on, or it ends with an error and adds events at the end of which the run stops with this
error. So do the sequences of such steps, and the closing of all scopes keeps it up.
-/
namespace LiveDoc

open Outcome

variable {σ : Type} {source : Source} {events : List RunEvent}

/-! ### Scopes -/

/-- Scopes are closed, or the host is asked to, and nothing else is done. -/
def Closes (events events' : List RunEvent) : Prop :=
  ∃ added, events' = events ++ added ∧ ∀ event ∈ added, event.isClosing = true

theorem Closes.refl (events : List RunEvent) : Closes events events :=
  ⟨[], (List.append_nil _).symm, by simp⟩

theorem Closes.trans {a b c : List RunEvent} (hab : Closes a b) (hbc : Closes b c) :
    Closes a c := by
  obtain ⟨first, rfl, hfirst⟩ := hab
  obtain ⟨second, rfl, hsecond⟩ := hbc
  exact ⟨first ++ second, List.append_assoc _ _ _, List.forall_mem_append.mpr ⟨hfirst, hsecond⟩⟩

theorem closes_closeScope (h : Host σ) (handle : Handle) (j : Journaled σ) :
    Closes j.events (stateOf ((Journaled.host h).closeScope handle j)).events :=
  ⟨_, Journaled.events_own_request (h.closeScope handle) (.closed handle) j,
    by simp [RunEvent.isClosing]⟩

theorem closes_closeEntry (h : Host σ) (entry : ScopeEntry) (j : Journaled σ) :
    Closes j.events (stateOf (ScopeStack.closeEntry (Journaled.host h) entry j)).events := by
  cases entry with
  | opened handle scope => exact closes_closeScope h handle j
  | placeholder level => exact Closes.refl j.events

theorem closes_popUpTo (h : Host σ) (count : Nat) (stack : ScopeStack) (j : Journaled σ) :
    Closes j.events
      (stateOf (ScopeStack.popUpTo (Journaled.host h) count (stack, j))).2.events := by
  induction count generalizing stack j with
  | zero => exact Closes.refl j.events
  | succ count ih =>
    cases stack with
    | nil =>
      rw [ScopeStack.popUpTo_nil]
      exact Closes.refl j.events
    | cons entry rest =>
      have hfirst := closes_closeEntry h entry j
      rw [ScopeStack.popUpTo_cons]
      cases hclose : ScopeStack.closeEntry (Journaled.host h) entry j with
      | ok a j' =>
        rw [hclose] at hfirst
        exact hfirst.trans (ih rest j')
      | error e j' =>
        rw [hclose] at hfirst
        exact hfirst

theorem closes_closeEach (h : Host σ) (stack : ScopeStack) (j : Journaled σ) :
    Closes j.events (ScopeStack.closeEach (Journaled.host h) stack j).2.events := by
  induction stack generalizing j with
  | nil => exact Closes.refl j.events
  | cons entry rest ih =>
    rw [ScopeStack.closeEach_cons_snd]
    exact (closes_closeEntry h entry j).trans (ih _)

theorem opens_openScope (h : Host σ) (scope : Scope) (heading : Option String) (j : Journaled σ) :
    ∃ result, (stateOf ((Journaled.host h).openScope scope heading j)).events =
      j.events ++ [.own (.opened scope heading result)] :=
  ⟨_, Journaled.events_own_request (h.openScope scope heading) (.opened scope heading) j⟩

/-- To enter a scope does not stop the run with a failure of a fragment. -/
theorem continues_enter (source : Source) (h : Host σ) (level : Nat) (name : String)
    (heading : Option String) (stack : ScopeStack) (j : Journaled σ) :
    ∃ added, Continues source added ∧
      (stateOf (ScopeStack.enter (Journaled.host h) level name heading (stack, j))).2.events =
        j.events ++ added := by
  by_cases hlevel : level = 0
  · subst hlevel
    exact ⟨[], .nil, (List.append_nil _).symm⟩
  · rw [ScopeStack.enter_eq (Nat.pos_of_ne_zero hlevel)]
    obtain ⟨closings, hevents, hclosings⟩ := closes_popUpTo h (stack.excess level) stack j
    cases hpop : ScopeStack.popUpTo (Journaled.host h) (stack.excess level) (stack, j) with
    | error e p =>
      rw [hpop] at hevents
      rw [run_bind_of_error hpop]
      exact ⟨closings, .closings hclosings, hevents⟩
    | ok a p =>
      obtain ⟨rest, j'⟩ := p
      rw [hpop] at hevents
      rw [run_bind_of_ok hpop]
      have hevents : j'.events = j.events ++ closings := hevents
      let scope : Scope := ⟨name, level, ScopeStack.pathOf rest name⟩
      obtain ⟨result, hopened⟩ := opens_openScope h scope heading j'
      refine ⟨closings ++ [.own (.opened scope heading result)],
        (Continues.closings hclosings).append (.own rfl fun _ _ => by simp), ?_⟩
      rw [stateOf_openOn, hopened, hevents, List.append_assoc]

/-! ### Steps of a run -/

/-- What a step adds to the journal is as its outcome says. -/
def Routed {α : Type} (source : Source) (start : List RunEvent)
    (outcome : EStateM.Result RunError (Progress (Journaled σ)) α) : Prop :=
  ∃ added, (stateOf outcome).machine.host.events = start ++ added ∧
    match resultOf outcome with
    | .ok _ => Continues source added
    | .error e => Stopped source e added

namespace Routed

variable {α β : Type} {start : List RunEvent}

/-- A step that has done nothing. -/
theorem pure {a : α} {p : Progress (Journaled σ)} :
    Routed source p.machine.host.events (.ok a p : EStateM.Result RunError _ α) :=
  ⟨[], (List.append_nil _).symm, .nil⟩

/-- A step that does not meet a failure of a fragment. -/
theorem of_continues {outcome : EStateM.Result RunError (Progress (Journaled σ)) α}
    (hevents : (stateOf outcome).machine.host.events = start ++ events)
    (hgoes : Continues source events)
    (herror : ∀ e, resultOf outcome = .error e → e.isFragment = false) :
    Routed source start outcome := by
  refine ⟨events, hevents, ?_⟩
  cases hresult : resultOf outcome with
  | ok a => exact hgoes
  | error e => exact .other hgoes (herror e hresult)

/-- A step behind one with a value. -/
theorem after {a : α} {p : Progress (Journaled σ)}
    {outcome : EStateM.Result RunError (Progress (Journaled σ)) β}
    (hfirst : Routed source start (.ok a p))
    (hsecond : Routed source p.machine.host.events outcome) : Routed source start outcome := by
  obtain ⟨first, hevents, hgoes⟩ := hfirst
  obtain ⟨second, hmore, hadded⟩ := hsecond
  have hevents : p.machine.host.events = start ++ first := hevents
  refine ⟨first ++ second, by rw [hmore, hevents, List.append_assoc], ?_⟩
  cases hresult : resultOf outcome with
  | ok b =>
    rw [hresult] at hadded
    exact Continues.append hgoes hadded
  | error e =>
    rw [hresult] at hadded
    exact Stopped.behind hadded hgoes

theorem bind {act : Run (Journaled σ) α} {next : α → Run (Journaled σ) β}
    {p : Progress (Journaled σ)} (hact : Routed source start (act p))
    (hnext : ∀ a p', Routed source p'.machine.host.events (next a p')) :
    Routed source start ((act >>= next) p) := by
  cases hrun : act p with
  | error e p' =>
    rw [hrun] at hact
    rw [run_bind_of_error hrun]
    exact hact
  | ok a p' =>
    rw [hrun] at hact
    rw [run_bind_of_ok hrun]
    exact hact.after (hnext a p')

/-- Scopes are closed behind an error. -/
theorem close {e : RunError} {p : Progress (Journaled σ)} {j : Journaled σ}
    (h : Routed source start (.error e p : EStateM.Result RunError _ α))
    (hclose : Closes p.machine.host.events j.events) :
    Routed source start (.error e (p.withHost j) : EStateM.Result RunError _ α) := by
  obtain ⟨added, hevents, hstopped⟩ := h
  obtain ⟨closings, hmore, hclosings⟩ := hclose
  have hevents : p.machine.host.events = start ++ added := hevents
  refine ⟨added ++ closings, ?_, Stopped.close hstopped hclosings⟩
  rw [← List.append_assoc, ← hevents]
  exact hmore

theorem onHost {act : EStateM HostError (Journaled σ) α} {p : Progress (Journaled σ)}
    (hevents : (stateOf (act p.machine.host)).events = p.machine.host.events ++ events)
    (hgoes : Continues source events) :
    Routed source p.machine.host.events (Run.onHost act p) := by
  refine of_continues ?_ hgoes ?_
  · rw [stateOf_onHost]
    exact hevents
  · intro e hresult
    simp only [Run.onHost] at hresult
    cases hact : act p.machine.host with
    | ok a j => simp [hact, resultOf] at hresult
    | error e' j =>
      rw [hact] at hresult
      injection hresult with he
      rw [← he]
      rfl

end Routed

variable {run : Runner (Logged σ)}

/-- A fragment that is not stopped by its host has met no error of the host. -/
theorem smooth_of_not_host {calls : List HostCall} {result : Except FragmentStop Unit}
    (h : Smooth calls ∨ ∃ e, FailsLast e calls ∧ result = .error (.host e))
    (hresult : ∀ e, result ≠ .error (.host e)) : Smooth calls := by
  rcases h with hsmooth | ⟨e, -, herror⟩
  · exact hsmooth
  · exact absurd herror (hresult e)

/-- A fragment is run, and its failure is put before the host at once. -/
theorem routed_dispatch (hrun : PassesErrors run) (source : Source) (h : Host σ) (scope : Scope)
    (u : FragmentUnit) (p : Progress (Journaled σ)) :
    Routed source p.machine.host.events
      (Run.dispatch source (Journaled.host h) (Journaled.runner run) scope u p) := by
  have hcalls :=
    hrun u (p.started scope u).machine.environment (p.started scope u).machine.host.inner
  rw [Run.dispatch_eq]
  simp only [Journaled.runner]
  generalize run u ⟨(p.started scope u).machine.environment,
    ⟨(p.started scope u).machine.host.inner, []⟩⟩ = outcome at hcalls ⊢
  cases outcome with
  | ok a m =>
    have hsmooth : Smooth m.host.calls := smooth_of_not_host hcalls (by simp [resultOf])
    exact ⟨[.unit u m.host.calls none], rfl, .unit hsmooth (by simp)⟩
  | error stop m =>
    cases stop with
    | failure f =>
      have hsmooth : Smooth m.host.calls := smooth_of_not_host hcalls (by simp [resultOf])
      let failure := FragmentError.ofFailure source u f
      simp only [Run.settle, Journaled.host, Logged.host]
      cases hanswer : h.reportError failure m.host.inner with
      | mk action s =>
        let added : List RunEvent :=
          [.unit u m.host.calls (some (.failure f)), .own (.reported failure action)]
        refine ⟨added, ?_, ?_⟩
        · cases action <;> simp [failure, hanswer, stateOf, Progress.withHost, Progress.failed,
            Progress.started, Journaled.withOwn, Logged.add, added]
        · simp only [failure] at hanswer
          cases action with
          | halt =>
            have hhalted : Stopped source (.fragment failure) ([] ++ added) :=
              .halted .nil hsmooth (by simp)
            simpa [hanswer, resultOf, added] using hhalted
          | skipSection => simpa [hanswer, resultOf, added] using Continues.failed hsmooth (by simp)
          | proceed => simpa [hanswer, resultOf, added] using Continues.failed hsmooth (by simp)
    | host e =>
      let event : RunEvent := .unit u m.host.calls (some (.host e))
      refine ⟨[event], rfl, ?_⟩
      rcases hcalls with hsmooth | ⟨e', hfails, herror⟩
      · exact .other (.unit hsmooth (by simp)) rfl
      · obtain rfl : e = e' := by simpa [resultOf] using herror
        have hcut : Stopped source (.output e) ([] ++ event :: []) := .cut .nil hfails (by simp)
        exact hcut
    | exhausted =>
      have hsmooth : Smooth m.host.calls := smooth_of_not_host hcalls (by simp [resultOf])
      exact ⟨[.unit u m.host.calls (some .exhausted)], rfl, .other (.unit hsmooth (by simp)) rfl⟩

theorem routed_runContents (hrun : PassesErrors run) (source : Source) (h : Host σ)
    (children : List Document.Content) (p : Progress (Journaled σ)) :
    Routed source p.machine.host.events
      (Run.runContents source (Journaled.host h) (Journaled.runner run) children p) := by
  induction children generalizing p with
  | nil => exact Routed.pure
  | cons c rest ih =>
    have hstart : Routed source p.machine.host.events ((get : Run (Journaled σ) _) p) := Routed.pure
    refine Routed.bind hstart fun q p' => ?_
    refine Routed.bind (routed_dispatch hrun source h _ (.ofContent source c) p') fun go p' => ?_
    cases go with
    | next => exact ih p'
    | skipSection => exact Routed.pure

/-- The scope of the header is closed behind its fragment, whatever stops the fragment. -/
theorem routed_runHeader (hrun : PassesErrors run) (source : Source) (h : Host σ)
    (header : Document.Header) (p : Progress (Journaled σ)) :
    Routed source p.machine.host.events
      (Run.runHeader source (Journaled.host h) (Journaled.runner run) header p) := by
  obtain ⟨result, hopened⟩ := opens_openScope h Run.headerScope none p.machine.host
  have hopening : Routed source p.machine.host.events
      (Run.onHost ((Journaled.host h).openScope Run.headerScope none) p) :=
    .onHost hopened (.own rfl fun _ _ => by simp)
  rw [Run.runHeader_eq]
  simp only [Run.onHost] at hopening
  cases hopen : (Journaled.host h).openScope Run.headerScope none p.machine.host with
  | error e j =>
    rw [hopen] at hopening
    exact hopening
  | ok handle j =>
    rw [hopen] at hopening
    have hunit := routed_dispatch hrun source h Run.headerScope (.ofText source (.header header))
      (p.withHost j)
    simp only
    cases hrun' : Run.dispatch source (Journaled.host h) (Journaled.runner run) Run.headerScope
        (.ofText source (.header header)) (p.withHost j) with
    | ok go p' =>
      rw [hrun'] at hunit
      obtain ⟨closings, hclosed, hclosings⟩ := closes_closeScope h handle p'.machine.host
      exact (hopening.after hunit).after (.onHost hclosed (.closings hclosings))
    | error e p' =>
      rw [hrun'] at hunit
      exact hopening.after (hunit.close (closes_closeScope h handle p'.machine.host))

theorem routed_runSection (hrun : PassesErrors run) (source : Source) (h : Host σ)
    (part : Document.Section) (p : Progress (Journaled σ)) :
    Routed source p.machine.host.events
      (Run.runSection source (Journaled.host h) (Journaled.runner run) part p) := by
  rw [Run.runSection_eq]
  refine Routed.bind ?_ fun _ p' => routed_runContents hrun source h part.children p'
  obtain ⟨added, hgoes, hevents⟩ := continues_enter source h part.heading.level part.heading.title
    (some (String.ofList part.heading.raw)) p.stack p.machine.host
  refine Routed.of_continues ?_ hgoes ?_
  · rw [host_onStack]
    exact hevents
  · intro e hresult
    simp only [Run.onStack] at hresult
    cases henter : ScopeStack.enter (Journaled.host h) part.heading.level part.heading.title
        (some (String.ofList part.heading.raw)) (p.stack, p.machine.host) with
    | ok a after => simp [henter, resultOf] at hresult
    | error e' after =>
      rw [henter] at hresult
      injection hresult with he
      rw [← he]
      cases e' <;> rfl

theorem routed_runSections (hrun : PassesErrors run) (source : Source) (h : Host σ)
    (sections : List Document.Section) (p : Progress (Journaled σ)) :
    Routed source p.machine.host.events
      (Run.runSections source (Journaled.host h) (Journaled.runner run) sections p) := by
  induction sections generalizing p with
  | nil => exact Routed.pure
  | cons part rest ih =>
    exact Routed.bind (routed_runSection hrun source h part p) fun _ p' => ih p'

theorem routed_runBody (hrun : PassesErrors run) (source : Source) (h : Host σ) (d : Document)
    (p : Progress (Journaled σ)) :
    Routed source p.machine.host.events
      (Run.runBody source (Journaled.host h) (Journaled.runner run) d p) := by
  rw [Run.runBody_eq]
  refine Routed.bind ?_ fun _ p' => ?_
  · cases d.header with
    | none => exact Routed.pure
    | some header => exact routed_runHeader hrun source h header p
  · exact Routed.bind (routed_runContents hrun source h d.intro p') fun _ p' =>
      routed_runSections hrun source h d.sections p'

/-! ### Whole runs -/

/-- All scopes are closed behind the body, and what they answer does not undo an error. -/
theorem routed_closeRun (h : Host σ) {body : EStateM.Result RunError (Progress (Journaled σ)) Unit}
    (hbody : Routed source [] body) :
    let outcome := closeRun (Journaled.host h) body
    match outcome.1 with
    | .ok _ => Continues source outcome.2.host.events
    | .error e => Stopped source e outcome.2.host.events := by
  obtain ⟨added, hevents, hadded⟩ := hbody
  obtain ⟨closings, hmore, hclosings⟩ :=
    closes_closeEach h (stateOf body).stack (stateOf body).machine.host
  have hclosed : (closeRun (Journaled.host h) body).2.host.events = added ++ closings := by
    rw [host_closeRun, hmore, hevents, List.nil_append]
  dsimp only
  rw [hclosed]
  cases body with
  | error e p => exact Stopped.close hadded hclosings
  | ok a p =>
    have hgoes : Continues source (added ++ closings) :=
      Continues.append hadded (.closings hclosings)
    simp only [closeRun]
    cases (ScopeStack.closeEach (Journaled.host h) p.stack p.machine.host).1 with
    | none => exact hgoes
    | some e => exact .other hgoes rfl

theorem routesErrors_execute (hrun : PassesErrors run) (source : Source) (h : Host σ)
    (d : Document) (environment : Environment) (s : σ) :
    let outcome := execute source (Journaled.host h) (Journaled.runner run) d
      ⟨environment, ⟨s, []⟩⟩
    RoutesErrors source outcome.1 outcome.2.host.events := by
  have hclosed := routed_closeRun h
    (routed_runBody hrun source h d ⟨⟨environment, ⟨s, []⟩⟩, [], ⟨0, 0, 0, 0⟩⟩)
  simp only [execute]
  generalize closeRun (Journaled.host h) (Run.runBody source (Journaled.host h)
    (Journaled.runner run) d ⟨⟨environment, ⟨s, []⟩⟩, [], ⟨0, 0, 0, 0⟩⟩) = outcome at hclosed
  obtain ⟨result, m⟩ := outcome
  cases result with
  | ok counts => exact routesErrors_of_continues hclosed
  | error e =>
    have hroutes := routesErrors_of_stopped hclosed
    by_cases hfragment : e.isFragment = true
    · simp only [hfragment, if_true, List.append_nil] at hroutes ⊢
      exact hroutes
    · simp only [hfragment] at hroutes ⊢
      exact hroutes

/-- A source that cannot be read is not run: the host is told why, and that is all. -/
theorem executeJournaled_of_unread (source : Source) (h : Host σ) (run : Runner (Logged σ))
    (m : Machine σ) {e : RunError}
    (he : (source.text.isEmpty = true ∧ e = .emptyInput) ∨ (source.text.isEmpty = false ∧
      ∃ reason, Document.parse source.text.toList = .error reason ∧ e = .unreadable reason)) :
    executeJournaled source h run m =
      (.error e, ⟨m.environment, ⟨h.reportFatal e.message m.host, [.own (.fatal e.message)]⟩⟩) := by
  rcases he with ⟨hempty, rfl⟩ | ⟨hsome, reason, hparse, rfl⟩
  · simp only [executeJournaled, executeSource, hempty, if_true]
    rfl
  · simp only [executeJournaled, executeSource, hsome, hparse]
    rfl

theorem routesErrors_executeJournaled (hrun : PassesErrors run) (source : Source) (h : Host σ)
    (m : Machine σ) :
    let outcome := executeJournaled source h run m
    RoutesErrors source outcome.1 outcome.2.host.events := by
  cases hempty : source.text.isEmpty with
  | true =>
    rw [executeJournaled_of_unread source h run m (.inl ⟨hempty, rfl⟩)]
    exact routesErrors_of_other .nil rfl
  | false =>
    cases hparse : Document.parse source.text.toList with
    | error reason =>
      rw [executeJournaled_of_unread source h run m (.inr ⟨hempty, reason, hparse, rfl⟩)]
      exact routesErrors_of_other .nil rfl
    | ok d =>
      rw [executeJournaled, executeSource_of_parse hparse]
      exact routesErrors_execute hrun source h d m.environment m.host

/-- In every run, errors are routed as `RoutesErrors` says, on any host, with programs as fragments
or with other fragments that hand on the errors of the host and report none themselves. -/
theorem executeSource_routes_errors (source : Source) (environment : Environment) {σ : Type}
    (h : Host σ) (s : σ) :
    (∀ rounds, PassesErrors (programRunner (Logged.host h) rounds) ∧
      executeSource source h (programRunner h rounds) ⟨environment, s⟩ =
        let journaled := executeJournaled source h (programRunner (Logged.host h) rounds)
          ⟨environment, s⟩
        (journaled.1, ⟨journaled.2.environment, journaled.2.host.inner⟩)) ∧
    ∀ run : Runner (Logged σ), PassesErrors run →
      let outcome := executeJournaled source h run ⟨environment, s⟩
      RoutesErrors source outcome.1 outcome.2.host.events ∧
        ∀ e, (source.text.isEmpty = true ∧ e = .emptyInput) ∨ (source.text.isEmpty = false ∧
            ∃ reason, Document.parse source.text.toList = .error reason ∧
              e = .unreadable reason) →
          outcome = (.error e,
            ⟨environment, ⟨h.reportFatal e.message s, [.own (.fatal e.message)]⟩⟩) := by
  refine ⟨?_, ?_⟩
  · intro rounds
    exact ⟨passesErrors_programs h rounds, executeSource_eq_journaled source h rounds _⟩
  intro run hrun
  exact ⟨routesErrors_executeJournaled hrun source h ⟨environment, s⟩,
    fun e he => executeJournaled_of_unread source h run ⟨environment, s⟩ he⟩

/-- A fragment that fails, and texts before and behind a heading. -/
def failureAndTexts : Source := ⟨"d", "~~~python:testflows\nx\n~~~\na\n# A\nb\n", 0⟩

/-- A host that takes one text. -/
def oneEmission : Host Recorder := Recorder.host ⟨[.proceed], [2], [], []⟩

/-- The run goes on behind the failure, and it ends with the text that cannot be emitted. An empty
source is not run. -/
theorem routes_errors_of_cut_run :
    let run := programRunner (Logged.host oneEmission) 0
    let outcome := executeJournaled failureAndTexts oneEmission run ⟨.initial, .initial⟩
    let empty : Source := ⟨"d", "", 0⟩
    PassesErrors run ∧ RoutesErrors failureAndTexts outcome.1 outcome.2.host.events ∧
      outcome.1 = .error (.output (.io "disk full")) ∧
      (failures failureAndTexts outcome.2.host.events).length = 1 ∧
      empty.text.isEmpty = true ∧
      executeJournaled empty oneEmission run ⟨.initial, .initial⟩ =
        (.error .emptyInput, ⟨.initial, ⟨oneEmission.reportFatal "empty document" .initial,
          [.own (.fatal "empty document")]⟩⟩) := by
  have hrun :
      let run := programRunner (Logged.host oneEmission) 0
      let outcome := executeJournaled failureAndTexts oneEmission run ⟨.initial, .initial⟩
      (error? outcome.1, (failures failureAndTexts outcome.2.host.events).length) =
        (some (.output (.io "disk full")), 1) := by
    decide +kernel
  simp only [Prod.mk.injEq, error?_eq_some_iff] at hrun
  have hempty : ((⟨"d", "", 0⟩ : Source).text.isEmpty = true) := by decide
  obtain ⟨hprograms, hroutes⟩ :=
    executeSource_routes_errors failureAndTexts .initial oneEmission .initial
  have hpasses := (hprograms 0).1
  have hunread := (executeSource_routes_errors ⟨"d", "", 0⟩ .initial oneEmission .initial).2
    (programRunner (Logged.host oneEmission) 0) hpasses
  exact ⟨hpasses, (hroutes _ hpasses).1, hrun.1, hrun.2, hempty,
    hunread.2 .emptyInput (.inl ⟨hempty, rfl⟩)⟩

end LiveDoc
