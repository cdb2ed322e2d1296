import LiveDoc.Proofs.Evaluation.Simulation
import LiveDoc.Proofs.Execution.Dispatch
import LiveDoc.Proofs.Execution.ScopeStack

/-!
Runs on two hosts. When the hosts answer every request alike and the fragments run alike on them,
the whole run goes alike: it has the same result and leaves the same environment. If the second
host breaks off when it should take a text or open a scope, then the second run ends with this
error as soon as its scopes are closed, while the first one may go on.
-/
namespace LiveDoc

open Outcome

variable {σ τ α : Type} {R : σ → τ → Prop} {C : HostError → σ → τ → Prop} {h : Host σ}
  {k : Host τ} {run : Runner σ} {run' : Runner τ}

/-- The hosts treat all requests alike. -/
structure HostAlike (R : σ → τ → Prop) (h : Host σ) (k : Host τ) : Prop
    extends ServeAlike R h k where
  openScope : ∀ scope heading, Alike R (h.openScope scope heading) (k.openScope scope heading)
  closeScope : ∀ handle, Alike R (h.closeScope handle) (k.closeScope handle)
  answer : ∀ e s t, R s t → (h.reportError e s).1 = (k.reportError e t).1
  report : ∀ e s t, R s t → R (h.reportError e s).2 (k.reportError e t).2
  fatal : ∀ message s t, R s t → R (h.reportFatal message s) (k.reportFatal message t)

/-- The hosts treat all requests alike until the second one breaks off. A scope can be closed all
the same, on both sides of the cut. -/
structure HostUntil (R : σ → τ → Prop) (C : HostError → σ → τ → Prop) (h : Host σ)
    (k : Host τ) : Prop extends ServeUntil R C h k where
  openScope : ∀ scope heading,
    AlikeUntil R C id (h.openScope scope heading) (k.openScope scope heading)
  closeScope : ∀ handle, Alike R (h.closeScope handle) (k.closeScope handle)
  closeOn : ∀ handle e s t, C e s t → C e (stateOf (h.closeScope handle s)) t
  closeCut : ∀ handle e s t, C e s t → C e s (stateOf (k.closeScope handle t))
  answer : ∀ e s t, R s t → (h.reportError e s).1 = (k.reportError e t).1
  report : ∀ e s t, R s t → R (h.reportError e s).2 (k.reportError e t).2
  reportOn : ∀ failure e s t, C e s t → C e (h.reportError failure s).2 t

theorem HostAlike.until (hosts : HostAlike R h k) : HostUntil R Uncut h k where
  toServeUntil := hosts.toServeAlike.until
  openScope scope heading := (hosts.openScope scope heading).until id
  closeScope := hosts.closeScope
  closeOn _ _ _ _ hcut := hcut
  closeCut _ _ _ _ hcut := hcut
  answer := hosts.answer
  report := hosts.report
  reportOn _ _ _ _ hcut := hcut

def RunnerAlike (R : σ → τ → Prop) (run : Runner σ) (run' : Runner τ) : Prop :=
  ∀ u, Alike (OnHosts R) (run u) (run' u)

def RunnerUntil (R : σ → τ → Prop) (C : HostError → σ → τ → Prop) (run : Runner σ)
    (run' : Runner τ) : Prop :=
  ∀ u, AlikeUntil (OnHosts R) (CutHosts C) FragmentStop.host (run u) (run' u)

/-- One stack on related hosts. -/
def OnStacks (R : σ → τ → Prop) (p : ScopeStack × σ) (p' : ScopeStack × τ) : Prop :=
  p.1 = p'.1 ∧ R p.2 p'.2

/-- Stacks on hosts of which the second one is cut off. -/
def CutStacks (C : HostError → σ → τ → Prop) (e : HostError) (p : ScopeStack × σ)
    (p' : ScopeStack × τ) : Prop :=
  C e p.2 p'.2

/-- Requests of the scope stack that go alike until the second one is cut off. -/
abbrev ScopingUntil (R : σ → τ → Prop) (C : HostError → σ → τ → Prop)
    (act : ScopeStack.Scoping σ α) (act' : ScopeStack.Scoping τ α) : Prop :=
  AlikeUntil (OnStacks R) (CutStacks C) ScopeError.host act act'

/-- Runs that have come equally far on related hosts. -/
structure OnRuns (R : σ → τ → Prop) (p : Progress σ) (p' : Progress τ) : Prop where
  machine : OnHosts R p.machine p'.machine
  stack : p.stack = p'.stack
  counts : p.counts = p'.counts

theorem OnRuns.withHost {p : Progress σ} {p' : Progress τ} {s : σ} {t : τ} (hp : OnRuns R p p')
    (hst : R s t) :
    OnRuns R { p with machine := { p.machine with host := s } }
      { p' with machine := { p'.machine with host := t } } :=
  ⟨⟨hp.machine.1, hst⟩, hp.stack, hp.counts⟩

/-- Runs of which the second one is cut off. -/
def CutRuns (C : HostError → σ → τ → Prop) (e : HostError) (p : Progress σ) (p' : Progress τ) :
    Prop :=
  C e p.machine.host p'.machine.host

/-- Runs that go alike until the second one is cut off by an error of its host. -/
abbrev RunUntil (R : σ → τ → Prop) (C : HostError → σ → τ → Prop) (act : Run σ α)
    (act' : Run τ α) : Prop :=
  AlikeUntil (OnRuns R) (CutRuns C) RunError.output act act'

/-! ### Scopes -/

theorem stateOf_request (act : EStateM HostError σ α) (p : ScopeStack × σ) :
    stateOf (ScopeStack.request act p) = (p.1, stateOf (act p.2)) := by
  simp only [ScopeStack.request]
  cases act p.2 with
  | ok a s => rfl
  | error e s => rfl

theorem until_request {act : EStateM HostError σ α} {act' : EStateM HostError τ α}
    (hact : AlikeUntil R C id act act') :
    ScopingUntil R C (ScopeStack.request act) (ScopeStack.request act') where
  ends := by
    rintro ⟨stack, s⟩ ⟨stack', t⟩ ⟨hstack, hst⟩
    obtain rfl : stack = stack' := hstack
    rcases hact.ends s t hst with hfirst | ⟨e, t', hright, hcut⟩
    · simp only [ScopeStack.request]
      generalize act s = left at hfirst
      generalize act' t = right at hfirst
      cases hfirst with
      | ok hst => exact .inl (.ok ⟨rfl, hst⟩)
      | error hst => exact .inl (.error ⟨rfl, hst⟩)
    · refine .inr ⟨e, (stack, t'), by simp [ScopeStack.request, hright], ?_⟩
      rwa [CutStacks, stateOf_request]
  goesOn e p p' hcut := by
    rw [CutStacks, stateOf_request]
    exact hact.goesOn e p.2 p'.2 hcut

theorem alike_closeEntry (hosts : HostUntil R C h k) (entry : ScopeEntry) :
    Alike R (ScopeStack.closeEntry h entry) (ScopeStack.closeEntry k entry) := by
  cases entry with
  | opened handle scope => exact hosts.closeScope handle
  | placeholder level =>
    intro s t hst
    exact .ok hst

theorem closeEntry_goesOn (hosts : HostUntil R C h k) (entry : ScopeEntry) {e : HostError} {s : σ}
    {t : τ} (hcut : C e s t) : C e (stateOf (ScopeStack.closeEntry h entry s)) t := by
  cases entry with
  | opened handle scope => exact hosts.closeOn handle e s t hcut
  | placeholder level => exact hcut

theorem closeEntry_cut (hosts : HostUntil R C h k) (entry : ScopeEntry) {e : HostError} {s : σ}
    {t : τ} (hcut : C e s t) : C e s (stateOf (ScopeStack.closeEntry k entry t)) := by
  cases entry with
  | opened handle scope => exact hosts.closeCut handle e s t hcut
  | placeholder level => exact hcut

theorem until_closeEntry (hosts : HostUntil R C h k) (entry : ScopeEntry) :
    AlikeUntil R C id (ScopeStack.closeEntry h entry) (ScopeStack.closeEntry k entry) where
  ends s t hst := .inl (alike_closeEntry hosts entry s t hst)
  goesOn _ _ _ hcut := closeEntry_goesOn hosts entry hcut

theorem until_popUpTo (hosts : HostUntil R C h k) (count : Nat) :
    ScopingUntil R C (ScopeStack.popUpTo h count) (ScopeStack.popUpTo k count) := by
  induction count with
  | zero => exact until_pure _
  | succ count ih =>
    have hmore (entry : ScopeEntry) :=
      until_bind (until_request (until_closeEntry hosts entry)) fun _ => ih
    refine until_get_bind ?_ ?_
    · rintro ⟨stack, s⟩ ⟨stack', t⟩ hst
      obtain rfl : stack = stack' := hst.1
      cases stack with
      | nil => exact .inl (.ok hst)
      | cons entry rest => exact (hmore entry).ends (rest, s) (rest, t) ⟨rfl, hst.2⟩
    · rintro e ⟨stack, s⟩ p' hcut
      cases stack with
      | nil => exact hcut
      | cons entry rest => exact (hmore entry).goesOn e (rest, s) p' hcut

theorem stateOf_openOn (h : Host σ) (level : Nat) (name : String) (heading : Option String)
    (p : ScopeStack × σ) :
    (stateOf (ScopeStack.openOn h level name heading p)).2 =
      stateOf (h.openScope ⟨name, level, ScopeStack.pathOf p.1 name⟩ heading p.2) := by
  simp only [ScopeStack.openOn]
  cases h.openScope ⟨name, level, ScopeStack.pathOf p.1 name⟩ heading p.2 with
  | ok handle s => rfl
  | error e s => rfl

theorem until_openOn (hosts : HostUntil R C h k) (level : Nat) (name : String)
    (heading : Option String) :
    ScopingUntil R C (ScopeStack.openOn h level name heading)
      (ScopeStack.openOn k level name heading) where
  ends := by
    rintro ⟨stack, s⟩ ⟨stack', t⟩ ⟨hstack, hst⟩
    obtain rfl : stack = stack' := hstack
    let scope : Scope := ⟨name, level, ScopeStack.pathOf stack name⟩
    rcases (hosts.openScope scope heading).ends s t hst with hopen | ⟨e, t', hright, hcut⟩
    · simp only [ScopeStack.openOn]
      generalize h.openScope scope heading s = left at hopen
      generalize k.openScope scope heading t = right at hopen
      cases hopen with
      | ok hst => exact .inl (.ok ⟨rfl, hst⟩)
      | error hst => exact .inl (.error ⟨rfl, hst⟩)
    · refine .inr ⟨e, (stack, t'), by simp [ScopeStack.openOn, scope, hright], ?_⟩
      rwa [CutStacks, stateOf_openOn]
  goesOn e p p' hcut := by
    rw [CutStacks, stateOf_openOn]
    exact (hosts.openScope _ heading).goesOn e p.2 p'.2 hcut

theorem until_enter (hosts : HostUntil R C h k) (level : Nat) (name : String)
    (heading : Option String) :
    ScopingUntil R C (ScopeStack.enter h level name heading)
      (ScopeStack.enter k level name heading) := by
  have henter (count : Nat) :=
    until_bind (until_popUpTo hosts count) fun _ => until_openOn hosts level name heading
  by_cases hlevel : level = 0
  · subst hlevel
    exact ⟨fun _ _ hst => .inl (.error hst), fun _ _ _ hcut => hcut⟩
  · have hpos := Nat.pos_of_ne_zero hlevel
    refine ⟨?_, ?_⟩
    · rintro ⟨stack, s⟩ ⟨stack', t⟩ hst
      obtain rfl : stack = stack' := hst.1
      rw [ScopeStack.enter_eq hpos, ScopeStack.enter_eq hpos]
      exact (henter _).ends _ _ hst
    · rintro e ⟨stack, s⟩ p' hcut
      rw [ScopeStack.enter_eq hpos]
      exact (henter _).goesOn e _ p' hcut

theorem alike_closeEach (hosts : HostUntil R C h k) (stack : ScopeStack) {s : σ} {t : τ}
    (hst : R s t) :
    (ScopeStack.closeEach h stack s).1 = (ScopeStack.closeEach k stack t).1 ∧
      R (ScopeStack.closeEach h stack s).2 (ScopeStack.closeEach k stack t).2 := by
  induction stack generalizing s t with
  | nil => exact ⟨rfl, hst⟩
  | cons entry rest ih =>
    have hclose := alike_closeEntry hosts entry s t hst
    simp only [ScopeStack.closeEach]
    generalize ScopeStack.closeEntry h entry s = left at hclose
    generalize ScopeStack.closeEntry k entry t = right at hclose
    cases hclose with
    | ok hst => exact ih hst
    | error hst => exact ⟨rfl, (ih hst).2⟩

/-- The scopes behind the cut are closed, too. -/
theorem closeEach_cut (hosts : HostUntil R C h k) (stack stack' : ScopeStack) {e : HostError}
    {s : σ} {t : τ} (hcut : C e s t) :
    C e (ScopeStack.closeEach h stack s).2 (ScopeStack.closeEach k stack' t).2 := by
  have hfirst : C e (ScopeStack.closeEach h stack s).2 t := by
    induction stack generalizing s with
    | nil => exact hcut
    | cons entry rest ih =>
      rw [ScopeStack.closeEach_cons_snd]
      exact ih (closeEntry_goesOn hosts entry hcut)
  induction stack' generalizing t with
  | nil => exact hfirst
  | cons entry rest ih =>
    rw [ScopeStack.closeEach_cons_snd]
    exact ih (closeEntry_cut hosts entry hcut) (closeEntry_cut hosts entry hfirst)

/-! ### Steps of a run -/

theorem alike_onHost {act : EStateM HostError σ α} {act' : EStateM HostError τ α}
    (hact : Alike R act act') : Alike (OnRuns R) (Run.onHost act) (Run.onHost act') := by
  intro p p' hp
  have hfirst := hact _ _ hp.machine.2
  simp only [Run.onHost]
  generalize act p.machine.host = left at hfirst
  generalize act' p'.machine.host = right at hfirst
  cases hfirst with
  | ok hst => exact .ok (hp.withHost hst)
  | error hst => exact .error (hp.withHost hst)

theorem stateOf_onHost (act : EStateM HostError σ α) (p : Progress σ) :
    stateOf (Run.onHost act p) = p.withHost (stateOf (act p.machine.host)) := by
  simp only [Run.onHost]
  cases act p.machine.host with
  | ok a s => rfl
  | error e s => rfl

theorem until_onHost {act : EStateM HostError σ α} {act' : EStateM HostError τ α}
    (hact : AlikeUntil R C id act act') : RunUntil R C (Run.onHost act) (Run.onHost act') where
  ends p p' hp := by
    rcases hact.ends _ _ hp.machine.2 with hfirst | ⟨e, t, hright, hcut⟩
    · simp only [Run.onHost]
      generalize act p.machine.host = left at hfirst
      generalize act' p'.machine.host = right at hfirst
      cases hfirst with
      | ok hst => exact .inl (.ok (hp.withHost hst))
      | error hst => exact .inl (.error (hp.withHost hst))
    · refine .inr ⟨e, p'.withHost t, by simp [Run.onHost, hright, Progress.withHost], ?_⟩
      rwa [CutRuns, stateOf_onHost]
  goesOn e p p' hcut := by
    rw [CutRuns, stateOf_onHost]
    exact hact.goesOn e _ _ hcut

theorem host_onStack (act : ScopeStack.Scoping σ α) (p : Progress σ) :
    (stateOf (Run.onStack act p)).machine.host = (stateOf (act (p.stack, p.machine.host))).2 := by
  simp only [Run.onStack]
  cases act (p.stack, p.machine.host) with
  | ok a after => rfl
  | error e after => rfl

theorem until_onStack {act : ScopeStack.Scoping σ α} {act' : ScopeStack.Scoping τ α}
    (hact : ScopingUntil R C act act') : RunUntil R C (Run.onStack act) (Run.onStack act') where
  ends p p' hp := by
    rcases hact.ends (p.stack, p.machine.host) (p'.stack, p'.machine.host)
      ⟨hp.stack, hp.machine.2⟩ with hfirst | ⟨e, ⟨stack, t⟩, hright, hcut⟩
    · simp only [Run.onStack]
      generalize act (p.stack, p.machine.host) = left at hfirst
      generalize act' (p'.stack, p'.machine.host) = right at hfirst
      cases hfirst with
      | ok hst => exact .inl (.ok ⟨⟨hp.machine.1, hst.2⟩, hst.1, hp.counts⟩)
      | error hst => exact .inl (.error ⟨⟨hp.machine.1, hst.2⟩, hst.1, hp.counts⟩)
    · refine .inr ⟨e, { p' with stack, machine := { p'.machine with host := t } }, ?_, ?_⟩
      · simp [Run.onStack, hright, RunError.ofScopeError]
      · rwa [CutRuns, host_onStack]
  goesOn e p p' hcut := by
    rw [CutRuns, host_onStack]
    exact hact.goesOn e (p.stack, p.machine.host) (p'.stack, p'.machine.host) hcut

theorem until_count (step : RunCounts → RunCounts) :
    RunUntil R C (Run.count step) (Run.count step) := by
  refine until_modify ?_ fun _ _ _ hcut => hcut
  intro p p' hp
  exact ⟨hp.machine, hp.stack, congrArg step hp.counts⟩

theorem machine_tryUnit (run : Runner σ) (u : FragmentUnit) (p : Progress σ) :
    (stateOf (Run.tryUnit run u p)).machine = stateOf (run u p.machine) := by
  simp only [Run.tryUnit]
  cases run u p.machine with
  | ok a m => rfl
  | error stop m => cases stop <;> rfl

theorem until_tryUnit (hrun : RunnerUntil R C run run') (u : FragmentUnit) :
    RunUntil R C (Run.tryUnit run u) (Run.tryUnit run' u) where
  ends p p' hp := by
    rcases (hrun u).ends _ _ hp.machine with hunit | ⟨e, m, hright, hcut⟩
    · simp only [Run.tryUnit]
      generalize run u p.machine = left at hunit
      generalize run' u p'.machine = right at hunit
      cases hunit with
      | ok hm => exact .inl (.ok ⟨hm, hp.stack, hp.counts⟩)
      | @error stop m m' hm =>
        cases stop with
        | failure f => exact .inl (.ok ⟨hm, hp.stack, hp.counts⟩)
        | host e => exact .inl (.error ⟨hm, hp.stack, hp.counts⟩)
        | exhausted => exact .inl (.error ⟨hm, hp.stack, hp.counts⟩)
    · refine .inr ⟨e, { p' with machine := m }, by simp [Run.tryUnit, hright], ?_⟩
      rw [CutRuns, machine_tryUnit]
      exact hcut
  goesOn e p p' hcut := by
    rw [CutRuns, machine_tryUnit]
    exact (hrun u).goesOn e _ _ hcut

theorem until_askHost (hosts : HostUntil R C h k) (failure : FragmentError) :
    RunUntil R C (Run.askHost h failure) (Run.askHost k failure) where
  ends p p' hp := by
    have hanswer := hosts.answer failure _ _ hp.machine.2
    have hreport := hosts.report failure _ _ hp.machine.2
    simp only [Run.askHost, hanswer]
    exact .inl (.ok (hp.withHost hreport))
  goesOn e p p' hcut := hosts.reportOn failure e _ _ hcut

theorem until_dispatch (source : Source) (hosts : HostUntil R C h k)
    (hrun : RunnerUntil R C run run') (scope : Scope) (u : FragmentUnit) :
    RunUntil R C (Run.dispatch source h run scope u) (Run.dispatch source k run' scope u) := by
  refine until_bind (until_modify ?_ fun _ _ _ hcut => hcut) fun _ => ?_
  · intro p p' hp
    exact ⟨⟨congrArg (·.bindUnit scope u.name) hp.machine.1, hp.machine.2⟩, hp.stack, hp.counts⟩
  refine until_bind (until_count _) fun _ => ?_
  refine until_bind (until_tryUnit hrun u) fun failed => ?_
  cases failed with
  | none => exact until_pure _
  | some failure =>
    refine until_bind (until_askHost hosts _) fun action => ?_
    cases action with
    | halt => exact until_throw _
    | skipSection => exact until_bind (until_count _) fun _ => until_pure _
    | proceed => exact until_bind (until_count _) fun _ => until_pure _

theorem until_runContents (source : Source) (hosts : HostUntil R C h k)
    (hrun : RunnerUntil R C run run') (children : List Document.Content) :
    RunUntil R C (Run.runContents source h run children)
      (Run.runContents source k run' children) := by
  induction children with
  | nil => exact until_pure _
  | cons c rest ih =>
    refine until_get_bind ?_ ?_
    · intro p p' hp
      have hscope : (ScopeStack.current? p.stack).getD (Run.documentScope source) =
          (ScopeStack.current? p'.stack).getD (Run.documentScope source) := by
        rw [hp.stack]
      simp only [hscope]
      refine (until_bind (until_dispatch source hosts hrun _ _) fun go => ?_).ends p p' hp
      cases go with
      | next => exact ih
      | skipSection => exact until_pure _
    · intro e p p' hcut
      have hunit := (until_dispatch source hosts hrun ((ScopeStack.current? p.stack).getD
        (Run.documentScope source)) (.ofContent source c)).goesOn e p p' hcut
      refine goesOn_bind (C := CutRuns C) hunit fun go q hq => ?_
      cases go with
      | next => exact ih.goesOn e q p' hq
      | skipSection => exact hq

/-- A scope that cannot be closed is left alone behind an error. -/
theorem until_tryClose (hosts : HostUntil R C h k) (handle : Handle) :
    RunUntil R C (tryCatch (Run.onHost (h.closeScope handle)) fun _ => pure ())
      (tryCatch (Run.onHost (k.closeScope handle)) fun _ => pure ()) where
  ends p p' hp := by
    have hclose := alike_onHost (hosts.closeScope handle) p p' hp
    rw [run_tryCatch, run_tryCatch]
    generalize Run.onHost (h.closeScope handle) p = left at hclose
    generalize Run.onHost (k.closeScope handle) p' = right at hclose
    cases hclose with
    | ok hp => exact .inl (.ok hp)
    | error hp => exact .inl (.ok hp)
  goesOn e p p' hcut := by
    have hafter := hosts.closeOn handle e _ _ hcut
    rw [run_tryCatch]
    simp only [Run.onHost]
    cases hclose : h.closeScope handle p.machine.host with
    | ok a s =>
      rw [hclose] at hafter
      exact hafter
    | error e' s =>
      rw [hclose] at hafter
      exact hafter

theorem until_runHeader (source : Source) (hosts : HostUntil R C h k)
    (hrun : RunnerUntil R C run run') (header : Document.Header) :
    RunUntil R C (Run.runHeader source h run header) (Run.runHeader source k run' header) := by
  refine until_bind (until_onHost (hosts.openScope _ _)) fun handle => ?_
  refine until_bind (until_tryCatch ?_ (fun e => ?_) ?_) fun _ => ?_
  · exact until_bind (until_dispatch source hosts hrun _ _) fun _ => until_pure _
  · exact until_bind (until_tryClose hosts handle) fun _ => until_throw _
  · intro e p p' hcut
    refine ⟨p'.withHost (stateOf (k.closeScope handle p'.machine.host)), ?_,
      hosts.closeCut handle e _ _ hcut⟩
    simp only [bind, EStateM.bind, run_tryCatch, Run.onHost]
    cases k.closeScope handle p'.machine.host with
    | ok a t => rfl
    | error e' t => rfl
  · exact ⟨fun p p' hp => .inl (alike_onHost (hosts.closeScope handle) p p' hp),
      fun e p p' hcut => by
        rw [CutRuns, stateOf_onHost]
        exact hosts.closeOn handle e _ _ hcut⟩

theorem until_runSections (source : Source) (hosts : HostUntil R C h k)
    (hrun : RunnerUntil R C run run') (sections : List Document.Section) :
    RunUntil R C (Run.runSections source h run sections)
      (Run.runSections source k run' sections) := by
  induction sections with
  | nil => exact until_pure _
  | cons part rest ih =>
    refine until_bind ?_ fun _ => ih
    refine until_bind (until_count _) fun _ => ?_
    refine until_bind (until_onStack (until_enter hosts _ _ _)) fun _ => ?_
    exact until_runContents source hosts hrun part.children

theorem until_runBody (source : Source) (hosts : HostUntil R C h k)
    (hrun : RunnerUntil R C run run') (d : Document) :
    RunUntil R C (Run.runBody source h run d) (Run.runBody source k run' d) := by
  rw [Run.runBody_eq, Run.runBody_eq]
  refine until_bind ?_ fun _ => ?_
  · cases d.header with
    | none => exact until_pure _
    | some header => exact until_runHeader source hosts hrun header
  · exact until_bind (until_runContents source hosts hrun d.intro) fun _ =>
      until_runSections source hosts hrun d.sections

/-! ### Whole runs -/

/-- The same result, on machines with the same environment. -/
def EndAlike (R : σ → τ → Prop) (left : RunResult × Machine σ) (right : RunResult × Machine τ) :
    Prop :=
  left.1 = right.1 ∧ OnHosts R left.2 right.2

/-- The second run has been cut off. -/
def EndCut (C : HostError → σ → τ → Prop) (left : RunResult × Machine σ)
    (right : RunResult × Machine τ) : Prop :=
  ∃ e, right.1 = .error (.output e) ∧ CutHosts C e left.2 right.2

theorem endAlike_closeRun (hosts : HostUntil R C h k)
    {left : EStateM.Result RunError (Progress σ) Unit}
    {right : EStateM.Result RunError (Progress τ) Unit} (hbody : Matches (OnRuns R) left right) :
    EndAlike R (closeRun h left) (closeRun k right) := by
  cases hbody with
  | @ok a p p' hp =>
    have hclose := alike_closeEach hosts p.stack hp.machine.2
    simp only [closeRun, ← hp.stack, ← hp.counts, ← hclose.1]
    exact ⟨rfl, hp.machine.1, hclose.2⟩
  | @error e p p' hp =>
    have hclose := alike_closeEach hosts p.stack hp.machine.2
    simp only [closeRun, ← hp.stack]
    exact ⟨rfl, hp.machine.1, hclose.2⟩

/-- A document runs alike on hosts that treat all requests alike, until the second one breaks off.
This is so when all scopes are closed; a fatal error is reported after that. -/
theorem until_closeRun (source : Source) (hosts : HostUntil R C h k)
    (hrun : RunnerUntil R C run run') (d : Document) {m : Machine σ} {m' : Machine τ}
    (hm : OnHosts R m m') :
    let left := closeRun h (Run.runBody source h run d ⟨m, [], ⟨0, 0, 0, 0⟩⟩)
    let right := closeRun k (Run.runBody source k run' d ⟨m', [], ⟨0, 0, 0, 0⟩⟩)
    EndAlike R left right ∨ EndCut C left right := by
  have hbody := (until_runBody source hosts hrun d).ends ⟨m, [], ⟨0, 0, 0, 0⟩⟩
    ⟨m', [], ⟨0, 0, 0, 0⟩⟩ ⟨hm, rfl, rfl⟩
  dsimp only
  generalize Run.runBody source h run d ⟨m, [], ⟨0, 0, 0, 0⟩⟩ = left at hbody ⊢
  generalize Run.runBody source k run' d ⟨m', [], ⟨0, 0, 0, 0⟩⟩ = right at hbody ⊢
  rcases hbody with hmatch | ⟨e, p', rfl, hcut⟩
  · exact .inl (endAlike_closeRun hosts hmatch)
  · refine .inr ⟨e, rfl, ?_⟩
    rw [CutHosts, host_closeRun, host_closeRun]
    exact closeEach_cut hosts (stateOf left).stack p'.stack hcut

theorem RunnerAlike.until (hrun : RunnerAlike R run run') : RunnerUntil R Uncut run run' :=
  fun u => ⟨fun m m' hm => .inl (hrun u m m' hm), fun _ _ _ hcut => hcut⟩

theorem onHosts_reportFatal (hosts : HostAlike R h k) (message : String) {m : Machine σ}
    {m' : Machine τ} (hm : OnHosts R m m') :
    OnHosts R (reportFatal h message m) (reportFatal k message m') :=
  ⟨hm.1, hosts.fatal message _ _ hm.2⟩

theorem endAlike_execute (source : Source) (hosts : HostAlike R h k)
    (hrun : RunnerAlike R run run') (d : Document) {m : Machine σ} {m' : Machine τ}
    (hm : OnHosts R m m') : EndAlike R (execute source h run d m) (execute source k run' d m') := by
  have hclosed := until_closeRun source hosts.until hrun.until d hm
  simp only [execute]
  generalize closeRun h (Run.runBody source h run d ⟨m, [], ⟨0, 0, 0, 0⟩⟩) = left at hclosed
  generalize closeRun k (Run.runBody source k run' d ⟨m', [], ⟨0, 0, 0, 0⟩⟩) = right at hclosed
  obtain ⟨result, n⟩ := left
  obtain ⟨result', n'⟩ := right
  rcases hclosed with ⟨hresult, hn⟩ | ⟨e, -, hcut⟩
  · obtain rfl : result = result' := hresult
    cases result with
    | ok counts => exact ⟨rfl, hn⟩
    | error e =>
      by_cases hfragment : e.isFragment = true
      · simp only [hfragment, if_true]
        exact ⟨rfl, hn⟩
      · simp only [hfragment]
        exact ⟨rfl, onHosts_reportFatal hosts _ hn⟩
  · exact hcut.elim

/-- A document runs alike on hosts that treat all requests alike. -/
theorem endAlike_executeSource (source : Source) (hosts : HostAlike R h k)
    (hrun : RunnerAlike R run run') {m : Machine σ} {m' : Machine τ} (hm : OnHosts R m m') :
    EndAlike R (executeSource source h run m) (executeSource source k run' m') := by
  unfold executeSource
  by_cases hempty : source.text.isEmpty = true
  · simp only [hempty, if_true]
    exact ⟨rfl, onHosts_reportFatal hosts _ hm⟩
  · simp only [hempty]
    cases Document.parse source.text.toList with
    | error e => exact ⟨rfl, onHosts_reportFatal hosts _ hm⟩
    | ok d => exact endAlike_execute source hosts hrun d hm

end LiveDoc
