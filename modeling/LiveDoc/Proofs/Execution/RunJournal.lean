import LiveDoc.Proofs.Execution.CallLog

/-!
The journal of a run. It holds what the run itself asks of its host, and each fragment with the
calls that it makes and with what stops it. In it one can tell whose call a call is, and what was
handed back by a fragment before the run went on. Without its journal, the run is the plain one.
-/
namespace LiveDoc

open Outcome

inductive RunEvent where
  /-- A call that the run makes itself. -/
  | own (call : HostCall)
  | unit (u : FragmentUnit) (calls : List HostCall) (stop : Option FragmentStop)

namespace RunEvent

def calls : RunEvent → List HostCall
  | own call => [call]
  | unit _ calls _ => calls

end RunEvent

/-- The state of a host with the events of a run so far, oldest first. -/
structure Journaled (σ : Type) where
  inner : σ
  events : List RunEvent

namespace Journaled

variable {σ α : Type}

/-- The journal with the calls of a step of the run itself. -/
def withOwn (j : Journaled σ) (l : Logged σ) : Journaled σ :=
  ⟨l.inner, j.events ++ l.calls.map .own⟩

def own (act : EStateM HostError (Logged σ) α) : EStateM HostError (Journaled σ) α := fun j =>
  match act ⟨j.inner, []⟩ with
  | .ok a l => .ok a (j.withOwn l)
  | .error e l => .error e (j.withOwn l)

def host (h : Host σ) : Host (Journaled σ) where
  openScope scope heading := own ((Logged.host h).openScope scope heading)
  closeScope handle := own ((Logged.host h).closeScope handle)
  emitText text := own ((Logged.host h).emitText text)
  reportError e j :=
    let (action, l) := (Logged.host h).reportError e ⟨j.inner, []⟩
    (action, j.withOwn l)
  reportFatal message j := j.withOwn ((Logged.host h).reportFatal message ⟨j.inner, []⟩)
  note text j := j.withOwn ((Logged.host h).note text ⟨j.inner, []⟩)

/-- A request of the run is one event, whatever comes of it. -/
theorem events_own_request (act : EStateM HostError σ α) (call : Except HostError α → HostCall)
    (j : Journaled σ) : (stateOf (own (Logged.request act call) j)).events =
      j.events ++ [.own (call (resultOf (act j.inner)))] := by
  simp only [own, Logged.request]
  cases act j.inner with
  | ok a s => rfl
  | error e s => rfl

/-- Runs each fragment on a log of its own. -/
def runner (run : Runner (Logged σ)) : Runner (Journaled σ) := fun u m =>
  let after (n : Machine (Logged σ)) (stop : Option FragmentStop) : Machine (Journaled σ) :=
    ⟨n.environment, ⟨n.host.inner, m.host.events ++ [.unit u n.host.calls stop]⟩⟩
  match run u ⟨m.environment, ⟨m.host.inner, []⟩⟩ with
  | .ok _ n => .ok () (after n none)
  | .error stop n => .error stop (after n (some stop))

/-- The state of a host with a journal belongs to that of the plain one. -/
def Of (j : Journaled σ) (s : σ) : Prop := j.inner = s

theorem alike_own {act : EStateM HostError (Logged σ) α} {act' : EStateM HostError σ α}
    (hact : Alike Logged.Of act act') : Alike Of (own act) act' := by
  intro j s hj
  have hfirst := hact ⟨j.inner, []⟩ s hj
  simp only [own]
  generalize act ⟨j.inner, []⟩ = left at hfirst
  generalize act' s = right at hfirst
  cases hfirst with
  | ok hl => exact .ok hl
  | error hl => exact .error hl

theorem hostAlike (h : Host σ) : HostAlike Of (host h) h where
  emit _ := alike_own ((Logged.hostAlike h).emit _)
  openScope _ _ := alike_own ((Logged.hostAlike h).openScope _ _)
  closeScope _ := alike_own ((Logged.hostAlike h).closeScope _)
  note text _ _ hj := congrArg (h.note text) hj
  answer e _ _ hj := congrArg (fun s => (h.reportError e s).1) hj
  report e _ _ hj := congrArg (fun s => (h.reportError e s).2) hj
  fatal message _ _ hj := congrArg (h.reportFatal message) hj

theorem runnerAlike {run : Runner (Logged σ)} {run' : Runner σ}
    (hrun : RunnerAlike Logged.Of run run') : RunnerAlike Of (runner run) run' := by
  rintro u m m' ⟨henv, hhost⟩
  have hunit := hrun u ⟨m.environment, ⟨m.host.inner, []⟩⟩ m' ⟨henv, hhost⟩
  simp only [runner]
  generalize run u ⟨m.environment, ⟨m.host.inner, []⟩⟩ = left at hunit
  generalize run' u m' = right at hunit
  cases hunit with
  | ok hm => exact .ok ⟨hm.1, hm.2⟩
  | error hm => exact .error ⟨hm.1, hm.2⟩

end Journaled

/-- The run of a source with its journal, which is empty at first. -/
def executeJournaled {σ : Type} (source : Source) (h : Host σ) (run : Runner (Logged σ))
    (m : Machine σ) : RunResult × Machine (Journaled σ) :=
  executeSource source (Journaled.host h) (Journaled.runner run) ⟨m.environment, ⟨m.host, []⟩⟩

theorem executeSource_eq_journaled {σ : Type} (source : Source) (h : Host σ) (rounds : Nat)
    (m : Machine σ) :
    executeSource source h (programRunner h rounds) m =
      let journaled := executeJournaled source h (programRunner (Logged.host h) rounds) m
      (journaled.1, ⟨journaled.2.environment, journaled.2.host.inner⟩) := by
  have hprograms : RunnerAlike Logged.Of (programRunner (Logged.host h) rounds)
      (programRunner h rounds) := fun u =>
    alike_runFragment (Logged.hostAlike h).toServeAlike rounds u.fragment
  have hstart : OnHosts Journaled.Of (⟨m.environment, ⟨m.host, []⟩⟩ : Machine (Journaled σ)) m :=
    ⟨rfl, rfl⟩
  obtain ⟨hresult, henv, hhost⟩ := endAlike_executeSource source (Journaled.hostAlike h)
    (Journaled.runnerAlike hprograms) hstart
  refine Prod.ext hresult.symm ?_
  dsimp only
  rw [executeJournaled, henv, hhost]

end LiveDoc
