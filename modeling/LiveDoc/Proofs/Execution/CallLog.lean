import LiveDoc.Proofs.Execution.Simulation

/-!
A run beside a log. The log holds every call of the host with what came of it, and the fragments
in the order in which they are started. Keeping it changes nothing: without the log, the run is
the one on the plain host.
-/
namespace LiveDoc

/-- What a run asks of its host, and the fragments that it starts. -/
inductive HostCall where
  | started (u : FragmentUnit)
  | opened (scope : Scope) (heading : Option String) (result : Except HostError Handle)
  | closed (handle : Handle) (result : Except HostError Unit)
  | emitted (text : String) (result : Except HostError Unit)
  | reported (e : FragmentError) (action : ErrorAction)
  | fatal (message : String)
  | noted (text : String)

/-- The state of a host with the calls so far, oldest first. -/
structure Logged (σ : Type) where
  inner : σ
  calls : List HostCall

namespace Logged

variable {σ α : Type}

def add (l : Logged σ) (s : σ) (call : HostCall) : Logged σ := ⟨s, l.calls ++ [call]⟩

def request (act : EStateM HostError σ α) (call : Except HostError α → HostCall) :
    EStateM HostError (Logged σ) α := fun l =>
  match act l.inner with
  | .ok a s => .ok a (l.add s (call (.ok a)))
  | .error e s => .error e (l.add s (call (.error e)))

theorem stateOf_request (act : EStateM HostError σ α) (call : Except HostError α → HostCall)
    (l : Logged σ) : Outcome.stateOf (request act call l) =
      l.add (Outcome.stateOf (act l.inner)) (call (Outcome.resultOf (act l.inner))) := by
  simp only [request]
  cases act l.inner with
  | ok a s => rfl
  | error e s => rfl

/-- The host with a log of its calls. -/
def host (h : Host σ) : Host (Logged σ) where
  openScope scope heading := request (h.openScope scope heading) (.opened scope heading)
  closeScope handle := request (h.closeScope handle) (.closed handle)
  emitText text := request (h.emitText text) (.emitted text)
  reportError e l :=
    let (action, s) := h.reportError e l.inner
    (action, l.add s (.reported e action))
  reportFatal message l := l.add (h.reportFatal message l.inner) (.fatal message)
  note text l := l.add (h.note text l.inner) (.noted text)

/-- Runs fragments as programs and writes down each one first. -/
def runner (h : Host σ) (rounds : Nat) : Runner (Logged σ) := fun u m =>
  programRunner (host h) rounds u { m with host := m.host.add m.host.inner (.started u) }

/-- The state of a logged host belongs to that of the plain one. -/
def Of (l : Logged σ) (s : σ) : Prop := l.inner = s

theorem alike_request (act : EStateM HostError σ α) (call : Except HostError α → HostCall) :
    Alike Of (request act call) act := by
  rintro l s hl
  obtain rfl : l.inner = s := hl
  simp only [request]
  cases act l.inner with
  | ok a s => exact .ok rfl
  | error e s => exact .error rfl

theorem hostAlike (h : Host σ) : HostAlike Of (host h) h where
  emit _ := alike_request _ _
  openScope _ _ := alike_request _ _
  closeScope _ := alike_request _ _
  note text _ _ hl := congrArg (h.note text) hl
  answer e _ _ hl := congrArg (fun s => (h.reportError e s).1) hl
  report e _ _ hl := congrArg (fun s => (h.reportError e s).2) hl
  fatal message _ _ hl := congrArg (h.reportFatal message) hl

theorem runnerAlike (h : Host σ) (rounds : Nat) :
    RunnerAlike Of (runner h rounds) (programRunner h rounds) := by
  intro u m m' hm
  exact alike_runFragment (hostAlike h).toServeAlike rounds u.fragment _ m' hm

/-- The run of a document beside a log, which is empty at first. -/
def executeSource (source : Source) (h : Host σ) (rounds : Nat) (m : Machine σ) :
    RunResult × Machine (Logged σ) :=
  LiveDoc.executeSource source (host h) (runner h rounds) ⟨m.environment, ⟨m.host, []⟩⟩

/-- The plain run is the logged one without its log. -/
theorem executeSource_eq (source : Source) (h : Host σ) (rounds : Nat) (m : Machine σ) :
    LiveDoc.executeSource source h (programRunner h rounds) m =
      let logged := executeSource source h rounds m
      (logged.1, ⟨logged.2.environment, logged.2.host.inner⟩) := by
  have hstart : OnHosts Of (⟨m.environment, ⟨m.host, []⟩⟩ : Machine (Logged σ)) m := ⟨rfl, rfl⟩
  have hend := endAlike_executeSource source (hostAlike h) (runnerAlike h rounds) hstart
  obtain ⟨hresult, henv, hhost⟩ := hend
  refine Prod.ext hresult.symm ?_
  dsimp only
  rw [executeSource, henv, hhost]

/-! ### Emitted texts -/

/-- The texts that are emitted before another fragment is started. -/
def textsEmitted : List HostCall → List String
  | [] => []
  | .started _ :: _ => []
  | .emitted text (.ok _) :: rest => text :: textsEmitted rest
  | _ :: rest => textsEmitted rest

/-- The fragments in order, each with the texts that it emitted. -/
def unitTexts : List HostCall → List (FragmentUnit × List String)
  | [] => []
  | .started u :: rest => (u, textsEmitted rest) :: unitTexts rest
  | _ :: rest => unitTexts rest

theorem textsEmitted_append {a b : List HostCall} (h : textsEmitted b = []) :
    textsEmitted (a ++ b) = textsEmitted a := by
  induction a with
  | nil => exact h
  | cons call rest ih =>
    cases call with
    | started u => rfl
    | emitted text result =>
      cases result with
      | ok => exact congrArg (List.cons text) ih
      | error e => exact ih
    | _ => exact ih

theorem unitTexts_append {a b : List HostCall} (h : textsEmitted b = []) :
    unitTexts (a ++ b) = unitTexts a ++ unitTexts b := by
  induction a with
  | nil => rfl
  | cons call rest ih =>
    cases call with
    | started u =>
      rw [List.cons_append, unitTexts, unitTexts, textsEmitted_append h, ih]
      rfl
    | _ => exact ih

end Logged

end LiveDoc
