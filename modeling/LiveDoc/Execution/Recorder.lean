import LiveDoc.Execution.Runner

/-!
A host that writes down what it is asked for. A plan says which requests it refuses and how it
answers failures; refused requests are not written down.
-/
namespace LiveDoc

inductive HostEvent where
  | opened (handle : Handle) (scope : Scope) (heading : Option String)
  | closed (handle : Handle)
  | emitted (text : String)
  | reported (e : FragmentError) (action : ErrorAction)
  | fatal (message : String)
deriving DecidableEq

/-- What a recording host refuses and answers. -/
structure RecordingPlan where
  /-- The answers to failures in order; the last one is repeated. -/
  actions : List ErrorAction
  /-- The numbers of the emissions that fail, counted from one. -/
  failedEmits : List Nat
  refusedNames : List String
  failedCloses : List Handle

/-- What was asked for, newest first, and the numbers of what comes next. -/
structure Recorder where
  nextHandle : Handle
  nextEmit : Nat
  nextReport : Nat
  events : List HostEvent
  notes : List String
deriving DecidableEq

namespace Recorder

def initial : Recorder := ⟨1, 1, 0, [], []⟩

def add (r : Recorder) (e : HostEvent) : Recorder := { r with events := e :: r.events }

def openScope (plan : RecordingPlan) (scope : Scope) (heading : Option String) :
    EStateM HostError Recorder Handle := fun r =>
  if plan.refusedNames.contains scope.name then
    .error (.rejected ("cannot open " ++ scope.name)) r
  else
    .ok r.nextHandle
      { r.add (.opened r.nextHandle scope heading) with nextHandle := r.nextHandle + 1 }

def closeScope (plan : RecordingPlan) (handle : Handle) : EStateM HostError Recorder Unit :=
  fun r =>
    if plan.failedCloses.contains handle then
      .error (.rejected ("cannot close " ++ handle.repr)) r
    else .ok () (r.add (.closed handle))

def emitText (plan : RecordingPlan) (text : String) : EStateM HostError Recorder Unit :=
  fun r =>
    let counted := { r with nextEmit := r.nextEmit + 1 }
    if plan.failedEmits.contains r.nextEmit then .error (.io "disk full") counted
    else .ok () (counted.add (.emitted text))

def answer (plan : RecordingPlan) (n : Nat) : ErrorAction :=
  (plan.actions[n]?.or plan.actions.getLast?).getD .halt

def reportError (plan : RecordingPlan) (e : FragmentError) (r : Recorder) :
    ErrorAction × Recorder :=
  let action := answer plan r.nextReport
  (action, { r.add (.reported e action) with nextReport := r.nextReport + 1 })

def host (plan : RecordingPlan) : Host Recorder where
  openScope := openScope plan
  closeScope := closeScope plan
  emitText := emitText plan
  reportError := reportError plan
  reportFatal message r := r.add (.fatal message)
  note text r := { r with notes := text :: r.notes }

end Recorder

/-! ### Fragments that are only written down -/

/-- What is known of a fragment when it is run. -/
structure UnitRecord where
  unit : FragmentUnit
  /-- The values of the names that tell a fragment its scope and its place. -/
  scope : Option Value
  place : Option Value

/-- A host together with the fragments that were run on it, newest first. -/
structure WithUnits (σ : Type) where
  inner : σ
  units : List UnitRecord

namespace WithUnits

variable {σ α : Type}

def lift (act : EStateM HostError σ α) : EStateM HostError (WithUnits σ) α := fun w =>
  match act w.inner with
  | .ok a s => .ok a { w with inner := s }
  | .error e s => .error e { w with inner := s }

/-- The host with the fragments kept beside it. -/
def host (h : Host σ) : Host (WithUnits σ) where
  openScope scope heading := lift (h.openScope scope heading)
  closeScope handle := lift (h.closeScope handle)
  emitText text := lift (h.emitText text)
  reportError e w :=
    let (action, s) := h.reportError e w.inner
    (action, { w with inner := s })
  reportFatal message w := { w with inner := h.reportFatal message w.inner }
  note text w := { w with inner := h.note text w.inner }

/-- Writes down each fragment instead of running it, and fails those that `failures` names. -/
def runner (failures : List (Nat × Failure)) : Runner (WithUnits σ) := fun u m =>
  let env := m.environment
  let record : UnitRecord := ⟨u, env.get? "self", env.get? "__file__"⟩
  let number := m.host.units.length
  let m := { m with host := { m.host with units := record :: m.host.units } }
  match failures.lookup number with
  | some f => .error (.failure f) m
  | none => .ok () m

end WithUnits

end LiveDoc
