import LiveDoc.Document.Parse
import LiveDoc.Execution.Runner
import LiveDoc.Execution.ScopeStack

/-!
The run of a document: its header in a scope of its own, the content before the first heading, and
then each section in a scope that its heading opens. All fragments share one environment. The host
answers a failure of a fragment; an error of the host itself ends the run. All scopes are closed
in the end, and an error other than an answered failure is reported as fatal.
-/
namespace LiveDoc

structure RunCounts where
  units : Nat
  codeUnits : Nat
  sections : Nat
  /-- The failures after which the run went on. -/
  errors : Nat
deriving DecidableEq, Repr

/-- Why a run has no result. -/
inductive RunError where
  | emptyInput
  | unreadable (e : Document.StructureError)
  | scope (e : ScopeError)
  | output (e : HostError)
  /-- A failure that the host answered with a halt. -/
  | fragment (e : FragmentError)
  | exhausted
deriving DecidableEq

namespace RunError

def ofScopeError : ScopeError → RunError
  | .host e => .output e
  | e => .scope e

def message : RunError → String
  | emptyInput => "empty document"
  | unreadable e => e.message
  | scope e => "scope reconciliation failed: " ++ e.message
  | output e => "output error: " ++ e.message
  | fragment e => e.text
  | exhausted => "a loop has used up its rounds"

def isFragment : RunError → Bool
  | fragment _ => true
  | _ => false

def diagnostic (fileId : Nat) : RunError → Diagnostic
  | unreadable e => e.diagnostic fileId
  | fragment e => e.diagnostic
  | e => ⟨e.message, [], []⟩

end RunError

/-- How far a run has come. -/
structure Progress (σ : Type) where
  machine : Machine σ
  stack : ScopeStack
  counts : RunCounts

/-- How the content of a section goes on after a fragment. -/
inductive Continuation where
  | next
  | skipSection
deriving DecidableEq, Repr

abbrev Run (σ : Type) := EStateM RunError (Progress σ)

namespace Run

variable {σ α : Type}

def onHost (act : EStateM HostError σ α) : Run σ α := fun p =>
  match act p.machine.host with
  | .ok a s => .ok a { p with machine := { p.machine with host := s } }
  | .error e s => .error (.output e) { p with machine := { p.machine with host := s } }

def onStack (act : ScopeStack.Scoping σ α) : Run σ α := fun p =>
  match act (p.stack, p.machine.host) with
  | .ok a (stack, s) => .ok a { p with stack, machine := { p.machine with host := s } }
  | .error e (stack, s) =>
    .error (.ofScopeError e) { p with stack, machine := { p.machine with host := s } }

def count (step : RunCounts → RunCounts) : Run σ Unit :=
  modify fun p => { p with counts := step p.counts }

/-- Runs a fragment and hands back its failure, if it fails. -/
def tryUnit (run : Runner σ) (u : FragmentUnit) : Run σ (Option Failure) := fun p =>
  match run u p.machine with
  | .ok _ m => .ok none { p with machine := m }
  | .error (.failure f) m => .ok (some f) { p with machine := m }
  | .error (.host e) m => .error (.output e) { p with machine := m }
  | .error .exhausted m => .error .exhausted { p with machine := m }

def askHost (h : Host σ) (e : FragmentError) : Run σ ErrorAction := fun p =>
  let (action, s) := h.reportError e p.machine.host
  .ok action { p with machine := { p.machine with host := s } }

def countUnit (u : FragmentUnit) (c : RunCounts) : RunCounts :=
  { c with
    units := c.units + 1
    codeUnits := if u.isCode then c.codeUnits + 1 else c.codeUnits }

def countError (c : RunCounts) : RunCounts := { c with errors := c.errors + 1 }

def countSection (c : RunCounts) : RunCounts := { c with sections := c.sections + 1 }

/-- Runs one fragment in the given scope and settles its failure with the host. -/
def dispatch (source : Source) (h : Host σ) (run : Runner σ) (scope : Scope) (u : FragmentUnit) :
    Run σ Continuation := do
  modify fun p =>
    { p with machine :=
      { p.machine with environment := p.machine.environment.bindUnit scope u.name } }
  count (countUnit u)
  match ← tryUnit run u with
  | none => pure .next
  | some failure => do
    let e := FragmentError.ofFailure source u failure
    match ← askHost h e with
    | .halt => throw (.fragment e)
    | .skipSection => do
      count countError
      pure .skipSection
    | .proceed => do
      count countError
      pure .next

def headerScope : Scope := ⟨"header", 0, "/header"⟩

def documentScope (source : Source) : Scope := ⟨source.name, 0, "/"⟩

/-- The header's scope is closed even if its fragment ends the run; the earlier error counts. -/
def runHeader (source : Source) (h : Host σ) (run : Runner σ) (header : Document.Header) :
    Run σ Unit := do
  let handle ← onHost (h.openScope headerScope none)
  let u := FragmentUnit.ofText source (.header header)
  try
    let _ ← dispatch source h run headerScope u
  catch e =>
    try onHost (h.closeScope handle) catch _ => pure ()
    throw e
  onHost (h.closeScope handle)

/-- Runs pieces of content in order up to one whose failure skips the rest. -/
def runContents (source : Source) (h : Host σ) (run : Runner σ) :
    List Document.Content → Run σ Unit
  | [] => pure ()
  | c :: rest => do
    let scope := (ScopeStack.current? (← get).stack).getD (documentScope source)
    match ← dispatch source h run scope (.ofContent source c) with
    | .skipSection => pure ()
    | .next => runContents source h run rest

def runSection (source : Source) (h : Host σ) (run : Runner σ) (part : Document.Section) :
    Run σ Unit := do
  count countSection
  let heading := part.heading
  let _ ← onStack
    (ScopeStack.enter h heading.level heading.title (some (String.ofList heading.raw)))
  runContents source h run part.children

def runSections (source : Source) (h : Host σ) (run : Runner σ) :
    List Document.Section → Run σ Unit
  | [] => pure ()
  | part :: rest => do
    runSection source h run part
    runSections source h run rest

def runBody (source : Source) (h : Host σ) (run : Runner σ) (d : Document) : Run σ Unit := do
  match d.header with
  | some header => runHeader source h run header
  | none => pure ()
  runContents source h run d.intro
  runSections source h run d.sections

end Run

variable {σ : Type}

abbrev RunResult := Except RunError RunCounts

/-- The result of a run after all scopes are closed; an earlier error counts. -/
def closeRun (h : Host σ) (outcome : EStateM.Result RunError (Progress σ) Unit) :
    RunResult × Machine σ :=
  match outcome with
  | .error e p =>
    let (_, s) := ScopeStack.closeEach h p.stack p.machine.host
    (.error e, { p.machine with host := s })
  | .ok _ p =>
    let (closed, s) := ScopeStack.closeEach h p.stack p.machine.host
    (match closed with
      | none => .ok p.counts
      | some e => .error (.output e), { p.machine with host := s })

def reportFatal (h : Host σ) (message : String) (m : Machine σ) : Machine σ :=
  { m with host := h.reportFatal message m.host }

def execute (source : Source) (h : Host σ) (run : Runner σ) (d : Document) (m : Machine σ) :
    RunResult × Machine σ :=
  let (result, m) := closeRun h (Run.runBody source h run d ⟨m, [], ⟨0, 0, 0, 0⟩⟩)
  match result with
  | .error e => (result, if e.isFragment then m else reportFatal h e.message m)
  | .ok _ => (result, m)

/-- Reads a document and runs it. -/
def executeSource (source : Source) (h : Host σ) (run : Runner σ) (m : Machine σ) :
    RunResult × Machine σ :=
  if source.text.isEmpty then
    (.error .emptyInput, reportFatal h RunError.emptyInput.message m)
  else
    match Document.parse source.text.toList with
    | .error e => (.error (.unreadable e), reportFatal h e.message m)
    | .ok d => execute source h run d m

end LiveDoc
