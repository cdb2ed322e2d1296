import LiveDoc.Evaluation.Expression

/-!
The running of statements. A fault is met on the line of the innermost statement it arises in, and
what was done before it stays done. A `while` loop may go on for ever, so each one is given a
number of rounds; to need more is an outcome of its own.
-/
namespace LiveDoc

/-- What statements work on. -/
structure Machine (σ : Type) where
  environment : Environment
  host : σ

/-- Why statements stop early. -/
inductive Interrupt where
  | raised (f : Fault) (line : Nat)
  | host (e : HostError)
  /-- A loop has used up its rounds. -/
  | exhausted

/-- How a statement hands on the control. -/
inductive Flow where
  | normal
  | breakLoop
  | continueLoop
deriving DecidableEq, Repr

abbrev Execution (σ : Type) := EStateM Interrupt (Machine σ)

namespace Execution

variable {σ α : Type}

/-- An evaluation within a statement that stands on the given line. -/
def evaluate (line : Nat) (act : Environment → Evaluation σ α) : Execution σ α := fun m =>
  match act m.environment m.host with
  | .ok a s => .ok a { m with host := s }
  | .error (.fault f) s => .error (.raised f line) { m with host := s }
  | .error (.host e) s => .error (.host e) { m with host := s }

/-- A computation from the environment. -/
def compute (line : Nat) (act : Environment → Except Fault α) : Execution σ α :=
  evaluate line fun env => Evaluation.settle (act env)

def setLocal (name : String) (v : Value) : Execution σ Unit :=
  modify fun m => { m with environment := m.environment.set name v }

def setEnvironment (env : Environment) : Execution σ Unit :=
  modify fun m => { m with environment := env }

/-- Runs `body` with each of the values, until it breaks off. -/
def visitAll (body : Value → Execution σ Flow) : List Value → Execution σ Flow
  | [] => pure .normal
  | v :: rest => do
    match ← body v with
    | .breakLoop => pure .normal
    | _ => visitAll body rest

/-- Runs `body` as long as `test` holds, until it breaks off. -/
def repeatWhile (test : Execution σ Bool) (body : Execution σ Flow) :
    (rounds : Nat) → Execution σ Flow
  | 0 => throw .exhausted
  | rounds + 1 => do
    if ← test then
      match ← body with
      | .breakLoop => pure .normal
      | _ => repeatWhile test body rounds
    else pure .normal

end Execution

open Execution

variable {σ : Type}

namespace Fragment

/-- A name that is not bound and stands for an exception, alone or in a call. -/
def exceptionName? (env : Environment) : Expr → Option String
  | .name s => if env.contains s then none else some s
  | .call (.name s) _ _ => if env.contains s then none else some s
  | _ => none

/-- The message of an exception is the text of the first argument of the call. -/
def exceptionMessage (h : Host σ) (env : Environment) : Expr → Evaluation σ String
  | .call _ (first :: _) _ => do return (← first.eval h env).text
  | _ => pure ""

/-- The fault that a `raise` statement stands for. -/
def raisedFault (h : Host σ) (what : Option Expr) (env : Environment) : Evaluation σ Fault :=
  match what with
  | none => pure .nothingRaised
  | some e =>
    match exceptionName? env e with
    | some name => do return .raised name (← exceptionMessage h env e)
    | none => do return .notAnException (← e.eval h env).kind

def runAssign (h : Host σ) (line : Nat) (target : Target) (value : Expr) : Execution σ Unit := do
  let v ← evaluate line (value.eval h ·)
  match target with
  | .name s => setLocal s v
  | .item s index => do
    let i ← evaluate line (index.eval h ·)
    setEnvironment (← compute line (·.store s i v))

def runUpdate (h : Host σ) (line : Nat) (target : Target) (op : BinaryOp) (value : Expr) :
    Execution σ Unit := do
  match target with
  | .name s => do
    let current ← compute line (·.load s)
    let v ← evaluate line (value.eval h ·)
    setLocal s (← compute line fun _ => Value.binary op current v)
  | .item s index => do
    let i ← evaluate line (index.eval h ·)
    let current ← compute line fun env => do (← env.load s).item i
    let v ← evaluate line (value.eval h ·)
    let result ← compute line fun _ => Value.binary op current v
    setEnvironment (← compute line (·.store s i result))

def runRaise (h : Host σ) (line : Nat) (what : Option Expr) : Execution σ Unit := do
  let fault ← evaluate line (raisedFault h what)
  throw (.raised fault line)

def runAssert (h : Host σ) (line : Nat) (test : Expr) (message : Option Expr) :
    Execution σ Unit := do
  let v ← evaluate line (test.eval h ·)
  if ! v.isTrue then
    let text ← match message with
      | none => pure ""
      | some e => do pure (← evaluate line (e.eval h ·)).text
    throw (.raised (.assertion text) line)

def holds (h : Host σ) (line : Nat) (condition : Expr) : Execution σ Bool := do
  return (← evaluate line (condition.eval h ·)).isTrue

mutual

def Stmt.run (h : Host σ) (rounds : Nat) : Stmt → Execution σ Flow
  | .mk line action => action.run h rounds line

def Action.run (h : Host σ) (rounds line : Nat) : Action → Execution σ Flow
  | .evaluate e => do
    let _ ← Execution.evaluate line (e.eval h ·)
    pure .normal
  | .assign target value => do
    runAssign h line target value
    pure .normal
  | .update target op value => do
    runUpdate h line target op value
    pure .normal
  | .choose branches otherwise => runBranches h rounds line (runBlock h rounds otherwise) branches
  | .forEach name items body => do
    let values ← Execution.evaluate line fun env => do
      Evaluation.settle (← items.eval h env).visited
    let visit (v : Value) : Execution σ Flow := do
      setLocal name v
      runBlock h rounds body
    visitAll visit values
  | .whileTrue condition body =>
    repeatWhile (holds h line condition) (runBlock h rounds body) rounds
  | .breakLoop => pure .breakLoop
  | .continueLoop => pure .continueLoop
  | .pass => pure .normal
  | .raise what => do
    runRaise h line what
    pure .normal
  | .assert test message => do
    runAssert h line test message
    pure .normal

/-- Runs the block of the first branch whose condition holds. -/
def runBranches (h : Host σ) (rounds line : Nat) (otherwise : Execution σ Flow) :
    List (Expr × List Stmt) → Execution σ Flow
  | [] => otherwise
  | (condition, body) :: rest => do
    if ← holds h line condition then runBlock h rounds body
    else runBranches h rounds line otherwise rest

/-- Runs statements in order up to one that leaves the block. -/
def runBlock (h : Host σ) (rounds : Nat) : List Stmt → Execution σ Flow
  | [] => pure .normal
  | s :: rest => do
    match ← s.run h rounds with
    | .normal => runBlock h rounds rest
    | flow => pure flow

end

end Fragment

end LiveDoc
