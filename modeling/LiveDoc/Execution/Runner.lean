import LiveDoc.Evaluation.Statement
import LiveDoc.Fragment.ParseProgram

/-!
The running of one fragment. A fragment that cannot be read fails before any of its statements is
run.
-/
namespace LiveDoc

/-- Why a fragment is not run to its end. -/
inductive FragmentStop where
  | failure (f : Failure)
  | host (e : HostError)
  | exhausted

abbrev Runner (σ : Type) := FragmentUnit → EStateM FragmentStop (Machine σ) Unit

variable {σ : Type}

def FragmentStop.ofInterrupt : Interrupt → FragmentStop
  | .raised f line => .failure (.ofFault f line)
  | .host e => .host e
  | .exhausted => .exhausted

/-- The statements of a program in order. -/
def runProgram (h : Host σ) (rounds : Nat) (program : Fragment.Program) :
    EStateM FragmentStop (Machine σ) Unit := fun m =>
  match Fragment.runBlock h rounds program m with
  | .ok _ m => .ok () m
  | .error i m => .error (.ofInterrupt i) m

def runFragment (h : Host σ) (rounds : Nat) (fragment : List Char) :
    EStateM FragmentStop (Machine σ) Unit :=
  match Fragment.parseProgram fragment with
  | .ok program => runProgram h rounds program
  | .error e => throw (.failure (.ofSyntaxError e))

/-- Runs fragments as programs of the fragment language. -/
def programRunner (h : Host σ) (rounds : Nat) : Runner σ :=
  fun u => runFragment h rounds u.fragment

end LiveDoc
