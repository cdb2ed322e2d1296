import LiveDoc.Fault
import LiveDoc.Fragment.SyntaxError

/-!
Why a fragment fails, with a line of the fragment: it cannot be read, or one of its statements
raises an exception. Both are told apart by a name of an exception and a message.
-/
namespace LiveDoc

inductive FailureKind where
  /-- No statement was run. -/
  | syntaxError
  | runtimeError
deriving DecidableEq, Repr

def FailureKind.name : FailureKind → String
  | syntaxError => "syntax error"
  | runtimeError => "runtime error"

structure Failure where
  kind : FailureKind
  exception : String
  message : String
  line : Nat
deriving DecidableEq, Repr

namespace Failure

def ofSyntaxError (e : Fragment.SyntaxError) : Failure :=
  ⟨.syntaxError, e.exception, e.message, e.line⟩

def ofFault (f : Fault) (line : Nat) : Failure := ⟨.runtimeError, f.exception, f.message, line⟩

/-- The exception, and its message if there is one. -/
def text (f : Failure) : String :=
  if f.message.isEmpty then f.exception else f.exception ++ ": " ++ f.message

end Failure

end LiveDoc
