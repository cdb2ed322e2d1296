import LiveDoc.Execution.FragmentUnit
import LiveDoc.Value

/-!
The surroundings that a document runs in. A host opens and closes scopes and takes the text that
fragments emit, and each of these can fail. It decides how the run goes on after a failure of a
fragment. Its state is kept by what fails, too.
-/
namespace LiveDoc

inductive HostError where
  | io (message : String)
  /-- The host does not grant a request. -/
  | rejected (message : String)
deriving DecidableEq, Repr

def HostError.message : HostError → String
  | io message => message
  | rejected message => message

/-- The answer to a failure of a fragment. -/
inductive ErrorAction where
  /-- The run ends. -/
  | halt
  /-- The rest of the section is left out. -/
  | skipSection
  | proceed
deriving DecidableEq, Repr

namespace ErrorAction

def all : List ErrorAction := [halt, skipSection, proceed]

def name : ErrorAction → String
  | halt => "halt"
  | skipSection => "skip-section"
  | proceed => "continue"

def ofName? (name : String) : Option ErrorAction := all.find? (·.name == name)

def unknownMessage (name : String) : String :=
  "unknown error action '" ++ name ++ "' (expected halt, skip-section or continue)"

end ErrorAction

abbrev Handle := Nat

structure Host (σ : Type) where
  openScope : Scope → (heading : Option String) → EStateM HostError σ Handle
  closeScope : Handle → EStateM HostError σ Unit
  emitText : String → EStateM HostError σ Unit
  reportError : FragmentError → σ → ErrorAction × σ
  reportFatal : String → σ → σ
  note : String → σ → σ

end LiveDoc
