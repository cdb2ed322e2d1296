import LiveDoc.Value.Item

/-!
The names that the fragments of a document share. A name is looked up among the local bindings and
then among the global ones, which hold the built-in functions at first. Fragments bind names
locally only.
-/
namespace LiveDoc

structure Environment where
  locals : List (String × Value)
  globals : List (String × Value)

namespace Environment

def initial : Environment := ⟨[], Builtin.all.map fun f => (f.name, .builtin f)⟩

def get? (env : Environment) (name : String) : Option Value :=
  (env.locals.lookup name).or (env.globals.lookup name)

def contains (env : Environment) (name : String) : Bool := (env.get? name).isSome

def set (env : Environment) (name : String) (v : Value) : Environment :=
  { env with locals := Value.setEntry name v env.locals }

def setGlobal (env : Environment) (name : String) (v : Value) : Environment :=
  { env with globals := Value.setEntry name v env.globals }

/-- Gives a bound name a value where it is bound. -/
def replace? (env : Environment) (name : String) (v : Value) : Option Environment :=
  if (env.locals.lookup name).isSome then some (env.set name v)
  else if (env.globals.lookup name).isSome then some (env.setGlobal name v)
  else none

/-- Binds the names by which a fragment knows its scope and its place. -/
def bindUnit (env : Environment) (scope : Scope) (place : String) : Environment :=
  (env.set "self" (.scope scope)).set "__file__" (.str place)

def load (env : Environment) (name : String) : Except Fault Value :=
  match env.get? name with
  | some v => .ok v
  | none => .error (.unboundName name)

/-- Stores an item in what a name holds. -/
def store (env : Environment) (name : String) (index v : Value) : Except Fault Environment := do
  let container ← (← env.load name).setItem index v
  return (env.replace? name container).getD env

end Environment

end LiveDoc
