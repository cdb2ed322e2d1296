import LiveDoc.Call.Builtin
import LiveDoc.Environment
import LiveDoc.Host
import LiveDoc.Value.Comparison

/-!
The values of expressions. Operands are evaluated from left to right. An expression sees the
environment and cannot change it; by calling a built-in function it can change the state of the
host.
-/
namespace LiveDoc

/-- Why an evaluation stops. -/
inductive Stop where
  | fault (f : Fault)
  | host (e : HostError)

abbrev Evaluation (σ : Type) := EStateM Stop σ

namespace Evaluation

variable {σ α : Type}

def settle (r : Except Fault α) : Evaluation σ α := fun s =>
  match r with
  | .ok a => .ok a s
  | .error f => .error (.fault f) s

def ofHost (act : EStateM HostError σ α) : Evaluation σ α := fun s =>
  match act s with
  | .ok a s => .ok a s
  | .error e s => .error (.host e) s

end Evaluation

open Evaluation

variable {σ : Type}

/-- What comes of a call of a built-in function is done by the host. -/
def Builtin.perform (h : Host σ) : Builtin.Outcome → Evaluation σ Value
  | .value v => pure v
  | .emit s => do
    ofHost (h.emitText s)
    pure .nothing
  | .note s => do
    modify (h.note s)
    pure .nothing

def Value.call (h : Host σ) (function : Value) (args : Arguments) : Evaluation σ Value :=
  match function with
  | .builtin f => do Builtin.perform h (← settle (f.call args))
  | .method receiver m => settle (m.call receiver args)
  | other => settle (.error (.notCallable other.kind))

namespace Fragment

def Constant.value : Constant → Value
  | nothing => .nothing
  | bool b => .bool b
  | int n => .int n
  | float x => .float x
  | str s => .str s

/-- Whether the left operand is the value, without the right one. -/
def LogicOp.decides : LogicOp → Value → Bool
  | and, left => ! left.isTrue
  | or, left => left.isTrue

mutual

def Expr.eval (h : Host σ) (env : Environment) : Expr → Evaluation σ Value
  | .constant c => pure c.value
  | .name s => settle (env.load s)
  | .format parts => do return .str (← evalParts h env parts "")
  | .list items => do return .list (← evalItems h env items)
  | .dict entries => evalEntries h env entries (.dict [])
  | .unary op operand => do
    let v ← operand.eval h env
    settle (Value.unary op v)
  | .binary op left right => do
    let a ← left.eval h env
    let b ← right.eval h env
    settle (Value.binary op a b)
  | .logic op left right => do
    let a ← left.eval h env
    if op.decides a then pure a else right.eval h env
  | .compare first others => do
    let v ← first.eval h env
    return .bool (← evalChain h env v others)
  | .call callee args named => do
    let function ← callee.eval h env
    let positional ← evalItems h env args
    let named ← evalNamed h env named
    function.call h ⟨positional, named⟩
  | .attribute object name => do
    let v ← object.eval h env
    settle (v.attributeOf name)
  | .item object index => do
    let container ← object.eval h env
    let i ← index.eval h env
    settle (container.item i)

/-- The text of a format string; `done` is the text of the parts before. -/
def evalParts (h : Host σ) (env : Environment) : List FormatPart → String → Evaluation σ String
  | [], done => pure done
  | part :: rest, done => do
    let text ← part.eval h env
    evalParts h env rest (done ++ text)

def FormatPart.eval (h : Host σ) (env : Environment) : FormatPart → Evaluation σ String
  | .literal s => pure s
  | .field e => do return (← e.eval h env).text

def evalItems (h : Host σ) (env : Environment) : List Expr → Evaluation σ (List Value)
  | [] => pure []
  | e :: rest => do
    let v ← e.eval h env
    return v :: (← evalItems h env rest)

/-- Adds entries to a dictionary one by one. -/
def evalEntries (h : Host σ) (env : Environment) :
    List (Expr × Expr) → Value → Evaluation σ Value
  | [], dict => pure dict
  | (key, value) :: rest, dict => do
    let k ← key.eval h env
    let v ← value.eval h env
    evalEntries h env rest (← settle (dict.setItem k v))

def evalNamed (h : Host σ) (env : Environment) :
    List (String × Expr) → Evaluation σ (List (String × Value))
  | [] => pure []
  | (name, e) :: rest => do
    let v ← e.eval h env
    return (name, v) :: (← evalNamed h env rest)

/-- Whether each value of a chain stands in the relation to the next; the first failure ends it. -/
def evalChain (h : Host σ) (env : Environment) (left : Value) :
    List (CompareOp × Expr) → Evaluation σ Bool
  | [] => pure true
  | (op, e) :: rest => do
    let right ← e.eval h env
    if ← settle (left.compare op right) then evalChain h env right rest else pure false

end

end Fragment

end LiveDoc
