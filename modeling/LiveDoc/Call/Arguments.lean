import LiveDoc.Fault

/-!
The arguments of a call and the parameters they stand for. Positional values take the parameters
in order and named values the parameter of their name; no parameter takes two values. A binding
holds the parameters that have a value.
-/
namespace LiveDoc

structure Arguments where
  positional : List Value
  named : List (String × Value)

abbrev Binding := List (String × Value)

namespace Arguments

def bindNamed (function : String) (parameters : List String) (bound : Binding) :
    List (String × Value) → Except Fault Binding
  | [] => .ok bound
  | (keyword, v) :: rest =>
    if ! parameters.contains keyword then .error (.unknownKeyword function keyword)
    else if (bound.lookup keyword).isSome then .error (.repeatedArgument function keyword)
    else bindNamed function parameters ((keyword, v) :: bound) rest

def bind (args : Arguments) (function : String) (parameters : List String) :
    Except Fault Binding :=
  if parameters.length < args.positional.length then
    .error (.tooManyArguments function parameters.length args.positional.length)
  else bindNamed function parameters (parameters.zip args.positional) args.named

/-- The value of the only parameter. -/
def bindOne (args : Arguments) (function parameter : String) : Except Fault (Option Value) :=
  (args.bind function [parameter]).map (·.lookup parameter)

/-- The value of the only parameter, which must have one. -/
def require (args : Arguments) (function parameter : String) : Except Fault Value := do
  match ← args.bindOne function parameter with
  | some v => .ok v
  | none => .error (.missingArgument function parameter)

end Arguments

end LiveDoc
