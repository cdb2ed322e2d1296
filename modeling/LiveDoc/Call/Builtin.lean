import LiveDoc.Call.Arguments
import LiveDoc.Call.Conversion
import LiveDoc.Call.Range
import LiveDoc.Call.StringMethod

/-!
The built-in functions. Most compute a value; `text` and `print` emit a text and `note` leaves a
remark for whoever follows the run, and these three have the value nothing.
-/
namespace LiveDoc.Builtin

/-- What a call comes to. -/
inductive Outcome where
  | value (v : Value)
  | emit (text : String)
  | note (text : String)

/-- The text of a value that may be missing. -/
def textOr (missing : String) (v : Option Value) : String := (v.map Value.text).getD missing

def emitText (args : Arguments) : Except Fault Outcome := do
  let bound ← args.bind text.name ["value", "end"]
  return .emit (textOr "" (bound.lookup "value") ++ textOr "\n" (bound.lookup "end"))

def emitLine (args : Arguments) : Except Fault Outcome :=
  match args.named.find? fun (keyword, _) => keyword != "sep" && keyword != "end" with
  | some (keyword, _) => .error (.unknownKeyword print.name keyword)
  | none =>
    let separator := textOr " " (args.named.lookup "sep")
    let line := separator.intercalate (args.positional.map Value.text)
    .ok (.emit (line ++ textOr "\n" (args.named.lookup "end")))

def length (v : Value) : Except Fault Value :=
  match v with
  | .str s => .ok (.int s.length)
  | .list items => .ok (.int items.length)
  | .dict entries => .ok (.int entries.length)
  | other => .error (.noLength other.kind)

def call (f : Builtin) (args : Arguments) : Except Fault Outcome := do
  match f with
  | text => emitText args
  | print => emitLine args
  | note => return .note (← args.require f.name "message").text
  | fail => throw (.failed (textOr "" (← args.bindOne f.name "message")))
  | str => return .value (.str (textOr "" (← args.bindOne f.name "object")))
  | repr => return .value (.str (← args.require f.name "object").repr)
  | int => return .value (← ((← args.bindOne f.name "x").getD (.int 0)).toInteger)
  | float => return .value (← ((← args.bindOne f.name "x").getD (.float 0.0)).toFloat)
  | bool => return .value (.bool (((← args.bindOne f.name "x").map Value.isTrue).getD false))
  | len => return .value (← length (← args.require f.name "object"))
  | range =>
    match args.named with
    | (keyword, _) :: _ => throw (.unknownKeyword f.name keyword)
    | [] => return .value (← Value.range args.positional)

end LiveDoc.Builtin
