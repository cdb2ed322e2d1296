import LiveDoc.Binary64
import LiveDoc.Decimal.Reading
import LiveDoc.Fault
import LiveDoc.Text.WhiteSpace
import LiveDoc.Value.Text

/-!
Numbers from values. Text is read without the white space around it; an integer is the part of a
floating-point number before the point.
-/
namespace LiveDoc.Value

/-- Floating-point numbers from this bound on are not made integers. -/
def integerBound : Nat := 9200000000000000000

def integerOfFloat (x : Float) : Except Fault Value :=
  if x.isNaN then .error .undefinedInteger
  else
    match Binary64.parts? x with
    | some p => if p.wholeAbs < integerBound then .ok (.int p.whole) else .error .infiniteInteger
    | none => .error .infiniteInteger

def toInteger (v : Value) : Except Fault Value :=
  match v with
  | float x => integerOfFloat x
  | str s =>
    match Decimal.readInteger (Text.trim s.toList) with
    | some n => .ok (.int n)
    | none => .error (.notAnInteger v.repr)
  | v =>
    match v.toInt? with
    | some n => .ok (.int n)
    | none => .error (.noIntegerOf v.kind)

def toFloat (v : Value) : Except Fault Value :=
  match v with
  | str s =>
    match Decimal.readFloat (Text.trim s.toList) with
    | some x => .ok (.float x)
    | none => .error (.notAFloat v.repr)
  | v =>
    match v.toFloat? with
    | some x => .ok (.float x)
    | none => .error (.noFloatOf v.kind)

end LiveDoc.Value
