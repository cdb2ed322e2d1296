import LiveDoc.Value.Arithmetic

/-!
The integers from a start up to a stop in equal steps. The distance from the start to the stop and
the size of a step are cut off at the largest integer before the steps are counted.
-/
namespace LiveDoc.Value

/-- The number of items of a range whose step is not zero. -/
def rangeLength (start stop step : Int) : Nat :=
  let distance := Integer64.saturated (if 0 < step then stop - start else start - stop)
  let size := Integer64.saturated step.natAbs
  if distance ≤ 0 then 0 else ((distance - 1) / size).toNat + 1

def rangeOf (start stop step : Int) : Except Fault Value :=
  let length := rangeLength start stop step
  if step = 0 then .error .zeroStep
  else if lengthLimit < length then .error .rangeTooLarge
  else .ok (.list ((List.range length).map fun (i : Nat) => .int (start + i * step)))

def toIndex (v : Value) : Except Fault Int :=
  match v.toInt? with
  | some n => .ok n
  | none => .error (.noIndexOf v.kind)

/-- One value is the stop, two are the start and the stop, a third one is the step. -/
def range (args : List Value) : Except Fault Value := do
  match ← args.mapM toIndex with
  | [stop] => rangeOf 0 stop 1
  | [start, stop] => rangeOf start stop 1
  | [start, stop, step] => rangeOf start stop step
  | others => .error (.rangeArguments others.length)

end LiveDoc.Value
