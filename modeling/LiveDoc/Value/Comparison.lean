import LiveDoc.Fault
import LiveDoc.Text.Search
import LiveDoc.Value.Equality

/-!
The operators that compare two values. Strings are ordered by the code points of their
characters. All numbers are ordered as floating-point ones, integers too; what is not a number has
no place in the order. A string is in another as a part, a value in a list as an item, a string in
a dictionary as a key.
-/
namespace LiveDoc.Value

open Fragment (CompareOp)

def orderOfTexts (s t : String) : Ordering := if s < t then .lt else if s == t then .eq else .gt

def orderOfFloats (x y : Float) : Option Ordering :=
  if x < y then some .lt else if x == y then some .eq else if y < x then some .gt else none

/-- The order of two values, which `op` asks for. -/
def order (op : CompareOp) (a b : Value) : Except Fault (Option Ordering) :=
  match a, b with
  | str s, str t => .ok (some (orderOfTexts s t))
  | a, b =>
    match a.toFloat?, b.toFloat? with
    | some x, some y => .ok (orderOfFloats x y)
    | _, _ => .error (.notOrdered op a.kind b.kind)

def contains (container item : Value) : Except Fault Bool :=
  match container with
  | str whole =>
    match item with
    | str part => .ok (Text.occursIn part.toList whole.toList)
    | other => .error (.notASubstring other.kind)
  | list items => .ok (items.any (·.equal item))
  | dict entries =>
    match item with
    | str key => .ok (entries.any (·.1 == key))
    | _ => .ok false
  | other => .error (.notAContainer other.kind)

def compare (op : CompareOp) (a b : Value) : Except Fault Bool :=
  match op with
  | .equal => .ok (a.equal b)
  | .notEqual => .ok (! a.equal b)
  | .less => (order op a b).map (· == some .lt)
  | .greater => (order op a b).map (· == some .gt)
  | .lessEqual => (order op a b).map fun o => o == some .lt || o == some .eq
  | .greaterEqual => (order op a b).map fun o => o == some .gt || o == some .eq
  | .isIn => contains b a
  | .notIn => (contains b a).map (! ·)

end LiveDoc.Value
