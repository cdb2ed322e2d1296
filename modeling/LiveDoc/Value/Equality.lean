import LiveDoc.Value

/-!
When two values are equal. Integers are compared exactly, numbers of different types as
floating-point numbers. Dictionaries are equal when they have equally many entries and each one of
the first occurs in the second, in whatever order. What is not a number equals nothing.
-/
namespace LiveDoc.Value

/-- Numbers of any types. -/
def equalNumbers (a b : Value) : Bool :=
  match a.toFloat?, b.toFloat? with
  | some x, some y => x == y
  | _, _ => false

mutual

def equal : Value → Value → Bool
  | nothing, nothing => true
  | str s, str t => s == t
  | list xs, list ys => equalItems xs ys
  | dict es, dict fs => es.length == fs.length && entriesWithin fs es
  | scope s, scope t => s == t
  | builtin f, builtin g => f == g
  | method s m, method t n => s == t && m == n
  | int a, int b => a == b
  | bool a, bool b => a == b
  | a, b => equalNumbers a b

def equalItems : List Value → List Value → Bool
  | [], [] => true
  | x :: xs, y :: ys => x.equal y && equalItems xs ys
  | _, _ => false

/-- Whether each of the entries has an equal one among `others`. -/
def entriesWithin (others : List (String × Value)) : List (String × Value) → Bool
  | [] => true
  | (key, v) :: rest =>
    (others.any fun other => key == other.1 && v.equal other.2) && entriesWithin others rest

end

end LiveDoc.Value
