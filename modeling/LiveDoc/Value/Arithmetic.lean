import LiveDoc.Binary64
import LiveDoc.Fault
import LiveDoc.Integer64

/-!
The operators that compute a value from one or two others. Integers are computed exactly and
refused beyond 64 bits; a division rounds to the floor, and its remainder has the sign of the
divisor. Numbers of different types are computed as floating-point numbers. Strings and lists are
joined by `+` and repeated by `*`, up to a limit of their length.
-/
namespace LiveDoc.Value

open Fragment (BinaryOp UnaryOp)

/-- The most bytes of a string and the most items of a list that an operator makes. -/
def lengthLimit : Nat := 10000000

def integer (n : Int) : Except Fault Value :=
  if Integer64.fits n then .ok (.int n) else .error .integerOverflow

/-- The greatest exponent of an integer power. -/
def exponentLimit : Nat := 4294967295

/--
An exponent of the same parity that is at most 65. Zero and the units have the same power with
it, and no other power of 64 or more has 64 bits.
-/
def shortExponent (n : Nat) : Nat := if n ≤ 64 then n else 64 + n % 2

/-- A negative exponent leaves the integers. -/
def integerPower (a b : Int) : Except Fault Value :=
  if b < 0 then .ok (.float (Float.pow (Float.ofInt a) (Float.ofInt b)))
  else if exponentLimit < b.toNat then .error .integerOverflow
  else integer (Int.pow a (shortExponent b.toNat))

/-- A quotient rounded toward zero that does not fit is refused, and the remainder with it. What is
corrected behind this check is not checked again. -/
def onIntegers (op : BinaryOp) (a b : Int) : Except Fault Value :=
  match op with
  | .add => integer (a + b)
  | .sub => integer (a - b)
  | .mul => integer (a * b)
  | .div =>
    if b = 0 then .error (.zeroDivisor op true)
    else .ok (.float (Float.ofInt a / Float.ofInt b))
  | .floorDiv =>
    if b = 0 then .error (.zeroDivisor op true)
    else (integer (a.tdiv b)).map fun _ => .int (Integer64.floorQuotient a b)
  | .mod =>
    if b = 0 then .error (.zeroDivisor op true)
    else (integer (a.tdiv b)).map fun _ => .int (Integer64.floorRemainder a b)
  | .pow => integerPower a b

/-- The remainder with the sign of the divisor. -/
def floorRemainder (x y : Float) : Float :=
  let r := Binary64.remainder x y
  if r != 0.0 && (r < 0.0) != (y < 0.0) then r + y else r

def onFloats (op : BinaryOp) (x y : Float) : Except Fault Value :=
  match op with
  | .add => .ok (.float (x + y))
  | .sub => .ok (.float (x - y))
  | .mul => .ok (.float (x * y))
  | .div => if y == 0.0 then .error (.zeroDivisor op false) else .ok (.float (x / y))
  | .floorDiv =>
    if y == 0.0 then .error (.zeroDivisor op false) else .ok (.float (x / y).floor)
  | .mod =>
    if y == 0.0 then .error (.zeroDivisor op false) else .ok (.float (floorRemainder x y))
  | .pow => .ok (.float (Float.pow x y))

def onNumbers (op : BinaryOp) (a b : Value) : Except Fault Value :=
  match a.toInt?, b.toInt? with
  | some m, some n => onIntegers op m n
  | _, _ =>
    match a.toFloat?, b.toFloat? with
    | some x, some y => onFloats op x y
    | _, _ => .error (.badOperands op a.kind b.kind)

/-- The value, if its length is within the limit. -/
def ofLength (length : Nat) (v : Value) : Except Fault Value :=
  if length ≤ lengthLimit then .ok v else .error .sequenceTooLarge

/-- A text `count` times. -/
def repeatText (s : String) (count : Nat) : Except Fault Value :=
  let length := s.utf8ByteSize * count
  if length = 0 then .ok (.str "")
  else if length ≤ lengthLimit then .ok (.str (count.repeat (· ++ s) ""))
  else .error .sequenceTooLarge

def repeatItems (items : List Value) (count : Nat) : Except Fault Value :=
  let length := items.length * count
  if length = 0 then .ok (.list [])
  else if length ≤ lengthLimit then .ok (.list (count.repeat (items ++ ·) []))
  else .error .sequenceTooLarge

/-- A string or a list repeated as often as a number says, which is never for a negative one. -/
def repeated? (v count : Value) : Option (Except Fault Value) :=
  match v, count.toInt? with
  | str s, some n => some (repeatText s n.toNat)
  | list items, some n => some (repeatItems items n.toNat)
  | _, _ => none

def binary (op : BinaryOp) (a b : Value) : Except Fault Value :=
  match op, a, b with
  | .add, str s, str t => ofLength (s.utf8ByteSize + t.utf8ByteSize) (.str (s ++ t))
  | .add, list xs, list ys => ofLength (xs.length + ys.length) (.list (xs ++ ys))
  | .mul, a, b => ((repeated? a b).or (repeated? b a)).getD (onNumbers op a b)
  | op, a, b => onNumbers op a b

def unary (op : UnaryOp) (v : Value) : Except Fault Value :=
  match op, v, v.toInt? with
  | .not, v, _ => .ok (.bool (! v.isTrue))
  | .neg, float x, _ => .ok (.float (-x))
  | .pos, float x, _ => .ok (.float x)
  | .neg, _, some n => integer (-n)
  | .pos, _, some n => .ok (.int n)
  | op, v, none => .error (.badOperand op v.kind)

end LiveDoc.Value
