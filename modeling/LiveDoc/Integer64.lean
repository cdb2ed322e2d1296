/-!
The integers of 64 bits, a range of the integers: what lies outside of it has no place among them,
or is cut off at its ends. A division is rounded toward zero first and then corrected, so that the
quotient is rounded to the floor and the remainder has the sign of the divisor.
-/
namespace LiveDoc.Integer64

/-- The least one is `-2 ^ 63`. -/
def least : Int := -9223372036854775808

/-- The largest one is `2 ^ 63 - 1`. -/
def largest : Int := 9223372036854775807

def fits (n : Int) : Bool := least ≤ n && n ≤ largest

/-- The one that is nearest to `n`. -/
def saturated (n : Int) : Int :=
  if n < least then least else if largest < n then largest else n

def floorQuotient (a b : Int) : Int :=
  let q := a.tdiv b
  if a.tmod b != 0 && decide (a < 0) != decide (b < 0) then q - 1 else q

def floorRemainder (a b : Int) : Int :=
  let r := a.tmod b
  if r != 0 && decide (r < 0) != decide (b < 0) then r + b else r

end LiveDoc.Integer64
