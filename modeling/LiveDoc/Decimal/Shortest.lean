import LiveDoc.Binary64

/-!
The shortest decimal that reads back as a given floating-point number. The reals that round to
`m · 2 ^ q` form an interval, with its ends if `m` is even. Of the grids of multiples of a power
of ten the coarsest that meets the interval gives the fewest digits; of its points in the interval
the nearest to the number is taken, the upper one of two equally near.
-/
namespace LiveDoc.Decimal

/-- The decimal `digits · 10 ^ exponent`. -/
structure Scaled where
  digits : Nat
  exponent : Int

/--
The interval of a positive number in units of `numerator / denominator`: the number itself is
`centre` units, and what lies between `low` and `high` rounds to it.
-/
structure Interval where
  low : Nat
  centre : Nat
  high : Nat
  closed : Bool
  numerator : Nat
  denominator : Nat

/--
A quarter of the last binary place is the unit. Below a power of two the numbers lie twice as
dense, so the interval ends there after one unit and not after two.
-/
def Interval.ofParts (p : Binary64.Parts) : Interval :=
  let isPower := p.mantissa = Binary64.exponentWeight && Binary64.leastExponent < p.exponent
  let below := if isPower then 1 else 2
  { low := 4 * p.mantissa - below
    centre := 4 * p.mantissa
    high := 4 * p.mantissa + 2
    closed := p.mantissa % 2 == 0
    numerator := Nat.pow 2 (p.exponent - 2).toNat
    denominator := Nat.pow 2 (2 - p.exponent).toNat }

/-- The point of the grid of multiples of `10 ^ k` that stands for the number, if there is one. -/
def Interval.pointAt (i : Interval) (k : Int) : Option Nat :=
  let up := i.numerator * Nat.pow 10 (-k).toNat
  let down := i.denominator * Nat.pow 10 k.toNat
  let inside (d : Nat) : Bool :=
    if i.closed then i.low * up ≤ d * down && d * down ≤ i.high * up
    else i.low * up < d * down && d * down < i.high * up
  let floor := i.centre * up / down
  let beyond := i.centre * up % down
  match 0 < floor && inside floor, inside (floor + 1) with
  | true, true => some (if 2 * beyond < down then floor else floor + 1)
  | true, false => some floor
  | false, true => some (floor + 1)
  | false, false => none

/-- Tries the grids of `10 ^ k`, `10 ^ (k - 1)`, … in turn. -/
def Interval.coarsest (i : Interval) (k : Int) : Nat → Scaled
  | 0 => ⟨i.centre, k⟩
  | grids + 1 =>
    match i.pointAt k with
    | some digits => ⟨digits, k⟩
    | none => i.coarsest (k - 1) grids

/-- The decimal order of a number is about three tenths of its binary order. -/
def shortest (p : Binary64.Parts) : Scaled :=
  let top := (p.exponent + p.mantissa.log2) * 1234 / 4096 + 2
  (Interval.ofParts p).coarsest top 24

def zeros (n : Nat) : String := String.ofList (List.replicate n '0')

/-- A decimal without an exponent: zeros are written on either side as far as needed. -/
def Scaled.positional (d : Scaled) : String :=
  let digits := d.digits.repr
  let places := (-d.exponent).toNat
  if 0 ≤ d.exponent then digits ++ zeros d.exponent.toNat
  else if places < digits.length then
    String.ofList (digits.toList.take (digits.length - places)) ++ "." ++
      String.ofList (digits.toList.drop (digits.length - places))
  else "0." ++ zeros (places - digits.length) ++ digits

end LiveDoc.Decimal
