/-!
Floating-point numbers of 64 bits taken apart. A finite one is `mantissa · 2 ^ exponent` with a
sign, and what needs no rounding is computed on these parts with natural numbers: the integer
part, and the remainder of a division.
-/
namespace LiveDoc.Binary64

/-- The finite number `± mantissa · 2 ^ exponent`. -/
structure Parts where
  negative : Bool
  mantissa : Nat
  exponent : Int

/-- The exponent of the smallest positive number. -/
def leastExponent : Int := -1074

/-- The weight of the sign among the bits. -/
def signWeight : Nat := 9223372036854775808

/-- The weight of the exponent among the bits, which is also the least mantissa without zeros. -/
def exponentWeight : Nat := 4503599627370496

/-- The number of exponents; the last one stands for what is not finite. -/
def exponentCount : Nat := 2048

/-- None for the infinities and for what is not a number. -/
def parts? (x : Float) : Option Parts :=
  let bits := x.toBits.toNat
  let negative := bits / signWeight == 1
  let field := bits / exponentWeight % exponentCount
  let fraction := bits % exponentWeight
  if field = exponentCount - 1 then none
  else if field = 0 then some ⟨negative, fraction, leastExponent⟩
  else some ⟨negative, exponentWeight + fraction, leastExponent + (field - 1 : Nat)⟩

namespace Parts

/-- The number without its sign and its fraction. -/
def wholeAbs (p : Parts) : Nat :=
  if 0 ≤ p.exponent then p.mantissa * Nat.pow 2 p.exponent.toNat
  else p.mantissa / Nat.pow 2 (-p.exponent).toNat

/-- The number rounded toward zero. -/
def whole (p : Parts) : Int := if p.negative then - (p.wholeAbs : Int) else p.wholeAbs

def isWhole (p : Parts) : Bool :=
  0 ≤ p.exponent || p.mantissa % Nat.pow 2 (-p.exponent).toNat == 0

/-- The number with the given parts, for a mantissa below `2 ^ 53` that needs no rounding. -/
def toFloat (p : Parts) : Float :=
  let room := (p.exponent - leastExponent).toNat
  let shift := if p.mantissa = 0 then 0 else min room (52 - p.mantissa.log2)
  let mantissa := p.mantissa * Nat.pow 2 shift
  let field := if mantissa < exponentWeight then 0 else room - shift + 1
  let sign := if p.negative then signWeight else 0
  Float.ofBits (UInt64.ofNat (sign + field * exponentWeight + mantissa % exponentWeight))

end Parts

def notANumber : Float := 0.0 / 0.0

/-- The remainder of the division rounded toward zero: exact, with the sign of `x`. -/
def remainder (x y : Float) : Float :=
  match parts? x, parts? y with
  | some p, some q =>
    if q.mantissa = 0 then notANumber
    else
      let exponent := min p.exponent q.exponent
      let scaled (r : Parts) : Nat := r.mantissa * Nat.pow 2 (r.exponent - exponent).toNat
      (⟨p.negative, scaled p % scaled q, exponent⟩ : Parts).toFloat
  | some _, none => if y.isNaN then notANumber else x
  | none, _ => notANumber

end LiveDoc.Binary64
