import LiveDoc.Integer64

/-!
Reading numbers. An integer has 64 bits and is refused beyond them; a floating-point number is
the one nearest to the decimal that is written, which is infinite beyond the largest.
-/
namespace LiveDoc.Decimal

def digitsToNat (digits : List Char) : Nat :=
  digits.foldl (fun n c => 10 * n + (c.toNat - '0'.toNat)) 0

/-- The integer with the given digits, unless they are too many; zeros in front do not count. -/
def integerOf? (negative : Bool) (digits : List Char) : Option Int :=
  let significant := digits.dropWhile (· = '0')
  if 19 < significant.length then none
  else
    let n : Int := digitsToNat significant
    let signed := if negative then -n else n
    if Integer64.fits signed then some signed else none

/-- As many digits tell every number from the middle between it and the next. -/
def decisiveDigits : Nat := 800

/--
The nearest number to the digits, read as an integer, times `10 ^ exponent`. Orders of magnitude
that no number reaches are settled without computing the power. What stands behind the decisive
digits only counts as zero or not, which one more digit tells.
-/
def nearest (digits : List Char) (exponent : Int) : Float :=
  let significant := digits.dropWhile (· = '0')
  let order := exponent + significant.length
  if significant.isEmpty || order < -345 then 0.0
  else if 310 < order then 1.0 / 0.0
  else
    let (decisive, others) := significant.splitAt decisiveDigits
    let mantissa := 10 * digitsToNat decisive + (if others.all (· = '0') then 0 else 1)
    let exponent := exponent + others.length - 1
    OfScientific.ofScientific mantissa (decide (exponent < 0)) exponent.natAbs

/-- A sign in front of a text, if there is one. -/
def takeSign : List Char → Bool × List Char
  | '-' :: rest => (true, rest)
  | '+' :: rest => (false, rest)
  | text => (false, text)

/-- An optional sign and one digit or more. -/
def readInteger (text : List Char) : Option Int :=
  let (negative, digits) := takeSign text
  if digits.isEmpty || ! digits.all Char.isDigit then none else integerOf? negative digits

/-- The digits of an exponent; those behind a value of `2 ^ 16` or more do not count. -/
def exponentOf (digits : List Char) : Nat :=
  digits.foldl (fun n c => if n < 65536 then 10 * n + (c.toNat - '0'.toNat) else n) 0

/-- What may follow the digits of a number: nothing, or `e`, an optional sign and digits. -/
def readExponent : List Char → Option Int
  | [] => some 0
  | c :: rest =>
    let (negative, digits) := takeSign rest
    if (c = 'e' || c = 'E') && ! digits.isEmpty && digits.all Char.isDigit then
      some (if negative then - (exponentOf digits : Int) else exponentOf digits)
    else none

/-- Digits with an optional point among or around them and an optional exponent. -/
def readUnsignedFloat (text : List Char) : Option Float := do
  let whole := text.takeWhile Char.isDigit
  let rest := text.dropWhile Char.isDigit
  let (fraction, rest) := match rest with
    | '.' :: after => (after.takeWhile Char.isDigit, after.dropWhile Char.isDigit)
    | _ => ([], rest)
  if whole.isEmpty && fraction.isEmpty then none
  else
    let exponent ← readExponent rest
    some (nearest (whole ++ fraction) (exponent - fraction.length))

/-- A number, or in any case of letters `inf`, `infinity` or `nan`, with an optional sign. -/
def readFloat (text : List Char) : Option Float :=
  let (negative, unsigned) := takeSign text
  let word := String.ofList (unsigned.map Char.toLower)
  let value :=
    if word = "inf" || word = "infinity" then some (1.0 / 0.0)
    else if word = "nan" then some (0.0 / 0.0)
    else readUnsignedFloat unsigned
  value.map fun x => if negative then -x else x

end LiveDoc.Decimal
