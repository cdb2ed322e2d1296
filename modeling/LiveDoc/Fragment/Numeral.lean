import LiveDoc.Decimal.Reading
import LiveDoc.Fragment.SyntaxError
import LiveDoc.Fragment.Token
import LiveDoc.Text.Letters

/-!
Number literals: digits, with underscores anywhere among them, then for a floating-point number a
point with digits or an exponent or both. A point in front of a letter is no part of the number.
-/
namespace LiveDoc.Fragment

def isNumeralChar (c : Char) : Bool := c.isDigit || c = '_'

def digitsLength (text : List Char) : Nat := (text.takeWhile isNumeralChar).length

/-- The length of the point and the digits behind it. -/
def fractionLength : List Char → Nat
  | '.' :: [] => 1
  | '.' :: c :: rest =>
    if c.isDigit then 1 + digitsLength (c :: rest) else if Text.isAlphabetic c then 0 else 1
  | _ => 0

/-- The length of an exponent, which has one digit at least. -/
def exponentLength : List Char → Nat
  | e :: rest =>
    if e = 'e' || e = 'E' then
      let digits := match rest with
        | '+' :: after => after
        | '-' :: after => after
        | _ => rest
      if digits.head?.any Char.isDigit then
        1 + (rest.length - digits.length) + digitsLength digits
      else 0
    else 0
  | [] => 0

/-- The number at the head of a text that begins with a digit, and its length. -/
def readNumeral (text : List Char) : Except SyntaxError.Cause (Token.Kind × Nat) :=
  let whole := digitsLength text
  let fraction := fractionLength (text.drop whole)
  let exponent := exponentLength (text.drop (whole + fraction))
  let length := whole + fraction + exponent
  let source := (text.take length).filter (· ≠ '_')
  if fraction + exponent = 0 then
    match Decimal.integerOf? false source with
    | some n => .ok (.int n.toNat, length)
    | none => .error (.integerTooLarge (String.ofList source))
  else
    match Decimal.readUnsignedFloat source with
    | some x => .ok (.float x, length)
    | none => .error (.invalidFloat (String.ofList source))

end LiveDoc.Fragment
