import LiveDoc.Decimal.Reading
import LiveDoc.Settings.Toml.Text

/-!
Numbers, dates and times. They are checked and dropped: an integer has 64 bits, a floating-point
number is not beyond the largest one, and the parts of a date and of a time are in their ranges.
-/
namespace LiveDoc.Toml

open Reader

/-! ### Numbers -/

/-- Digits with single underscores between them, without the underscores. -/
def readDigits (isFirst isDigit : Char → Bool) : Reader (List Char) := do
  let digit (wanted : Char → Bool) : Reader (List Char) := do
    match ← next? with
    | none => fail
    | some c =>
      if ! wanted c then fail
      let _ ← take
      return [c]
  let first ← digit isFirst
  let others ← many (either (takeSome isDigit) do
    expectChar '_'
    commit (digit isDigit))
  return first ++ others.flatten

def readSign : Reader (List Char) := do
  return (← maybe (oneOf ['+', '-'])).toList

/-- A sign and digits; a zero in front stands alone. -/
def readDecimal : Reader (List Char) := do
  let sign ← readSign
  let nonZero (c : Char) : Bool := c.isDigit && c != '0'
  return sign ++ (← either (readDigits nonZero Char.isDigit) (takeZero))
where
  takeZero : Reader (List Char) := do
    expectChar '0'
    return ['0']

def readFraction : Reader (List Char) := do
  expectChar '.'
  return '.' :: (← commit (readDigits Char.isDigit Char.isDigit))

def readExponent : Reader (List Char) := do
  let _ ← oneOf ['e', 'E']
  let sign ← readSign
  return 'e' :: sign ++ (← commit (readDigits Char.isDigit Char.isDigit))

/-- The text of a floating-point number without underscores. -/
def readFloatText : Reader (List Char) := do
  let whole ← readDecimal
  let others ← either readExponent do
    let fraction ← readFraction
    return fraction ++ (← maybe readExponent).getD []
  return whole ++ others

def readWord (word : String) : Reader Unit := expect word.toList

/-- A floating-point number; beyond the largest one it fails where it begins. -/
def readFloat : Reader Unit := do
  let start ← get
  match ← maybe readFloatText with
  | some text => if Decimal.readFloat text == some (1.0 / 0.0) then commit (failAt start)
  | none =>
    let _ ← readSign
    either (readWord "inf") (readWord "nan")

/-- An integer without sign behind a mark, with a base of its own. -/
def readInBase (mark : String) (base : Nat) (isDigit : Char → Bool) : Reader Unit := do
  let start ← get
  readWord mark
  commit do
    let digits ← readDigits isDigit isDigit
    let n := digits.foldl (fun n c => base * n + Text.hexDigit c.toLower) 0
    if ! Integer64.fits n then failAt start

def isBinaryDigit (c : Char) : Bool := c = '0' || c = '1'

def isOctalDigit (c : Char) : Bool := '0' ≤ c && c ≤ '7'

def readInteger : Reader Unit := do
  let start ← get
  match start with
  | '0' :: 'x' :: _ => readInBase "0x" 16 isHexDigit
  | '0' :: 'o' :: _ => readInBase "0o" 8 isOctalDigit
  | '0' :: 'b' :: _ => readInBase "0b" 2 isBinaryDigit
  | _ =>
    let text ← readDecimal
    if (Decimal.readInteger text).isNone then commit (failAt start)

/-! ### Dates and times -/

/-- A number of so many digits that lies in a range. -/
def readField (width low high : Nat) : Reader Nat := do
  let rest ← get
  let digits := (rest.take width).takeWhile Char.isDigit
  let n := Decimal.digitsToNat digits
  if digits.length = width && low ≤ n && n ≤ high then
    set (rest.drop width)
    return n
  else fail

def isLeapYear (year : Nat) : Bool := year % 4 == 0 && (year % 100 != 0 || year % 400 == 0)

def daysOf (year month : Nat) : Nat :=
  if month = 2 then (if isLeapYear year then 29 else 28)
  else if [4, 6, 9, 11].contains month then 30 else 31

def readDate : Reader Unit := do
  let year ← readField 4 0 9999
  expectChar '-'
  commit do
    let month ← readField 2 1 12
    expectChar '-'
    let _ ← readField 2 1 (daysOf year month)

/-- A time, whose seconds may have a fraction. -/
def readTime : Reader Unit := do
  let _ ← readField 2 0 23
  expectChar ':'
  commit do
    let _ ← readField 2 0 59
    expectChar ':'
    let _ ← readField 2 0 60
    let _ ← maybe do
      expectChar '.'
      takeSome Char.isDigit

/-- The distance to the standard time. -/
def readOffset : Reader Unit := do
  let mark ← oneOf ['Z', 'z', '+', '-']
  if mark = '+' || mark = '-' then
    commit do
      let _ ← readField 2 0 23
      expectChar ':'
      let _ ← readField 2 0 59

/-- A date, a time, or both. -/
def readMoment : Reader Unit :=
  either (do
    readDate
    let _ ← maybe do
      let _ ← oneOf ['T', 't', ' ']
      readTime
      maybe readOffset) readTime

/-- A value that begins with a digit or a sign. -/
def readNumeral : Reader Unit := either readMoment (either readFloat readInteger)

end LiveDoc.Toml
