import LiveDoc.Settings.Toml.Reader
import LiveDoc.Text.CodeRanges

/-!
Texts in quotes. Between double quotes a backslash begins an escape, between single quotes nothing
does. Three quotes open a text over several lines, in which one or two quotes stand for themselves.
-/
namespace LiveDoc.Toml

open Reader

def isHexDigit (c : Char) : Bool :=
  c.isDigit || (97 ≤ c.toNat && c.toNat ≤ 102) || (65 ≤ c.toNat && c.toNat ≤ 70)

/-- A character given by so many hexadecimal digits. -/
def readCodePoint (digits : Nat) : Reader Char := do
  let rest ← get
  let code := (rest.take digits).takeWhile isHexDigit
  let n := Text.hexNumber (code.map Char.toLower)
  if code.length < digits || ! decide n.isValidChar then fail
  set (rest.drop digits)
  return Char.ofNat n

/--
The character that an escape behind a backslash stands for. A character that begins none is
passed if it is one of ASCII.
-/
def readEscape : Reader Char := do
  let start ← get
  match ← take with
  | 'b' => return '\x08'
  | 'f' => return '\x0c'
  | 'n' => return '\n'
  | 'r' => return '\x0d'
  | 't' => return '\t'
  | '"' => return '"'
  | '\\' => return '\\'
  | 'u' => commit (readCodePoint 4)
  | 'U' => commit (readCodePoint 8)
  | c => commit (if c.toNat < 0x80 then fail else failAt start)

/-- Characters that stand for themselves between such quotes. -/
def readPlain (quote : Char) : Reader (List Char) :=
  takeSome fun c => isShown c && c != quote && (quote != '"' || c != '\\')

/-- A piece of a text on one line between double quotes. -/
def readBasicPiece : Reader (List Char) :=
  either (readPlain '"') do
    expectChar '\\'
    return [← readEscape]

/-- A text on one line between double quotes. -/
def readBasic : Reader (List Char) := do
  expectChar '"'
  let pieces ← many readBasicPiece
  commit (expectChar '"')
  return pieces.flatten

/-- A text on one line between single quotes. -/
def readLiteral : Reader (List Char) := do
  expectChar '\''
  let text ← takeWhile fun c => isShown c && c != '\''
  commit (expectChar '\'')
  return text

/-! ### Texts over several lines -/

def readLineBreak : Reader (List Char) := do
  newline
  return ['\n']

/-- A backslash at the end of a line takes the blanks and line breaks behind it away. -/
def skipContinuation : Reader (List Char) := do
  expectChar '\\'
  skipBlanks
  newline
  let _ ← many (either newline do
    let _ ← takeSome isBlank)
  return []

/-- A piece of a text over several lines that is no quote. -/
def readLongPiece (quote : Char) : Reader (List Char) :=
  either (readPlain quote) <|
    if quote = '"' then
      either skipContinuation (either (do
        expectChar '\\'
        return [← readEscape]) readLineBreak)
    else readLineBreak

/-- Two quotes or one, if they stand in front of what `read` reads. -/
def readQuotesBefore {α : Type} (quote : Char) (read : Reader α) : Reader (List Char) :=
  let attempt (quotes : List Char) : Reader (List Char) := do
    expect quotes
    let _ ← ahead read
    return quotes
  either (attempt [quote, quote]) (attempt [quote])

/-- A text over several lines between three quotes. -/
def readLong (quote : Char) : Reader (List Char) := do
  let quotes := [quote, quote, quote]
  expect quotes
  let _ ← maybe newline
  commit do
    let piece := readLongPiece quote
    let first ← many piece
    let others ← many do
      let inner ← readQuotesBefore quote piece
      return inner ++ (← many piece).flatten
    let last ← maybe (readQuotesBefore quote (expect quotes))
    expect quotes
    return first.flatten ++ others.flatten ++ last.getD []

/-- A text in quotes of any kind. -/
def readText : Reader (List Char) :=
  either (readLong '"') (either readBasic (either (readLong '\'') readLiteral))

end LiveDoc.Toml
