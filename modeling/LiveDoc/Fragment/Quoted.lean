import LiveDoc.Fragment.SyntaxError
import LiveDoc.Fragment.Token
import LiveDoc.Text.WhiteSpace

/-!
String literals. `readBody` reads from behind the opening quote to behind the closing one and
either resolves the escapes or keeps them as written; a backslash in front of a newline joins the
lines in both cases. `splitFields` takes a body with its escapes kept, resolves them, and cuts out
the expressions in curly brackets.
-/
namespace LiveDoc.Fragment

/-- The character that a backslash and `c` stand for. -/
def unescape (c : Char) : Char :=
  match c with
  | 'n' => '\n'
  | 't' => '\t'
  | 'r' => '\r'
  | '0' => Char.ofNat 0
  | _ => c

/-- The text of a literal, how many characters it takes behind the opening quotes, and how many
newlines are among them. -/
structure Body where
  text : List Char
  size : Nat
  newlines : Nat

/-- How a literal is quoted. -/
structure Quoting where
  quote : Char
  isTriple : Bool

namespace Quoting

def width (q : Quoting) : Nat := if q.isTriple then 3 else 1

def endsAt (q : Quoting) (text : List Char) : Bool :=
  (List.replicate q.width q.quote).isPrefixOf text

/-- How a literal is quoted that begins with `quote`, in front of `rest`. -/
def of (quote : Char) (rest : List Char) : Quoting := ⟨quote, [quote, quote].isPrefixOf rest⟩

end Quoting

/-- Reads on after `before`, the text of which is in reverse. -/
def readBody (keepEscapes : Bool) (q : Quoting) (before : Body) :
    List Char → Except SyntaxError.Cause Body
  | [] => .error (if q.isTriple then .unterminatedLongString else .unterminatedString)
  | '\\' :: [] => .error .unterminatedString
  | '\\' :: '\n' :: rest =>
    readBody keepEscapes q ⟨before.text, before.size + 2, before.newlines + 1⟩ rest
  | '\\' :: c :: rest =>
    let added := if keepEscapes then [c, '\\'] else [unescape c]
    readBody keepEscapes q ⟨added ++ before.text, before.size + 2, before.newlines⟩ rest
  | c :: rest =>
    if c = '\n' then
      if q.isTriple then
        readBody keepEscapes q ⟨c :: before.text, before.size + 1, before.newlines + 1⟩ rest
      else .error .unterminatedString
    else if q.endsAt (c :: rest) then
      .ok ⟨before.text.reverse, before.size + q.width, before.newlines⟩
    else readBody keepEscapes q ⟨c :: before.text, before.size + 1, before.newlines⟩ rest

/-- The body of a literal that begins with `quote`, its size counted from behind that quote. -/
def readQuoted (keepEscapes : Bool) (quote : Char) (rest : List Char) :
    Except SyntaxError.Cause Body :=
  let q := Quoting.of quote rest
  readBody keepEscapes q ⟨[], q.width - 1, 0⟩ (rest.drop (q.width - 1))

/-- The brackets open after a character of an expression. -/
def fieldDepth (depth : Nat) (c : Char) : Nat :=
  if c = '(' || c = '[' || c = '{' then depth + 1
  else if c = ')' || c = ']' || c = '}' then depth - 1
  else depth

/-- The source of an expression up to its closing bracket, and the text behind that. -/
def takeField (depth : Nat) (passed : List Char) : List Char → Option (List Char × List Char)
  | [] => none
  | c :: rest =>
    if c = '}' && depth = 0 then some (passed.reverse, rest)
    else takeField (fieldDepth depth c) (c :: passed) rest

theorem length_of_takeField {depth : Nat} {passed text source rest : List Char}
    (h : takeField depth passed text = some (source, rest)) : rest.length < text.length := by
  induction text generalizing depth passed with
  | nil => simp [takeField] at h
  | cons c text ih =>
    rw [takeField] at h
    split at h
    · simp_all
    · exact Nat.lt_succ_of_lt (ih h)

/-- A literal piece of the characters passed, which are in reverse; an empty one is left out. -/
def literalPiece (passed : List Char) : List Piece :=
  if passed.isEmpty then [] else [.literal (String.ofList passed.reverse)]

/-- Cuts the rest of a body into pieces; `passed` are characters of a literal in reverse. -/
def splitFields (passed : List Char) : List Char → Except SyntaxError.Cause (List Piece)
  | [] => .ok (literalPiece passed)
  | '\\' :: [] => .ok (literalPiece passed)
  | '\\' :: c :: rest => splitFields (unescape c :: passed) rest
  | '{' :: '{' :: rest => splitFields ('{' :: passed) rest
  | '}' :: '}' :: rest => splitFields ('}' :: passed) rest
  | '}' :: _ => .error .loneClosingCurly
  | '{' :: rest =>
    match _h : takeField 0 [] rest with
    | none => .error .unclosedField
    | some (source, after) =>
      if Text.isBlank source then .error .emptyField
      else do
        let pieces ← splitFields [] after
        .ok (literalPiece passed ++ .field (String.ofList source) :: pieces)
  | c :: rest => splitFields (c :: passed) rest
termination_by text => text.length
decreasing_by
  all_goals simp only [List.length_cons]
  all_goals first
    | omega
    | exact Nat.lt_succ_of_lt (length_of_takeField _h)

end LiveDoc.Fragment
