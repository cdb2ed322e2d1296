/-!
Readers of a text. A reader takes characters from the front of what is left of the text, or it
fails somewhere. Another way to read on from the same place may be tried after a failure, unless
the failure is final. Repetition takes the text itself as its fuel, since every round takes a
character.
-/
namespace LiveDoc.Toml

/-- A place in a text is what is left of the text there. -/
abbrev Place := List Char

/-- Why and where a text is refused; of what is wrong with its form only the place is told. -/
structure Refusal where
  place : Place
  reason : Option String

structure Failure extends Refusal where
  isFinal : Bool

abbrev Reader := StateT Place (Except Failure)

namespace Reader

variable {α β : Type}

def failAt (place : Place) : Reader α := throw ⟨⟨place, none⟩, false⟩

def fail : Reader α := do failAt (← get)

/-- Makes every failure final. -/
def commit (read : Reader α) : Reader α := fun start =>
  (read start).mapError fun f => { f with isFinal := true }

/-- Takes nothing where `read` fails, unless that is final. -/
def maybe (read : Reader α) : Reader (Option α) := fun start =>
  match read start with
  | .ok (a, rest) => .ok (some a, rest)
  | .error f => if f.isFinal then .error f else .ok (none, start)

/-- The first of two ways that succeeds. -/
def either (first second : Reader α) : Reader α := do
  match ← maybe first with
  | some a => return a
  | none => second

/-- Reads and takes nothing; it fails here. -/
def ahead (read : Reader α) : Reader α := fun start =>
  match read start with
  | .ok (a, _) => .ok (a, start)
  | .error f => .error { f with place := start }

/-- What is read without a result is a failure where it begins, for a reason that may be told. -/
def checked (read : Reader (Except (Option String) α)) : Reader α := do
  let start ← get
  match ← read with
  | .ok a => return a
  | .error reason => throw ⟨⟨start, reason⟩, false⟩

def next? : Reader (Option Char) := do return (← get).head?

def take : Reader Char := do
  match ← get with
  | [] => fail
  | c :: rest =>
    set rest
    return c

def expect (text : List Char) : Reader Unit := do
  let rest ← get
  if text.isPrefixOf rest then set (rest.drop text.length) else fail

def expectChar (c : Char) : Reader Unit := expect [c]

/-- Takes one of the given characters. -/
def oneOf (wanted : List Char) : Reader Char := do
  match ← get with
  | [] => fail
  | c :: rest =>
    if wanted.contains c then
      set rest
      return c
    else fail

def takeWhile (wanted : Char → Bool) : Reader (List Char) := do
  let rest ← get
  set (rest.dropWhile wanted)
  return rest.takeWhile wanted

/-- Like `takeWhile`, but takes one character at least. -/
def takeSome (wanted : Char → Bool) : Reader (List Char) := do
  match ← takeWhile wanted with
  | [] => fail
  | text => return text

/-- What `read` reads as often as it can, behind what is `done`, which is in reverse. -/
def repeated (read : Reader α) (done : List α) : (fuel : List Char) → Reader (List α)
  | [] => return done.reverse
  | _ :: fuel => do
    match ← maybe read with
    | some a => repeated read (a :: done) fuel
    | none => return done.reverse

def many (read : Reader α) : Reader (List α) := do repeated read [] (← get)

/-- Like `many`, with a mark between every two. -/
def separated (mark : Char) (read : Reader α) : Reader (List α) := do
  match ← maybe read with
  | none => return []
  | some a =>
    let others ← many do
      expectChar mark
      read
    return a :: others

/-- What `read` does, and the place where it begins. -/
def placed (read : Reader α) : Reader (Place × α) := do
  let start ← get
  return (start, ← read)

end Reader

open Reader

/-! ### Blanks and lines -/

def isBlank (c : Char) : Bool := c = ' ' || c = '\t'

def skipBlanks : Reader Unit := do
  let _ ← takeWhile isBlank

/-- What a text or a comment may hold: no control but the tab. -/
def isShown (c : Char) : Bool := c = '\t' || (0x20 ≤ c.toNat && c.toNat != 0x7f)

def skipComment : Reader Unit := do
  expectChar '#'
  let _ ← takeWhile isShown

/-- Takes the end of a line; it fails behind the first character that does not belong to one. -/
def newline : Reader Unit := do
  match ← take with
  | '\n' => return
  | '\x0d' => expectChar '\n'
  | _ => fail

/-- Takes the end of a line, or nothing at the end of the text. -/
def endLine : Reader Unit := do
  if (← maybe newline).isNone && ! (← get).isEmpty then fail

/-- What may follow on a line that says something: blanks and a comment. -/
def closeLine : Reader Unit := do
  skipBlanks
  let _ ← maybe skipComment
  endLine

end LiveDoc.Toml
