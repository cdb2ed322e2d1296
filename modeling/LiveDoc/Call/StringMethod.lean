import LiveDoc.Call.Arguments
import LiveDoc.Text.LetterCase
import LiveDoc.Text.Search
import LiveDoc.Text.WhiteSpace
import LiveDoc.Value.Item

/-!
The methods of strings. They take positional arguments only and leave those unread that they have
no use for. Without an argument, or with none in its place, white space is what `strip` takes away
and `split` cuts at.
-/
namespace LiveDoc.StringMethod

def textArgument (m : StringMethod) (args : List Value) (i : Nat) : Except Fault (List Char) :=
  match args[i]? with
  | some (.str s) => .ok s.toList
  | some other => .error (.badMethodArgument m other.kind)
  | none => .error (.missingMethodArgument m)

/-- The first argument of a method that can do without it. -/
def optionalText (m : StringMethod) (args : List Value) : Except Fault (Option (List Char)) :=
  match args with
  | [] => .ok none
  | .nothing :: _ => .ok none
  | _ => (textArgument m args 0).map some

def ofChars (text : List Char) : Value := .str (String.ofList text)

def strings (texts : List (List Char)) : Value := .list (texts.map ofChars)

def stripped (text : List Char) (drop : Option (List Char)) : List Char :=
  match drop with
  | none => Text.trim text
  | some chars => Text.trimBy (chars.contains ·) text

def splitAt (text : List Char) (separator : Option (List Char)) :
    Except Fault (List (List Char)) :=
  match separator with
  | none => .ok (Text.words text)
  | some [] => .error .emptySeparator
  | some separator => .ok (Text.splitOn separator text)

/-- The items of a list as texts; `place` is that of the first one. -/
def pieces (place : Nat) : List Value → Except Fault (List (List Char))
  | [] => .ok []
  | .str s :: rest => do return s.toList :: (← pieces (place + 1) rest)
  | other :: _ => .error (.badJoinItem place other.kind)

def joined (separator : List Char) (args : List Value) : Except Fault Value := do
  match args with
  | [] => .error .nothingToJoin
  | items :: _ => return ofChars (Text.intercalate separator (← pieces 0 (← items.visited)))

def apply (m : StringMethod) (receiver : String) (args : List Value) : Except Fault Value := do
  let text := receiver.toList
  match m with
  | upper => return ofChars (Text.toUpper text)
  | lower => return ofChars (Text.toLower text)
  | strip => return ofChars (stripped text (← m.optionalText args))
  | split => return strings (← splitAt text (← m.optionalText args))
  | join => joined text args
  | startsWith => return .bool ((← m.textArgument args 0).isPrefixOf text)
  | endsWith => return .bool ((← m.textArgument args 0).isSuffixOf text)
  | replace =>
    let part ← m.textArgument args 0
    let target ← m.textArgument args 1
    return ofChars (Text.replace part target text)

def call (m : StringMethod) (receiver : String) (args : Arguments) : Except Fault Value :=
  match args.named with
  | (keyword, _) :: _ => .error (.unknownKeyword m.name keyword)
  | [] => m.apply receiver args.positional

end LiveDoc.StringMethod
