/-!
The values of the fragment language. Integers have 64 bits: what computes one refuses a result
beyond them. A dictionary keeps its entries in the order of their insertion. A string method is
held together with the string it was taken from.
-/
namespace LiveDoc

/--
A scope as a fragment sees it. The document itself and its header have level zero; the path holds
the names of the scopes around it and its own, each behind a slash.
-/
structure Scope where
  name : String
  level : Nat
  path : String
deriving DecidableEq, Repr

inductive Builtin where
  | text
  | print
  | note
  | fail
  | str
  | repr
  | int
  | float
  | bool
  | len
  | range
deriving DecidableEq, Repr

namespace Builtin

def all : List Builtin := [text, print, note, fail, str, repr, int, float, bool, len, range]

def name : Builtin → String
  | text => "text"
  | print => "print"
  | note => "note"
  | fail => "fail"
  | str => "str"
  | repr => "repr"
  | int => "int"
  | float => "float"
  | bool => "bool"
  | len => "len"
  | range => "range"

end Builtin

inductive StringMethod where
  | upper
  | lower
  | strip
  | split
  | join
  | startsWith
  | endsWith
  | replace
deriving DecidableEq, Repr

namespace StringMethod

def all : List StringMethod :=
  [upper, lower, strip, split, join, startsWith, endsWith, replace]

def name : StringMethod → String
  | upper => "upper"
  | lower => "lower"
  | strip => "strip"
  | split => "split"
  | join => "join"
  | startsWith => "startswith"
  | endsWith => "endswith"
  | replace => "replace"

def ofName? (name : String) : Option StringMethod := all.find? (·.name == name)

end StringMethod

inductive Value where
  | nothing
  | bool (b : Bool)
  | int (n : Int)
  | float (x : Float)
  | str (s : String)
  | list (items : List Value)
  | dict (entries : List (String × Value))
  | scope (s : Scope)
  | builtin (f : Builtin)
  | method (receiver : String) (m : StringMethod)

/-- The types that messages speak of: built-in functions and string methods are of one type. -/
inductive Kind where
  | nothing
  | bool
  | int
  | float
  | str
  | list
  | dict
  | scope
  | builtin
deriving DecidableEq, Repr

def Kind.name : Kind → String
  | nothing => "NoneType"
  | bool => "bool"
  | int => "int"
  | float => "float"
  | str => "str"
  | list => "list"
  | dict => "dict"
  | scope => "scope"
  | builtin => "builtin_function_or_method"

namespace Value

def kind : Value → Kind
  | nothing => .nothing
  | bool _ => .bool
  | int _ => .int
  | float _ => .float
  | str _ => .str
  | list _ => .list
  | dict _ => .dict
  | scope _ => .scope
  | builtin _ => .builtin
  | method _ _ => .builtin

/-- Whether a condition with this value holds. -/
def isTrue : Value → Bool
  | nothing => false
  | bool b => b
  | int n => n != 0
  | float x => x != 0.0
  | str s => ! s.isEmpty
  | list items => ! items.isEmpty
  | dict entries => ! entries.isEmpty
  | scope _ => true
  | builtin _ => true
  | method _ _ => true

/-- Integers, and truth values as one and zero. -/
def toInt? : Value → Option Int
  | int n => some n
  | bool b => some (if b then 1 else 0)
  | _ => none

/-- Any number as the nearest floating-point one. -/
def toFloat? : Value → Option Float
  | float x => some x
  | v => v.toInt?.map Float.ofInt

end Value

end LiveDoc
