import LiveDoc.Value
import LiveDoc.Decimal.Shortest

/-!
How values are written. The written form of a value is one that reads back as an expression where
the value has such a form; the text of a string is the string itself, that of any other value its
written form.
-/
namespace LiveDoc.Value

/-- Whole numbers below this bound are written with one place after the point. -/
def wholeBound : Nat := 10000000000000000

def integerText (n : Int) : List Char :=
  (if n < 0 then ['-'] else []) ++ Nat.toDigits 10 n.natAbs

/-- A finite number without its sign. -/
def unsignedFloatText (p : Binary64.Parts) : String :=
  if p.isWhole && p.wholeAbs < wholeBound then p.wholeAbs.repr ++ ".0"
  else (Decimal.shortest p).positional

def floatText (x : Float) : String :=
  match Binary64.parts? x with
  | some p => (if p.negative then "-" else "") ++ unsignedFloatText p
  | none => if x.isNaN then "nan" else if 0.0 < x then "inf" else "-inf"

/-- Double quotes save the escapes of a string that holds single quotes and no double one. -/
def quoteFor (text : List Char) : Char :=
  if text.contains '\'' && ! text.contains '"' then '"' else '\''

def escaped (quote c : Char) : List Char :=
  match c with
  | '\\' => ['\\', '\\']
  | '\n' => ['\\', 'n']
  | '\r' => ['\\', 'r']
  | '\t' => ['\\', 't']
  | c => if c = quote then ['\\', c] else [c]

def quoted (text : List Char) : List Char :=
  let quote := quoteFor text
  quote :: text.flatMap (escaped quote) ++ [quote]

mutual

/-- The written form. -/
def written : Value → List Char
  | nothing => "None".toList
  | bool b => if b then "True".toList else "False".toList
  | int n => integerText n
  | float x => (floatText x).toList
  | str s => quoted s.toList
  | list items => '[' :: writtenItems items
  | dict entries => '{' :: writtenEntries entries
  | scope s => "<scope '".toList ++ s.path.toList ++ "'>".toList
  | builtin f => "<built-in function ".toList ++ f.name.toList ++ ['>']
  | method _ m => "<built-in method ".toList ++ m.name.toList ++ " of str object>".toList

/-- Items with a comma between two and the closing bracket. -/
def writtenItems : List Value → List Char
  | [] => [']']
  | [v] => v.written ++ [']']
  | v :: rest => v.written ++ ',' :: ' ' :: writtenItems rest

def writtenEntries : List (String × Value) → List Char
  | [] => ['}']
  | [(key, v)] => quoted key.toList ++ ':' :: ' ' :: v.written ++ ['}']
  | (key, v) :: rest =>
    quoted key.toList ++ ':' :: ' ' :: v.written ++ ',' :: ' ' :: writtenEntries rest

end

def repr (v : Value) : String := String.ofList v.written

def text : Value → String
  | str s => s
  | v => v.repr

end LiveDoc.Value
