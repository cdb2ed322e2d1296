/-!
Sets of code points, written as text: hexadecimal numbers and ranges `first-last`, separated by
blanks and in increasing order, as in `41-5a 5f 61-7a`. `CodeRanges.ofTable` reads such a table
once, and `contains` finds a code point in it by halving.
-/
namespace LiveDoc.Text

/-- Increasing and disjoint ranges of code points, both ends included. -/
abbrev CodeRanges := Array (Nat × Nat)

/-- The value of a lower-case hexadecimal digit. -/
def hexDigit (c : Char) : Nat :=
  if c.isDigit then c.toNat - '0'.toNat else c.toNat - 'a'.toNat + 10

def hexNumber (digits : List Char) : Nat :=
  digits.foldl (fun n c => 16 * n + hexDigit c) 0

/-- The pieces of a text between the characters that `cut` picks. -/
def pieces (cut : Char → Bool) (text : List Char) : List (List Char) :=
  text.foldr (fun c done => match done with
    | [] => if cut c then [[], []] else [[c]]
    | piece :: rest => if cut c then [] :: piece :: rest else (c :: piece) :: rest) [[]]

/-- The entries of a table, which blanks separate and which may take several lines. -/
def tableEntries (table : List String) : List (List Char) :=
  table.flatMap fun line => pieces (· = ' ') line.toList

namespace CodeRanges

def ofTable (table : List String) : CodeRanges :=
  ((tableEntries table).filterMap fun entry =>
    match pieces (· = '-') entry with
    | [only] => some (hexNumber only, hexNumber only)
    | [first, last] => some (hexNumber first, hexNumber last)
    | _ => none).toArray

/-- Looks between the entries `low` and `high`, the latter excluded. -/
def containsBetween (ranges : CodeRanges) (n low high : Nat) : Bool :=
  if low < high then
    let middle := (low + high) / 2
    match ranges[middle]? with
    | none => false
    | some (first, last) =>
      if n < first then containsBetween ranges n low middle
      else if last < n then containsBetween ranges n (middle + 1) high
      else true
  else false
termination_by high - low

def contains (ranges : CodeRanges) (c : Char) : Bool :=
  containsBetween ranges c.toNat 0 ranges.size

end CodeRanges

end LiveDoc.Text
