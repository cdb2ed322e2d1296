/-!
Finding one text inside another. Occurrences are taken from the left and do not overlap:
`splitOn` cuts a text at them, and `replace` puts another text in the place of each. `intercalate`
puts a text between some parts. Between and around the characters of a text lies the empty text.
-/
namespace LiveDoc.Text

def occursIn (part : List Char) : List Char → Bool
  | [] => part.isEmpty
  | c :: rest => part.isPrefixOf (c :: rest) || occursIn part rest

/--
The parts between the occurrences of `separator`, which is not empty. `skip` characters still
belong to the occurrence found last, `piece` is the current part and `done` the parts before it,
both in reverse.
-/
def splitFrom (separator : List Char) (skip : Nat) (piece : List Char) (done : List (List Char)) :
    List Char → List (List Char)
  | [] => (piece.reverse :: done).reverse
  | c :: rest =>
    match skip with
    | skip + 1 => splitFrom separator skip piece done rest
    | 0 =>
      if separator.isPrefixOf (c :: rest) then
        splitFrom separator (separator.length - 1) [] (piece.reverse :: done) rest
      else splitFrom separator 0 (c :: piece) done rest

def splitOn (separator text : List Char) : List (List Char) :=
  splitFrom separator 0 [] [] text

def intercalate (separator : List Char) : List (List Char) → List Char
  | [] => []
  | first :: rest => first ++ rest.flatMap (separator ++ ·)

/--
The text with `target` in place of `separator`, which is not empty. `skip` characters still belong
to the occurrence found last, and `done` is what has been made of the text before, in reverse.
-/
def replaceFrom (separator target : List Char) (skip : Nat) (done : List Char) :
    List Char → List Char
  | [] => done.reverse
  | c :: rest =>
    match skip with
    | skip + 1 => replaceFrom separator target skip done rest
    | 0 =>
      if separator.isPrefixOf (c :: rest) then
        replaceFrom separator target (separator.length - 1) (target.reverse ++ done) rest
      else replaceFrom separator target 0 (c :: done) rest

/-- The text with `target` in place of `separator`, or around every character if it is empty. -/
def replace (separator target text : List Char) : List Char :=
  if separator.isEmpty then target ++ text.flatMap (· :: target)
  else replaceFrom separator target 0 [] text

end LiveDoc.Text
