import LiveDoc.Text.CodeRanges

/-!
White space as the Unicode property of that name has it, and the three operations built on it:
`trim` takes it away at both ends, `words` are the longest runs without it, and a text is blank
when it holds nothing else.
-/
namespace LiveDoc.Text

def isWhiteSpace (c : Char) : Bool :=
  let n := c.toNat
  (9 ≤ n && n ≤ 13) || n == 0x20 || n == 0x85 || n == 0xa0 || n == 0x1680 ||
    (0x2000 ≤ n && n ≤ 0x200a) || n == 0x2028 || n == 0x2029 || n == 0x202f || n == 0x205f ||
    n == 0x3000

/-- Takes away what `drop` picks at both ends. -/
def trimBy (drop : Char → Bool) (text : List Char) : List Char :=
  ((text.dropWhile drop).reverse.dropWhile drop).reverse

def trim (text : List Char) : List Char := trimBy isWhiteSpace text

def isBlank (text : List Char) : Bool := text.all isWhiteSpace

def words (text : List Char) : List (List Char) :=
  (pieces isWhiteSpace text).filter (! ·.isEmpty)

end LiveDoc.Text
