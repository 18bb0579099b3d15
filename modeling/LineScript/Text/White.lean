import LineScript.Text.Symbol

/-! White space in the sense of the Unicode property `White_Space`, for the places that use it. -/
namespace LineScript.Text

def isWhiteChar (c : Char) : Bool :=
  let n := c.toNat
  (0x09 ≤ n && n ≤ 0x0d) || n == 0x20 || n == 0x85 || n == 0xa0 || n == 0x1680 ||
    (0x2000 ≤ n && n ≤ 0x200a) || n == 0x2028 || n == 0x2029 || n == 0x202f || n == 0x205f ||
    n == 0x3000

def isWhite : Symbol → Bool
  | .char c => isWhiteChar c
  | .stray _ => false

def trimWhite (t : Text) : Text :=
  ofSymbols ((((symbols t).dropWhile isWhite).reverse.dropWhile isWhite).reverse)

/-- The maximal runs of symbols that are not white space. -/
def words (t : Text) : List Text :=
  (((symbols t).splitOnP isWhite).filter (· ≠ [])).map ofSymbols

end LineScript.Text
