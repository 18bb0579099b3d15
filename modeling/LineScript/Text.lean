/-! Script text as a sequence of bytes, with the byte classes that the language knows. -/
namespace LineScript

/-- Text is bytes: a script need not be valid UTF-8, and every offset counts bytes. -/
abbrev Text := List UInt8

namespace Text

def ofString (s : String) : Text := s.toList.flatMap String.utf8EncodeChar

instance : Coe String Text := ⟨ofString⟩

def cat (parts : List Text) : Text := parts.flatten

def lf : UInt8 := 0x0a
def cr : UInt8 := 0x0d
def backslash : UInt8 := 0x5c
def openBrace : UInt8 := 0x7b
def closeBrace : UInt8 := 0x7d
def dot : UInt8 := 0x2e
def plus : UInt8 := 0x2b
def minus : UInt8 := 0x2d
def times : UInt8 := 0x2a
def slash : UInt8 := 0x2f
def colon : UInt8 := 0x3a

/-- A space or tab: only these are trimmed around lines and expressions. -/
def isBlank (b : UInt8) : Bool := b == 0x20 || b == 0x09

/-- A byte that separates the fields of a line: one of the six ASCII white-space bytes. -/
def isSpace (b : UInt8) : Bool := b == 0x20 || (0x09 ≤ b && b ≤ 0x0d)

def isDigit (b : UInt8) : Bool := 0x30 ≤ b && b ≤ 0x39

def isLetter (b : UInt8) : Bool := (0x61 ≤ b && b ≤ 0x7a) || (0x41 ≤ b && b ≤ 0x5a)

def trimRightBy (p : UInt8 → Bool) (t : Text) : Text := (t.reverse.dropWhile p).reverse

def trimBy (p : UInt8 → Bool) (t : Text) : Text := trimRightBy p (t.dropWhile p)

def trim (t : Text) : Text := trimBy isBlank t

def indent (t : Text) : Nat := (t.takeWhile isBlank).length

def dropLastByte (b : UInt8) (t : Text) : Text :=
  if t.getLast? = some b then t.dropLast else t

def joinWith (separator : Text) (parts : List Text) : Text := separator.intercalate parts

def ofNat (n : Nat) : Text := (Nat.toDigits 10 n).map fun c => c.toNat.toUInt8

def ofInt : Int → Text
  | .ofNat n => ofNat n
  | .negSucc n => minus :: ofNat (n + 1)

def digitValue (b : UInt8) : Nat := b.toNat - 0x30

def digitsValue (digits : Text) : Nat := digits.foldl (fun n b => 10 * n + digitValue b) 0

/-- A name as it may stand in prose: an ASCII letter or underscore, then letters, digits and
underscores. -/
def isIdentifier : Text → Bool
  | [] => false
  | b :: rest => (isLetter b || b == 0x5f) && rest.all fun c => isLetter c || isDigit c || c == 0x5f

end Text

end LineScript
