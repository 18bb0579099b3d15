import LineScript.Decimal
import LineScript.Text

/-!
Numbers with any number of digits, and the floats they are read as. Nineteen digits settle nearly
every number: further ones matter only if they may decide between two floats. Then eight hundred are
looked at, which is more than a point half way between two floats has.
-/
namespace LineScript

/-- The number `0.digits * 10 ^ point`, in which the first digit is not zero. -/
structure Significand where
  digits : Text
  point : Int
  deriving DecidableEq

namespace Significand

def isZero (b : UInt8) : Bool := b == 0x30

def ofParts (whole fraction : Text) : Significand :=
  let whole := whole.dropWhile isZero
  if whole = [] then
    ⟨fraction.dropWhile isZero, -((fraction.takeWhile isZero).length : Int)⟩
  else ⟨whole ++ fraction, whole.length⟩

def exceeds (n : Nat) (s : Significand) : Bool := (s.digits.drop n).any fun b => !isZero b

def take (n : Nat) (s : Significand) : Significand := { s with digits := s.digits.take n }

def decimal (negative : Bool) (power : Int) (s : Significand) : Decimal where
  negative
  digits := Text.digitsValue s.digits
  exponent := s.point + power - s.digits.length

def fewDigits : Nat := 19

def manyDigits : Nat := 800

/-- A last digit stands for all that are left out, and digits before the point that are left out do
not count as places. -/
def trimmed (s : Significand) : Significand :=
  let kept := s.digits.take manyDigits
  ⟨if s.exceeds manyDigits then kept ++ [0x31] else kept, min s.point manyDigits⟩

def nearestBits (d : Decimal) : Nat := min d.magnitude.bits infinityBits

/-- Whether the first few digits settle the float: no others follow, or none that could lead to the
next float. -/
def isSettled (power : Int) (s : Significand) : Bool :=
  let d := (s.take fewDigits).decimal false power
  !s.exceeds fewDigits || nearestBits { d with digits := d.digits + 1 } == nearestBits d

def toFloat? (negative : Bool) (power : Int) (s : Significand) : Option Float :=
  ((if s.isSettled power then s.take fewDigits else s.trimmed).decimal negative power).toFloat?

end Significand

end LineScript
