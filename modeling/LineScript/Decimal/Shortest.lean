import LineScript.Decimal

/-!
The shortest decimal that reads back as a given float, and among the shortest the one nearest to
the float.
-/
namespace LineScript

namespace Ratio

def digitCount (n : Nat) : Nat := (Nat.toDigits 10 n).length

def log10 (r : Ratio) : Int :=
  if r.den ≤ r.num then (digitCount (r.num / r.den) : Int) - 1
  else -(digitCount ((r.den - 1) / r.num) : Int)

/-- The decimal of `count` significant digits that reads back as the bit pattern `b` of `r`, if
there is one: of the two neighbours of `r` on that grid, the nearer of those that do, an exact
half going to the even one. -/
def onGrid? (r : Ratio) (b count : Nat) : Option Decimal :=
  let exponent := r.log10 - (count - 1 : Nat)
  let s := r.scale 10 (-exponent)
  let below : Decimal := ⟨false, s.num / s.den, exponent⟩
  let above : Decimal := ⟨false, s.num / s.den + 1, exponent⟩
  match decide (below.magnitude.bits = b), decide (above.magnitude.bits = b) with
  | true, true => some ⟨false, s.round, exponent⟩
  | true, false => some below
  | false, true => some above
  | false, false => none

def exactDecimal (r : Ratio) : Decimal :=
  ⟨false, r.num * Nat.pow 5 r.den.log2, -(r.den.log2 : Int)⟩

end Ratio

namespace Decimal

def dropZeros : Nat → Decimal → Decimal
  | 0, d => d
  | fuel + 1, d =>
    if d.digits % 10 = 0 then dropZeros fuel ⟨d.negative, d.digits / 10, d.exponent + 1⟩ else d

/-- Seventeen digits are always enough, so that the exact value at the end is a formality. -/
def shortest (b : Nat) : Decimal :=
  let r := Ratio.ofBits b
  let d := ((List.range 17).findSome? fun k => r.onGrid? b (k + 1)).getD r.exactDecimal
  d.dropZeros (Ratio.digitCount d.digits)

end Decimal

end LineScript
