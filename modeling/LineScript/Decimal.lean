/-!
Exact decimals and the binary64 number nearest to one. Everything is integer arithmetic, so that
reading a decimal is a fact about natural numbers and never about intermediate floats.
-/
namespace LineScript

/-- The number `± digits * 10 ^ exponent`. -/
structure Decimal where
  negative : Bool
  digits : Nat
  exponent : Int
  deriving DecidableEq

/-- A non-negative fraction of natural numbers; its denominator is positive where it is used. -/
structure Ratio where
  num : Nat
  den : Nat
  deriving DecidableEq

namespace Ratio

def scale (r : Ratio) (base : Nat) (exponent : Int) : Ratio :=
  if 0 ≤ exponent then ⟨r.num * Nat.pow base exponent.toNat, r.den⟩
  else ⟨r.num, r.den * Nat.pow base (-exponent).toNat⟩

def round (r : Ratio) : Nat :=
  let q := r.num / r.den
  let rest := 2 * (r.num % r.den)
  -- an exact half goes to the even neighbour
  if rest < r.den then q else if r.den < rest then q + 1 else q + q % 2

/-- The greatest `e` with `2 ^ e ≤ r`, for a positive fraction. -/
def log2 (r : Ratio) : Int :=
  let e : Int := (r.num.log2 : Int) - (r.den.log2 : Int)
  let s := r.scale 2 (-e)
  if s.num < s.den then e - 1 else e

def fractionSize : Nat := 0x10000000000000

def minUnit : Int := -1074

def unit (r : Ratio) : Int := max (r.log2 - 52) minUnit

/-- The exponent field and the fraction field are read together as one number, which a carry out of
the fraction increases as it should. -/
def bits (r : Ratio) : Nat :=
  if r.num = 0 then 0
  else (r.unit - minUnit).toNat * fractionSize + (r.scale 2 (-r.unit)).round

def ofBits (b : Nat) : Ratio :=
  let field : Nat := b / fractionSize
  let fraction : Nat := b % fractionSize
  if field = 0 then (⟨fraction, 1⟩ : Ratio).scale 2 minUnit
  else (⟨fractionSize + fraction, 1⟩ : Ratio).scale 2 (minUnit + (field : Int) - 1)

end Ratio

def infinityBits : Nat := 0x7ff * Ratio.fractionSize

def signBit : Nat := 0x8000000000000000

def floatOfBits (negative : Bool) (magnitude : Nat) : Float :=
  Float.ofBits (UInt64.ofNat ((if negative then signBit else 0) + magnitude))

namespace Decimal

def magnitude (d : Decimal) : Ratio := (⟨d.digits, 1⟩ : Ratio).scale 10 d.exponent

def toFloat? (d : Decimal) : Option Float :=
  let b := d.magnitude.bits
  if b < infinityBits then some (floatOfBits d.negative b) else none

end Decimal

def floatOfInt (i : Int) : Float := floatOfBits (i < 0) (⟨i.natAbs, 1⟩ : Ratio).bits

inductive FloatClass where
  | nan
  | infinite (negative : Bool)
  | finite (negative : Bool) (magnitude : Nat)

def FloatClass.ofFloat (f : Float) : FloatClass :=
  let b := f.toBits.toNat
  let negative := signBit ≤ b
  let magnitude := b % signBit
  if infinityBits < magnitude then .nan
  else if magnitude = infinityBits then .infinite negative
  else .finite negative magnitude

def int64? (n : Int) : Option Int64 :=
  if -0x8000000000000000 ≤ n ∧ n < 0x8000000000000000 then some (Int64.ofInt n) else none

/-- The integer part of a finite float, or `none` if the float is not finite or its integer part is
no 64-bit integer. -/
def truncate? (f : Float) : Option Int64 :=
  match FloatClass.ofFloat f with
  | .finite negative magnitude =>
    let r := Ratio.ofBits magnitude
    let n : Int := (r.num / r.den : Nat)
    int64? (if negative then -n else n)
  | _ => none

end LineScript
