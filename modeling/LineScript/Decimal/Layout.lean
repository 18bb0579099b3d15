import LineScript.Decimal.Shortest
import LineScript.Text

/-! How a float is written: its shortest digits, laid out by a record of conventions. -/
namespace LineScript

structure FloatLayout where
  /-- The least decimal exponent that is written without an exponent part. -/
  minPositional : Int
  /-- The least decimal exponent, above the former, that is written with an exponent part. -/
  maxPositional : Int
  exponentWidth : Nat
  positiveInfinity : Text
  negativeInfinity : Text
  notANumber : Text

namespace FloatLayout

def standard : FloatLayout where
  minPositional := -4
  maxPositional := 6
  exponentWidth := 2
  positiveInfinity := "+Inf"
  negativeInfinity := "-Inf"
  notANumber := "NaN"

def exponentPart (l : FloatLayout) (e : Int) : Text :=
  let digits := Text.ofNat e.natAbs
  Text.cat ["e", if e < 0 then "-" else "+", List.replicate (l.exponentWidth - digits.length) 0x30,
    digits]

def pointed (digits : Text) (whole : Nat) : Text :=
  if digits.length ≤ whole then digits ++ List.replicate (whole - digits.length) 0x30
  else Text.cat [digits.take whole, ".", digits.drop whole]

def unsigned (l : FloatLayout) (d : Decimal) : Text :=
  let digits := Text.ofNat d.digits
  let e : Int := d.exponent + digits.length - 1
  if e < l.minPositional ∨ l.maxPositional ≤ e then pointed digits 1 ++ l.exponentPart e
  else if 0 ≤ e then pointed digits (e.toNat + 1)
  else Text.cat ["0.", List.replicate ((-e).toNat - 1) 0x30, digits]

def write (l : FloatLayout) (f : Float) : Text :=
  match FloatClass.ofFloat f with
  | .nan => l.notANumber
  | .infinite negative => if negative then l.negativeInfinity else l.positiveInfinity
  | .finite negative magnitude =>
    let body : Text := if magnitude = 0 then "0" else l.unsigned (Decimal.shortest magnitude)
    if negative then Text.minus :: body else body

end FloatLayout

end LineScript
