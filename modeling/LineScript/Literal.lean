import LineScript.Decimal.Significand
import LineScript.Fault

/-!
Number literals at the front of a text. The longest literal is taken and what follows it is left
alone.
-/
namespace LineScript

/-- A literal read from the front of a text, with the number of bytes it takes up. -/
structure Literal (α : Type) where
  value : α
  length : Nat
  deriving DecidableEq

namespace Literal

def sign (t : Text) : Text := t.take 1 |>.filter fun b => b == Text.plus || b == Text.minus

def digits (t : Text) : Text := t.takeWhile Text.isDigit

/-- One more than the greatest magnitude of a 64-bit integer. -/
def integerCap : Nat := 0x8000000000000001

/-- The number that digits denote, or `integerCap` if it is that or more. -/
def cappedValue (ds : Text) : Nat :=
  ds.foldl (fun n b => min (10 * n + Text.digitValue b) integerCap) 0

def int (t : Text) : Except LiteralError (Literal Int64) :=
  let s := sign t
  let ds := digits (t.drop s.length)
  if ds = [] then .error .expectedDigits
  else
    let magnitude : Int := cappedValue ds
    let n := if s = [Text.minus] then -magnitude else magnitude
    match int64? n with
    | some i => .ok ⟨i, s.length + ds.length⟩
    | none => .error .integerOutOfRange

structure Parts where
  sign : Text
  whole : Text
  fraction : Text
  exponent : Text

namespace Parts

def exponentOf (t : Text) : Text :=
  match t with
  | [] => []
  | mark :: rest =>
    if mark == 0x65 || mark == 0x45 then
      let s := Literal.sign rest
      let ds := digits (rest.drop s.length)
      if ds = [] then [] else mark :: (s ++ ds)
    else []

def fractionOf (t : Text) : Text :=
  match t with
  | [] => []
  | b :: rest => if b == Text.dot then b :: digits rest else []

def ofText (t : Text) : Parts :=
  let s := Literal.sign t
  let afterSign := t.drop s.length
  let whole := digits afterSign
  let afterWhole := afterSign.drop whole.length
  let fraction := fractionOf afterWhole
  ⟨s, whole, fraction, exponentOf (afterWhole.drop fraction.length)⟩

def text (p : Parts) : Text := Text.cat [p.sign, p.whole, p.fraction, p.exponent]

def mantissa (p : Parts) : Text := p.whole ++ p.fraction.drop 1

/-- The number that the digits of an exponent denote; from ten thousand on, further digits are of
no account. -/
def exponentValue (ds : Text) : Nat :=
  ds.foldl (fun n b => if n < 10000 then 10 * n + Text.digitValue b else n) 0

def power (p : Parts) : Int :=
  let afterMark := p.exponent.drop 1
  let s := Literal.sign afterMark
  let n : Int := exponentValue (afterMark.drop s.length)
  if s = [Text.minus] then -n else n

def isNegative (p : Parts) : Bool := p.sign = [Text.minus]

def significand (p : Parts) : Significand := .ofParts p.whole (p.fraction.drop 1)

def toFloat? (p : Parts) : Option Float := p.significand.toFloat? p.isNegative p.power

end Parts

def float (t : Text) : Except LiteralError (Literal Float) :=
  let p := Parts.ofText t
  if p.mantissa = [] then .error .expectedDigits
  else match p.toFloat? with
    | some f => .ok ⟨f, p.text.length⟩
    | none => .error .floatOutOfRange

end Literal

end LineScript
