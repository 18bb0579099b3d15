import LineScript.Literal
import LineScript.Settings.Datum

/-!
What a scalar stands for. A quoted scalar is a text; a plain one may be a number, a truth value, a
date or nothing at all. This is part of the stand-in for a YAML library.
-/
namespace LineScript

namespace Scalar

def digit? (base : Nat) (b : UInt8) : Option Nat :=
  let n :=
    if Text.isDigit b then b.toNat - 0x30
    else if 0x61 ≤ b && b ≤ 0x66 then b.toNat - 0x61 + 10
    else if 0x41 ≤ b && b ≤ 0x46 then b.toNat - 0x41 + 10
    else base
  if n < base then some n else none

def inBase? (base : Nat) (t : Text) : Option Nat :=
  t.foldl (fun n b => n.bind fun n => (digit? base b).map fun d => base * n + d) (some 0)

/-- A leading zero makes the number octal, and `0x`, `0o` and `0b` name a base. -/
def natural? (t : Text) : Option Nat :=
  match t with
  | [] => none
  | first :: rest =>
    if first == 0x30 then
      match rest with
      | mark :: ds@(_ :: _) =>
        if mark == 0x62 || mark == 0x42 then inBase? 2 ds
        else if mark == 0x6f || mark == 0x4f then inBase? 8 ds
        else if mark == 0x78 || mark == 0x58 then inBase? 16 ds
        else inBase? 8 rest
      | _ => inBase? 8 rest
    else inBase? 10 t

def signed (sign : Text) (n : Nat) : Int := if sign = [Text.minus] then -(n : Int) else n

/-- An integer with an optional sign, if it is a 64-bit integer or, without a sign, an unsigned
one. -/
def integer? (t : Text) : Option Datum :=
  let sign := Literal.sign t
  (natural? (t.drop sign.length)).bind fun n =>
    match int64? (signed sign n) with
    | some i => some (.int i)
    | none =>
      if sign = [] ∧ n < 0x10000000000000000 then some (.natural (UInt64.ofNat n)) else none

def float? (t : Text) : Option Datum :=
  match Literal.float t with
  | .ok l => if l.length = t.length then some (.float l.value) else none
  | .error _ => none

def constant? (t : Text) : Option Datum :=
  let infinity : Float := 1 / 0
  if ["", "~", "null", "Null", "NULL"].any (Text.ofString · = t) then some .null
  else if ["true", "True", "TRUE"].any (Text.ofString · = t) then some (.bool true)
  else if ["false", "False", "FALSE"].any (Text.ofString · = t) then some (.bool false)
  else if [".nan", ".NaN", ".NAN"].any (Text.ofString · = t) then some (.float (0 / 0))
  else if [".inf", ".Inf", ".INF", "+.inf", "+.Inf", "+.INF"].any (Text.ofString · = t) then
    some (.float infinity)
  else if ["-.inf", "-.Inf", "-.INF"].any (Text.ofString · = t) then some (.float (-infinity))
  else none

def markedInteger? (t : Text) : Option Datum :=
  match t with
  | zero :: mark :: rest =>
    let base := if mark == 0x62 then some 2 else if mark == 0x6f then some 8 else none
    let sign := Literal.sign rest
    let digits := rest.drop sign.length
    if zero == 0x30 && sign ≠ [] && digits ≠ [] then
      (base.bind (inBase? · digits)).bind fun n => (int64? (signed sign n)).map .int
    else none
  | _ => none

/-- Underscores may stand anywhere after the first character. -/
def number (t : Text) : Datum :=
  match Timestamp.ofText? t with
  | some timestamp => .timestamp timestamp
  | none =>
    let digits := t.filter (· != 0x5f)
    ((integer? digits).or ((float? digits).or (markedInteger? digits))).getD (.text t)

/-- Whether each underscore of a text stands between two digits; `afterDigit` says that a digit has
just been read, and `afterMark` that an underscore has. -/
def groupsDigits : (afterDigit afterMark : Bool) → Text → Bool
  | _, afterMark, [] => !afterMark
  | afterDigit, afterMark, b :: rest =>
    if Text.isDigit b then groupsDigits true false rest
    else if b == 0x5f then afterDigit && groupsDigits false true rest
    else !afterMark && groupsDigits false false rest

def fraction (t : Text) : Datum :=
  if groupsDigits false false t then (float? (t.filter (· != 0x5f))).getD (.text t) else .text t

def plain (t : Text) : Datum :=
  match constant? t with
  | some d => d
  | none =>
    match t with
    | [] => .null
    | b :: _ =>
      if Text.isDigit b || b == Text.plus || b == Text.minus then number t
      else if b == Text.dot then fraction t
      else .text t

def datum (t : Text) (isPlain : Bool) : Datum := if isPlain then plain t else .text t

end Scalar

end LineScript
