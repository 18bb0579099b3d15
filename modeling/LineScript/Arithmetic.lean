import LineScript.Literal

/-!
Arithmetic without precedence: number literals joined by operators, folded from the left. Reading
stops quietly at the first operand that is no literal, and any byte may stand where an operator is
expected.
-/
namespace LineScript

structure Operation where
  operator : UInt8
  operand : Float
  deriving DecidableEq

namespace Arithmetic

/-- Reads on after `skip` further bytes of the literal before; `pending` is the operator that waits
for its operand, and `seen` holds the operations so far, last first. -/
def operationsFrom : Nat → Option UInt8 → List Operation → Text → List Operation
  | _, _, seen, [] => seen.reverse
  | skip + 1, pending, seen, _ :: rest => operationsFrom skip pending seen rest
  | 0, pending, seen, b :: rest =>
    if Text.isBlank b then operationsFrom 0 pending seen rest
    else match pending with
      | none => operationsFrom 0 (some b) seen rest
      | some op =>
        match Literal.float (b :: rest) with
        | .ok l => operationsFrom (l.length - 1) none (⟨op, l.value⟩ :: seen) rest
        | .error _ => seen.reverse

def operations (t : Text) : List Operation := operationsFrom 0 (some Text.plus) [] t

/-- An unknown operator drops its operand; `none` is a division by zero. -/
def step (acc : Float) (o : Operation) : Option Float :=
  if o.operator == Text.plus then some (acc + o.operand)
  else if o.operator == Text.minus then some (acc - o.operand)
  else if o.operator == Text.times then some (acc * o.operand)
  else if o.operator == Text.slash then if o.operand == 0 then none else some (acc / o.operand)
  else some acc

def foldFrom (acc : Float) : List Operation → Option Float
  | [] => some acc
  | o :: rest =>
    match step acc o with
    | some next => foldFrom next rest
    | none => none

def value? (t : Text) : Option Float := foldFrom 0 (operations t)

def isOperator (b : UInt8) : Bool :=
  b == Text.plus || b == Text.minus || b == Text.times || b == Text.slash

end Arithmetic

end LineScript
