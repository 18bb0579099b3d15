import LineScript.Arithmetic
import LineScript.Store

/-! Expressions: the rule that applies to one and the value it yields. -/
namespace LineScript

inductive Rule where
  | empty
  | bound
  | arithmetic
  | integer
  | float
  | boolean
  | string
  deriving DecidableEq

namespace Rule

def all : List Rule := [.empty, .bound, .arithmetic, .integer, .float, .boolean, .string]

def name : Rule → Text
  | .empty => "empty"
  | .bound => "variable"
  | .arithmetic => "arithmetic"
  | .integer => "integer literal"
  | .float => "float literal"
  | .boolean => "boolean literal"
  | .string => "string literal"

def nameAt (n : Int) : Text :=
  match n with
  | .ofNat k => (all[k]?.map name).getD "unknown"
  | .negSucc _ => "unknown"

def ofText (t : Text) : Rule :=
  match t with
  | [] => .empty
  | b :: _ =>
    if t.any Arithmetic.isOperator then .arithmetic
    else if Text.isDigit b || b == Text.minus then .integer
    else if t.contains Text.dot then .float
    else if t = "true" || t = "false" then .boolean
    else .string

end Rule

namespace Store

/-- A bound name comes before every other reading. -/
def rule (s : Store) (expr : Text) : Rule :=
  let t := expr.trim
  match s.get? t with
  | some _ => .bound
  | none => .ofText t

end Store

def evaluateUnbound (t : Text) : Except EvalError Value :=
  match Rule.ofText t with
  | .empty | .bound => .ok .empty
  | .arithmetic =>
    match Arithmetic.value? t with
    | some f => .ok (.float f)
    | none => .error { cause := .divisionByZero, source := t }
  | .integer =>
    match Literal.int t with
    | .ok l => .ok (.int l.value)
    | .error e => .error { cause := .literal e, source := t }
  | .float =>
    match Literal.float t with
    | .ok l => .ok (.float l.value)
    | .error e => .error { cause := .literal e, source := t }
  | .boolean => .ok (.bool (t = "true"))
  | .string => .ok (.string t)

def Store.evaluate (s : Store) (expr : Text) : Except EvalError Value :=
  let t := expr.trim
  match s.get? t with
  | some v => .ok v
  | none => evaluateUnbound t

end LineScript
