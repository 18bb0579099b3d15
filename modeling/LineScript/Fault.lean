import LineScript.Text.Quoted

/-! What can go wrong when text is turned into a value, and how it is worded. -/
namespace LineScript

inductive LiteralError where
  | expectedDigits
  | integerOutOfRange
  | floatOutOfRange
  deriving DecidableEq

def LiteralError.message : LiteralError → Text
  | .expectedDigits => "expected digits"
  | .integerOutOfRange => "integer out of range"
  | .floatOutOfRange => "float out of range"

inductive Fault where
  | malformedLiteral
  | divisionByZero
  | malformedInterpolation
  deriving DecidableEq

namespace Fault

def message : Fault → Text
  | .malformedLiteral => "malformed literal"
  | .divisionByZero => "division by zero"
  | .malformedInterpolation => "malformed interpolation"

def describe (fault : Fault) (source detail : Text) : Text :=
  Text.cat [fault.message,
    if source = [] then [] else Text.cat [" in ", Text.quote source],
    if detail = [] then [] else Text.cat [": ", detail]]

end Fault

inductive Cause where
  | literal (e : LiteralError)
  | divisionByZero
  | unterminatedSpan
  deriving DecidableEq

namespace Cause

def fault : Cause → Fault
  | .literal _ => .malformedLiteral
  | .divisionByZero => .divisionByZero
  | .unterminatedSpan => .malformedInterpolation

def detail : Cause → Text
  | .literal e => e.message
  | .divisionByZero => []
  | .unterminatedSpan => "unterminated \"\x7b\""

end Cause

structure EvalError where
  cause : Cause
  source : Text
  /-- Where in interpolated text the failure lies; absent outside interpolation. -/
  offset : Option Nat := none
  deriving DecidableEq

def EvalError.message (e : EvalError) : Text := e.cause.fault.describe e.source e.cause.detail

end LineScript
