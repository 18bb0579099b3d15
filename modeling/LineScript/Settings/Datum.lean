import LineScript.Settings.Timestamp
import LineScript.Value

/-!
Data as a decoder may yield them, and the values that variables can take from them.
-/
namespace LineScript

inductive Datum where
  | null
  | int (i : Int64)
  /-- An unsigned integer, which may be too large for a value. -/
  | natural (n : UInt64)
  | float (f : Float)
  | bool (b : Bool)
  | text (t : Text)
  | timestamp (t : Timestamp)
  | value (v : Value)
  /-- A datum of a type, named here, that no value has. -/
  | other (typeName : Text)
  deriving DecidableEq

inductive DatumError where
  | outOfRange (n : UInt64)
  | unsupported (typeName : Text)
  deriving DecidableEq

def DatumError.message : DatumError → Text
  | .outOfRange n => Text.cat ["integer ", Text.ofNat n.toNat, " out of range"]
  | .unsupported t => Text.cat ["unsupported value type ", t]

namespace Datum

def sequenceType : Text := "[]interface \x7b\x7d"

def mappingType : Text := "map[string]interface \x7b\x7d"

def generalMappingType : Text := "map[interface \x7b\x7d]interface \x7b\x7d"

def timestampType : Text := "time.Time"

/-- Whether two data are the same key: numbers are compared as numbers of their type. -/
def isSameKey : Datum → Datum → Bool
  | .float f, .float g => f == g
  | .timestamp s, .timestamp t => s.isSame t
  | d, e => d = e

def toValue : Datum → Except DatumError Value
  | .null => .ok .empty
  | .int i => .ok (.int i)
  | .natural n =>
    match int64? n.toNat with
    | some i => .ok (.int i)
    | none => .error (.outOfRange n)
  | .float f => .ok (.float f)
  | .bool b => .ok (.bool b)
  | .text t => .ok (.string t)
  | .timestamp _ => .error (.unsupported timestampType)
  | .value v => .ok v
  | .other t => .error (.unsupported t)

end Datum

end LineScript
