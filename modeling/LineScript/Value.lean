import LineScript.Decimal.Layout
import LineScript.Text.Quoted

/-! The values that variables hold, expressions yield and echo prints. -/
namespace LineScript

inductive Kind where
  | empty
  | int
  | float
  | bool
  | string
  deriving DecidableEq

namespace Kind

def all : List Kind := [.empty, .int, .float, .bool, .string]

def name : Kind → Text
  | .empty => "empty"
  | .int => "int"
  | .float => "float"
  | .bool => "bool"
  | .string => "string"

def nameAt (n : Int) : Text :=
  match n with
  | .ofNat k => (all[k]?.map name).getD (Text.cat ["kind(", Text.ofInt n, ")"])
  | .negSucc _ => Text.cat ["kind(", Text.ofInt n, ")"]

end Kind

inductive Value where
  | empty
  | int (i : Int64)
  | float (f : Float)
  | bool (b : Bool)
  | string (t : Text)
  deriving DecidableEq

namespace Value

def kind : Value → Kind
  | .empty => .empty
  | .int _ => .int
  | .float _ => .float
  | .bool _ => .bool
  | .string _ => .string

def text : Value → Text
  | .empty => []
  | .int i => Text.ofInt i.toInt
  | .float f => FloatLayout.standard.write f
  | .bool b => if b then "true" else "false"
  | .string t => t

/-- Floats lose their fraction and other kinds count as zero; a float beyond the 64-bit integers has
no integer. -/
def toInt? : Value → Option Int64
  | .int i => some i
  | .float f => truncate? f
  | _ => some 0

def toFloat : Value → Float
  | .int i => floatOfInt i.toInt
  | .float f => f
  | _ => 0

def isTrue : Value → Bool
  | .bool b => b
  | _ => false

def isEmpty : Value → Bool
  | .empty => true
  | _ => false

def debugText : Value → Text
  | .empty => "esp.Empty"
  | .string t => Text.cat ["esp.String(", Text.quote t, ")"]
  | v => Text.cat ["esp.", v.kind.name, "(", v.text, ")"]

/-- Whether two values have one kind and compare as equal: floats compare as numbers, so that a
NaN differs from itself and the two zeros agree. -/
def equal : Value → Value → Bool
  | .empty, .empty => true
  | .int a, .int b => a == b
  | .float a, .float b => a == b
  | .bool a, .bool b => a == b
  | .string a, .string b => a == b
  | _, _ => false

end Value

end LineScript
