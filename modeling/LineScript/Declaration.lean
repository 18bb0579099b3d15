import LineScript.Evaluate
import LineScript.Line

/-! Declarations: lines of five fields that bind a name. -/
namespace LineScript

inductive DeclaredType where
  | int
  | float
  | string
  | boolean
  deriving DecidableEq

namespace DeclaredType

def name : DeclaredType → Text
  | .int => "int"
  | .float => "float"
  | .string => "string"
  | .boolean => "boolean"

def all : List DeclaredType := [.int, .float, .string, .boolean]

def ofName? (t : Text) : Option DeclaredType := all.find? (·.name = t)

def read (type : DeclaredType) (t : Text) : Except LiteralError Value :=
  match type with
  | .int => (Literal.int t).map fun l => .int l.value
  | .float => (Literal.float t).map fun l => .float l.value
  | .string => .ok (.string t)
  | .boolean => .ok (.bool (t = "true"))

end DeclaredType

structure Declaration where
  keyword : Text
  type : Text
  identifier : Text
  equals : Text
  value : Text
  /-- Where the value starts in the line, or the length of the line if it has no value. -/
  valueOffset : Nat
  deriving DecidableEq

namespace Declaration

def ofLine (line : Text) : Declaration :=
  let fs := Line.fields line
  let field (i : Nat) : Text := (fs[i]?.map (·.text)).getD []
  { keyword := field 0
    type := field 1
    identifier := field 2
    equals := field 3
    value := field 4
    valueOffset := (fs[4]?.map (·.start)).getD line.length }

def isKeyword (word : Text) : Bool := Line.declarationKeywords.contains word

/-- A line has no effect if its keyword is not spelt in full, its identifier is missing or its type
is unknown. -/
def effect? (d : Declaration) : Option DeclaredType :=
  if isKeyword d.keyword && d.identifier ≠ [] then DeclaredType.ofName? d.type else none

def run (d : Declaration) (s : Store) : Except EvalError Store :=
  match d.effect? with
  | none => .ok s
  | some type =>
    match type.read d.value with
    | .ok v => .ok (s.set d.identifier v)
    | .error e => .error { cause := .literal e, source := d.value }

end Declaration

def Store.assign (s : Store) (line : Text) : Except EvalError Store :=
  (Declaration.ofLine line).run s

end LineScript
