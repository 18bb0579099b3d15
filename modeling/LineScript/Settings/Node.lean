import LineScript.Settings.Scalar

/-! The nodes of a settings document, as they are written, without tags and anchors. This is part of
the stand-in for a YAML library. -/
namespace LineScript

inductive Node where
  | scalar (text : Text) (plain : Bool)
  | sequence (items : List Node)
  | mapping (entries : List (Node × Node))

namespace Node

def absent : Node := .scalar [] true

def spelling? : Node → Option Text
  | .scalar t _ => some t
  | _ => none

def isNull : Node → Bool
  | .scalar t plain => Scalar.datum t plain == .null
  | _ => false

def isMerge : Node → Bool
  | .scalar t plain => plain && t = "<<"
  | _ => false

def isTextKey : Node → Bool
  | .scalar t plain => match Scalar.datum t plain with
    | .text _ => true
    | _ => false
  | _ => false

inductive KeyForm where
  | scalar (spelling : Text)
  | sequence
  | mapping
  deriving DecidableEq

def keyForm : Node → KeyForm
  | .scalar t _ => .scalar t
  | .sequence _ => .sequence
  | .mapping _ => .mapping

/-- Whether a mapping can tell its keys apart: no two scalars are spelt alike, however they are
quoted, and at most one key is a sequence and one a mapping. -/
def hasDistinctKeys (entries : List (Node × Node)) : Bool :=
  let keys := entries.map (·.1.keyForm)
  keys.eraseDups.length = keys.length

mutual

def depth : Node → Nat
  | .scalar _ _ => 0
  | .sequence items => itemsDepth items + 1
  | .mapping entries => entriesDepth entries + 1

def itemsDepth : List Node → Nat
  | [] => 0
  | n :: rest => max n.depth (itemsDepth rest)

def entriesDepth : List (Node × Node) → Nat
  | [] => 0
  | (key, value) :: rest => max (max key.depth value.depth) (entriesDepth rest)

end

end Node

end LineScript
