import LineScript.Evaluate

/-! A value as it is shown to the one who evaluated it. -/
namespace LineScript

/-- The value with its kind and the rule it comes from; texts are quoted. -/
def Value.shown (v : Value) (rule : Rule) : Text :=
  let body : Text := match v with
    | .empty => "<empty>"
    | .string t => Text.quote t
    | v => v.text
  Text.cat [body, " (", v.kind.name, ", ", rule.name, ")"]

end LineScript
