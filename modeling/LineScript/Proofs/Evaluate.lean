import LineScript.Evaluate
import LineScript.Proofs.Literal

/-! When an expression can be evaluated. White space after an expression makes no difference to
that. White space before one hides every number, so that only an expression with a point and without
operators fails. The linter judges an expression without the white space around it, and goes wrong
exactly for the spans that are misjudged. -/

namespace LineScript

theorem Rule.ofText_cons (b : UInt8) (rest : Text) :
    ofText (b :: rest) =
      if (b :: rest).any Arithmetic.isOperator then .arithmetic
      else if Text.isDigit b || b == Text.minus then .integer
      else if (b :: rest).contains Text.dot then .float
      else if b :: rest = Text.ofString "true" || b :: rest = Text.ofString "false" then .boolean
      else .string := rfl

theorem isOk_evaluateUnbound_cons (b : UInt8) (rest : Text) :
    (evaluateUnbound (b :: rest)).isOk =
      if (b :: rest).any Arithmetic.isOperator then (Arithmetic.value? (b :: rest)).isSome
      else if Text.isDigit b || b == Text.minus then (Literal.int (b :: rest)).isOk
      else if (b :: rest).contains Text.dot then (Literal.float (b :: rest)).isOk
      else true := by
  unfold evaluateUnbound
  rw [Rule.ofText_cons]
  by_cases hop : (b :: rest).any Arithmetic.isOperator = true
  · rw [if_pos hop, if_pos hop]
    cases Arithmetic.value? (b :: rest) <;> rfl
  rw [if_neg hop, if_neg hop]
  by_cases hdigit : (Text.isDigit b || b == Text.minus) = true
  · rw [if_pos hdigit, if_pos hdigit]
    cases Literal.int (b :: rest) <;> rfl
  rw [if_neg hdigit, if_neg hdigit]
  by_cases hdot : (b :: rest).contains Text.dot = true
  · rw [if_pos hdot, if_pos hdot]
    cases Literal.float (b :: rest) <;> rfl
  rw [if_neg hdot, if_neg hdot]
  split_ifs <;> rfl

theorem isOk_evaluateUnbound_append {w v : Text} (hw : w ≠ []) (hv : Text.Inert v) :
    (evaluateUnbound (w ++ v)).isOk = (evaluateUnbound w).isOk := by
  have hany : (w ++ v).any Arithmetic.isOperator = w.any Arithmetic.isOperator := by
    have hnone : v.any Arithmetic.isOperator = false := by
      rw [List.any_eq_false]
      intro b hb
      simp [Text.isOperator_of_isWhiteByte (hv b hb)]
    rw [List.any_append, hnone, Bool.or_false]
  have hdot : (w ++ v).contains Text.dot = w.contains Text.dot := by
    have hnone : Text.dot ∉ v := fun h =>
      Text.ne_of_isWhiteByte (hv _ h) (c := Text.dot) (by decide) (by decide) rfl
    simp [hnone]
  obtain ⟨b, rest, rfl⟩ := List.exists_cons_of_ne_nil hw
  rw [List.cons_append, isOk_evaluateUnbound_cons, isOk_evaluateUnbound_cons, ← List.cons_append,
    hany, hdot, Arithmetic.value?_append hv, Literal.int_append hv, Literal.float_append hv]

theorem isOk_evaluateUnbound_of_isWhiteByte {b : UInt8} (h : Text.isWhiteByte b = true)
    (hblank : Text.isBlank b = false) (rest : Text) :
    (evaluateUnbound (b :: rest)).isOk =
      ((b :: rest).any Arithmetic.isOperator || !(b :: rest).contains Text.dot) := by
  have hminus : b ≠ Text.minus := Text.ne_of_isWhiteByte h (by decide) (by decide)
  have hfirst : (Text.isDigit b || b == Text.minus) = false := by
    simp [Text.isDigit_of_isWhiteByte h, hminus]
  rw [isOk_evaluateUnbound_cons, hfirst, Arithmetic.value?_of_isWhiteByte h hblank,
    Literal.float_of_isWhiteByte h]
  cases (b :: rest).any Arithmetic.isOperator <;> cases (b :: rest).contains Text.dot <;> rfl

theorem isOk_evaluateUnbound_of_string {t : Text} (h : Rule.ofText t = .string) :
    (evaluateUnbound t).isOk = true := by
  rw [evaluateUnbound, h]
  rfl

namespace Store

theorem evaluate_of_get? {s : Store} {expr : Text} {v : Value} (h : s.get? expr.trim = some v) :
    s.evaluate expr = .ok v := by
  simp only [evaluate, h]

theorem evaluate_of_unbound {s : Store} {expr : Text} (h : s.get? expr.trim = none) :
    s.evaluate expr = evaluateUnbound expr.trim := by
  simp only [evaluate, h]

theorem isOk_evaluate (s : Store) (expr : Text) :
    (s.evaluate expr).isOk =
      ((s.get? expr.trim).isSome || (evaluateUnbound expr.trim).isOk) := by
  simp only [evaluate]
  cases s.get? expr.trim <;> rfl

/-- The store binds what the globals bind and, besides, only names that read as plain words. -/
def ExtendsByWords (s globals : Store) : Prop :=
  ∀ name, s.get? name = globals.get? name ∨
    ((s.get? name).isSome = true ∧ Rule.ofText name = .string)

theorem ExtendsByWords.refl (globals : Store) : globals.ExtendsByWords globals :=
  fun _ => Or.inl rfl

theorem ExtendsByWords.set {s globals : Store} (h : s.ExtendsByWords globals) {name : Text}
    (hname : Rule.ofText name = .string) (v : Value) : (s.set name v).ExtendsByWords globals := by
  intro other
  by_cases hother : other = name
  · subst hother
    exact Or.inr ⟨by rw [get?_set_self]; rfl, hname⟩
  · rw [get?_set_of_ne s hother]
    exact h other

/-- Declared words decide nothing: where an unbound expression fails, only a global can save it. -/
theorem ExtendsByWords.isSome_eq {s globals : Store} (h : s.ExtendsByWords globals) {t : Text}
    (hfails : (evaluateUnbound t).isOk = false) :
    (s.get? t).isSome = (globals.get? t).isSome := by
  rcases h t with hsame | ⟨_, hstring⟩
  · rw [hsame]
  · rw [isOk_evaluateUnbound_of_string hstring] at hfails
    exact absurd hfails (by simp)

end Store

/-- A span that the linter lets pass although its evaluation fails. Its source is bound nowhere, and
either starts with white space other than blanks and reads as a number with a point, or is the name
of a global before white space, a name that reads as a number which is none. -/
def Misjudged (globals : Store) (source : Text) : Prop :=
  globals.get? source.trim = none ∧
    if source.trim.startsWhite then
      Text.dot ∈ source.trim ∧ ∀ b ∈ source.trim, Arithmetic.isOperator b = false
    else
      (globals.get? (Text.trimWhite source)).isSome = true ∧
        (evaluateUnbound (Text.trimWhite source)).isOk = false

instance (globals : Store) (source : Text) : Decidable (Misjudged globals source) :=
  inferInstanceAs (Decidable (_ ∧ _))

/-- A span that passes the linter fails exactly if it is misjudged. -/
theorem evaluate_fails_iff_misjudged {s globals : Store} (h : s.ExtendsByWords globals)
    {source : Text} (hpass : (s.evaluate (Text.trimWhite source)).isOk = true) :
    (s.evaluate source).isOk = false ↔ Misjudged globals source := by
  -- what fails is bound neither by the globals nor by a declaration
  have hunbound : (s.evaluate source).isOk = false ↔
      globals.get? source.trim = none ∧ (evaluateUnbound source.trim).isOk = false := by
    rw [Store.isOk_evaluate, Bool.or_eq_false_iff]
    constructor
    · rintro ⟨hnone, hfails⟩
      rw [h.isSome_eq hfails] at hnone
      exact ⟨by simpa using hnone, hfails⟩
    · rintro ⟨hnone, hfails⟩
      rw [h.isSome_eq hfails, hnone]
      exact ⟨rfl, hfails⟩
  rw [hunbound, Misjudged]
  refine and_congr_right fun _ => ?_
  cases hstarts : source.trim.startsWhite with
  | true =>
    obtain ⟨b, rest, ht, hwhite, hblank⟩ := Text.exists_eq_cons_of_startsWhite hstarts
    rw [if_pos rfl, ht, isOk_evaluateUnbound_of_isWhiteByte hwhite hblank, Bool.or_eq_false_iff,
      and_comm, List.any_eq_false, Bool.not_eq_false', List.contains_iff_mem]
    simp only [Bool.not_eq_true]
  | false =>
    rw [if_neg (by simp)]
    obtain ⟨v, ht, hv, hnil⟩ := Text.exists_eq_trimWhite_append hstarts
    -- an empty expression passes on both sides; otherwise the white space is only at the end
    by_cases hw : Text.trimWhite source = []
    · rw [ht, hnil hw, hw]
      exact ⟨fun hfails => absurd hfails (by decide), fun hfails => absurd hfails.2 (by decide)⟩
    · rw [ht, isOk_evaluateUnbound_append hw hv]
      refine ⟨fun hfails => ⟨?_, hfails⟩, fun hglobal => hglobal.2⟩
      rw [Store.isOk_evaluate, Text.trim_trimWhite, hfails, Bool.or_false] at hpass
      rw [← h.isSome_eq hfails, hpass]

end LineScript
