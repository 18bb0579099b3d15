import LineScript.Proofs.Operations

/-! How an expression is resolved. A bound name yields its value. Otherwise the rule of the
expression decides the kind of the value, and an expression fails exactly if it divides by zero, is a
run of digits too long for an integer, or has a point without being a number in range. -/

namespace LineScript

def Text.HasOperator (t : Text) : Prop := ∃ b ∈ t, Arithmetic.isOperator b = true

instance (t : Text) : Decidable t.HasOperator :=
  decidable_of_iff (t.any Arithmetic.isOperator = true) List.any_eq_true

def Text.StartsWithDigit (t : Text) : Prop := ∃ b rest, t = b :: rest ∧ isDigit b = true

/-- A point that a digit follows stands at the front. -/
def Text.StartsWithPoint (t : Text) : Prop := ∃ rest, t = dot :: rest ∧ StartsWithDigit rest

namespace Literal

/-- The longest number at the front of a text. -/
structure Parts.Leads (p : Parts) (t : Text) : Prop where
  numeral : p.IsNumeral
  front : p.text <+: t
  longest : ∀ q : Parts, q.IsNumeral → q.text <+: t → q.text.length ≤ p.text.length

theorem Parts.leads_ofText {t : Text} (h : (ofText t).mantissa ≠ []) : (ofText t).Leads t where
  numeral := isNumeral_ofText h
  front := text_isPrefix t
  longest := by
    rintro q hq ⟨rest, rfl⟩
    exact hq.length_le rest

/-- Where a number stands at the front, digits are read. -/
theorem Parts.IsNumeral.mantissa_ofText {p : Parts} (h : p.IsNumeral) (rest : Text) :
    (ofText (p.text ++ rest)).mantissa ≠ [] := by
  rw [text_eq, List.append_assoc, List.append_assoc, List.append_assoc]
  simp only [ofText, Parts.mantissa, h.sign_append, List.drop_left]
  have hmantissa := h.mantissa
  rw [Parts.mantissa] at hmantissa
  by_cases hwhole : p.whole = []
  · rcases h.fraction with hfraction | ⟨ds, hds, hfraction⟩
    · exact absurd (by simp [hwhole, hfraction]) hmantissa
    · have hne : ds ≠ [] := by simpa [hwhole, hfraction] using hmantissa
      have hnone : digits (Text.dot :: (ds ++ (p.exponent ++ rest))) = [] :=
        List.takeWhile_cons_of_neg (by decide)
      rw [hwhole, hfraction, List.nil_append, List.cons_append, hnone, List.length_nil,
        List.drop_zero, List.nil_append, fractionOf, if_pos (by decide), digits_append_digits hds]
      exact List.append_ne_nil_of_left_ne_nil hne _
  · rw [digits_append_digits h.whole]
    exact List.append_ne_nil_of_left_ne_nil (List.append_ne_nil_of_left_ne_nil hwhole _) _

/-- There is only one longest number, the one that is read. -/
theorem Parts.Leads.eq_ofText {p : Parts} {t : Text} (h : p.Leads t) :
    (ofText t).mantissa ≠ [] ∧ p = ofText t := by
  obtain ⟨rest, hrest⟩ := h.front
  have hmantissa : (ofText t).mantissa ≠ [] := hrest ▸ h.numeral.mantissa_ofText rest
  have hread := isNumeral_ofText hmantissa
  have hle := h.longest _ hread (text_isPrefix t)
  have hge : p.text.length ≤ (ofText t).text.length := hrest ▸ h.numeral.length_le rest
  have htext : p.text = (ofText t).text :=
    (List.prefix_of_prefix_length_le h.front (text_isPrefix t) hge).eq_of_length (by omega)
  have hback {q : Parts} (hq : q.IsNumeral) : ofText q.text = q := by
    simpa using hq.ofText_append ends_nil
  exact ⟨hmantissa, by rw [← hback h.numeral, htext, hback hread]⟩

theorem float_eq_expectedDigits_iff (t : Text) :
    float t = .error .expectedDigits ↔ (Parts.ofText t).mantissa = [] := by
  rw [float]
  split
  · simp_all
  · split <;> simp_all

theorem float_eq_floatOutOfRange_iff (t : Text) :
    float t = .error .floatOutOfRange ↔ ∃ p : Parts, p.Leads t ∧ p.toFloat? = none := by
  constructor
  · intro h
    rw [float] at h
    split at h
    · exact absurd h (by simp)
    · rename_i hmantissa
      split at h
      · exact absurd h (by simp)
      · rename_i hvalue
        exact ⟨_, Parts.leads_ofText hmantissa, hvalue⟩
  · rintro ⟨p, hp, hvalue⟩
    obtain ⟨hmantissa, rfl⟩ := hp.eq_ofText
    simp only [float, if_neg hmantissa, hvalue]

theorem float_ne_integerOutOfRange (t : Text) : float t ≠ .error .integerOutOfRange := by
  rw [float]
  split
  · simp
  · split <;> simp

/-- The greatest integer of 64 bits. -/
def greatestInteger : Nat := 9223372036854775807

theorem int64?_min_integerCap (n : Nat) :
    int64? (min n integerCap : Nat) =
      if n ≤ greatestInteger then some (Int64.ofInt n) else none := by
  by_cases hle : n ≤ greatestInteger
  · have hmin : min n integerCap = n := by
      simp only [greatestInteger, integerCap] at hle ⊢
      omega
    have hrange : -0x8000000000000000 ≤ (n : Int) ∧ (n : Int) < 0x8000000000000000 := by
      simp only [greatestInteger] at hle
      omega
    rw [hmin, int64?, if_pos hrange, if_pos hle]
  · have hrange : ¬ (-0x8000000000000000 ≤ ((min n integerCap : Nat) : Int) ∧
        ((min n integerCap : Nat) : Int) < 0x8000000000000000) := by
      simp only [greatestInteger, integerCap] at hle ⊢
      omega
    rw [int64?, if_neg hrange, if_neg hle]

/-- Digits at the front are read as an integer unless they denote too great a number. -/
theorem int_of_startsWithDigit {t : Text} (h : t.StartsWithDigit) :
    int t = if Text.digitsValue (digits t) ≤ greatestInteger then
      .ok ⟨Int64.ofInt (Text.digitsValue (digits t)), (digits t).length⟩
    else .error .integerOutOfRange := by
  obtain ⟨b, rest, rfl, hb⟩ := h
  have hdigits : digits (b :: rest) ≠ [] := by
    rw [digits, List.takeWhile_cons_of_pos hb]
    exact List.cons_ne_nil _ _
  have hunsigned : ¬ ([] : Text) = [Text.minus] := by simp
  simp only [int, sign_of_isDigit hb, List.length_nil, List.drop_zero, if_neg hdigits,
    if_neg hunsigned, cappedValue_eq, int64?_min_integerCap, Nat.zero_add]
  split_ifs <;> rfl

end Literal

/-- The causes for which an expression that names no variable fails. -/
def FailsFor (t : Text) : Cause → Prop
  | .divisionByZero => t.HasOperator ∧
    ∃ zero, Arithmetic.Reaches Text.plus t ⟨Text.slash, zero⟩ ∧ (zero == 0) = true
  | .literal .integerOutOfRange => ¬ t.HasOperator ∧ t.StartsWithDigit ∧
    Literal.greatestInteger < Text.digitsValue (Literal.digits t)
  | .literal .expectedDigits => ¬ t.HasOperator ∧ ¬ t.StartsWithDigit ∧ Text.dot ∈ t ∧
    ¬ t.StartsWithPoint
  | .literal .floatOutOfRange => ¬ t.HasOperator ∧ ¬ t.StartsWithDigit ∧ Text.dot ∈ t ∧
    ∃ p : Literal.Parts, p.Leads t ∧ p.toFloat? = none
  | .unterminatedSpan => False

/-- The kind of the values that a rule yields; a variable can have any. -/
def Rule.kind? : Rule → Option Kind
  | .empty => some .empty
  | .bound => none
  | .arithmetic => some .float
  | .integer => some .int
  | .float => some .float
  | .boolean => some .bool
  | .string => some .string

/-- The value that a trimmed expression has by a rule. -/
def Rule.resolve (s : Store) (t : Text) : Rule → Except EvalError Value
  | .empty => .ok .empty
  | .bound => .ok ((s.get? t).getD .empty)
  | .arithmetic =>
    match Arithmetic.value? t with
    | some f => .ok (.float f)
    | none => .error { cause := .divisionByZero, source := t }
  | .integer =>
    match Literal.int t with
    | .ok l => .ok (.int l.value)
    | .error e => .error { cause := .literal e, source := t }
  | .float =>
    match Literal.float t with
    | .ok l => .ok (.float l.value)
    | .error e => .error { cause := .literal e, source := t }
  | .boolean => .ok (.bool (t = "true"))
  | .string => .ok (.string t)

namespace Rule

theorem ofText_of_hasOperator {t : Text} (h : t.HasOperator) : ofText t = .arithmetic := by
  cases t with
  | nil =>
    obtain ⟨b, hb, -⟩ := h
    exact absurd hb List.not_mem_nil
  | cons b rest => rw [ofText_cons, if_pos (List.any_eq_true.2 h)]

theorem ofText_of_startsWithDigit {t : Text} (h : ¬ t.HasOperator) (hdigit : t.StartsWithDigit) :
    ofText t = .integer := by
  obtain ⟨b, rest, rfl, hb⟩ := hdigit
  rw [ofText_cons, if_neg (fun hany => h (List.any_eq_true.1 hany)), if_pos (by simp [hb])]

/-- A minus sign at the front makes an expression arithmetic, so that only digits are left for an
integer. -/
theorem isDigit_or_minus_of_plain {b : UInt8} {rest : Text} (h : ¬ Text.HasOperator (b :: rest))
    (hdigit : ¬ Text.StartsWithDigit (b :: rest)) :
    (Text.isDigit b || b == Text.minus) = false := by
  rw [Bool.or_eq_false_iff, beq_eq_false_iff_ne]
  constructor
  · by_contra hb
    exact hdigit ⟨b, rest, rfl, by simpa using hb⟩
  · rintro rfl
    exact h ⟨_, List.mem_cons_self, by decide⟩

theorem ofText_of_dot {t : Text} (h : ¬ t.HasOperator) (hdigit : ¬ t.StartsWithDigit)
    (hdot : Text.dot ∈ t) : ofText t = .float := by
  cases t with
  | nil => exact absurd hdot List.not_mem_nil
  | cons b rest =>
    rw [ofText_cons, if_neg (fun hany => h (List.any_eq_true.1 hany)),
      if_neg (by simp [isDigit_or_minus_of_plain h hdigit]), if_pos (List.contains_iff_mem.2 hdot)]

/-- Without operators, digits and points there is nothing to fail. -/
theorem ofText_of_plain {t : Text} (h : ¬ t.HasOperator) (hdigit : ¬ t.StartsWithDigit)
    (hdot : Text.dot ∉ t) : ofText t = .empty ∨ ofText t = .boolean ∨ ofText t = .string := by
  cases t with
  | nil => exact Or.inl rfl
  | cons b rest =>
    rw [ofText_cons, if_neg (fun hany => h (List.any_eq_true.1 hany)),
      if_neg (by simp [isDigit_or_minus_of_plain h hdigit]),
      if_neg (fun hmem => hdot (List.contains_iff_mem.1 hmem))]
    split_ifs
    · exact Or.inr (Or.inl rfl)
    · exact Or.inr (Or.inr rfl)

end Rule

/-- Behind a first byte that is no digit and no sign, a number needs a point with a digit. -/
theorem Literal.mantissa_ofText_eq_nil_iff {t : Text} (h : ¬ t.HasOperator)
    (hdigit : ¬ t.StartsWithDigit) : (Parts.ofText t).mantissa = [] ↔ ¬ t.StartsWithPoint := by
  cases t with
  | nil => exact iff_of_true (by decide) (by rintro ⟨rest, hnil, -⟩; exact absurd hnil (by simp))
  | cons b rest =>
    have hb : Text.isDigit b = false := by
      by_contra hb
      exact hdigit ⟨b, rest, rfl, by simpa using hb⟩
    have hne (o : Arithmetic.Operator) : b ≠ o.byte := by
      rintro rfl
      exact h ⟨_, List.mem_cons_self, o.isOperator_byte⟩
    rw [Parts.mantissa_ofText_cons hb (hne .plus) (hne .minus)]
    by_cases hdot : b = Text.dot
    · subst hdot
      have hpoint : Text.StartsWithPoint (Text.dot :: rest) ↔ Text.StartsWithDigit rest := by
        constructor
        · rintro ⟨rest', hrest, hdigits⟩
          exact (List.cons.inj hrest).2 ▸ hdigits
        · exact fun hdigits => ⟨rest, rfl, hdigits⟩
      rw [if_pos rfl, hpoint]
      cases rest with
      | nil => exact iff_of_true rfl (by rintro ⟨c, more, hnil, -⟩; exact absurd hnil (by simp))
      | cons c rest =>
        rw [Literal.digits, List.takeWhile_eq_nil_iff]
        constructor
        · rintro hnone ⟨c', rest', hrest, hc⟩
          obtain ⟨rfl, rfl⟩ := List.cons.inj hrest
          exact hnone (by simp) hc
        · exact fun hnone _ hc => hnone ⟨c, rest, rfl, hc⟩
    · rw [if_neg hdot]
      refine iff_of_true rfl ?_
      rintro ⟨rest', hrest, -⟩
      exact hdot (List.cons.inj hrest).1

theorem evaluateUnbound_of_failsFor {t : Text} {cause : Cause} (h : FailsFor t cause) :
    evaluateUnbound t = .error { cause, source := t } := by
  cases cause with
  | divisionByZero =>
    obtain ⟨hoperator, hzero⟩ := h
    simp only [evaluateUnbound, Rule.ofText_of_hasOperator hoperator,
      (Arithmetic.value?_eq_none_iff t).2 hzero]
  | unterminatedSpan => exact absurd h id
  | literal e =>
    cases e with
    | integerOutOfRange =>
      obtain ⟨hoperator, hdigit, hgreat⟩ := h
      simp only [evaluateUnbound, Rule.ofText_of_startsWithDigit hoperator hdigit,
        Literal.int_of_startsWithDigit hdigit, if_neg (Nat.not_le.2 hgreat)]
    | expectedDigits =>
      obtain ⟨hoperator, hdigit, hdot, hpoint⟩ := h
      have hfloat := (Literal.float_eq_expectedDigits_iff t).2
        ((Literal.mantissa_ofText_eq_nil_iff hoperator hdigit).2 hpoint)
      simp only [evaluateUnbound, Rule.ofText_of_dot hoperator hdigit hdot, hfloat]
    | floatOutOfRange =>
      obtain ⟨hoperator, hdigit, hdot, hbeyond⟩ := h
      simp only [evaluateUnbound, Rule.ofText_of_dot hoperator hdigit hdot,
        (Literal.float_eq_floatOutOfRange_iff t).2 hbeyond]

theorem failsFor_of_evaluateUnbound {t : Text} {err : EvalError}
    (h : evaluateUnbound t = .error err) : FailsFor t err.cause := by
  by_cases hoperator : t.HasOperator
  · simp only [evaluateUnbound, Rule.ofText_of_hasOperator hoperator] at h
    split at h
    · exact absurd h (by simp)
    · rename_i hnone
      obtain rfl := Except.error.inj h
      exact ⟨hoperator, (Arithmetic.value?_eq_none_iff t).1 hnone⟩
  by_cases hdigit : t.StartsWithDigit
  · simp only [evaluateUnbound, Rule.ofText_of_startsWithDigit hoperator hdigit,
      Literal.int_of_startsWithDigit hdigit] at h
    split_ifs at h with hle
    obtain rfl := Except.error.inj h
    exact ⟨hoperator, hdigit, Nat.not_le.1 hle⟩
  by_cases hdot : Text.dot ∈ t
  · simp only [evaluateUnbound, Rule.ofText_of_dot hoperator hdigit hdot] at h
    split at h
    · exact absurd h (by simp)
    · rename_i e hfloat
      obtain rfl := Except.error.inj h
      cases e with
      | expectedDigits =>
        refine ⟨hoperator, hdigit, hdot, ?_⟩
        exact (Literal.mantissa_ofText_eq_nil_iff hoperator hdigit).1
          ((Literal.float_eq_expectedDigits_iff t).1 hfloat)
      | integerOutOfRange => exact absurd hfloat (Literal.float_ne_integerOutOfRange t)
      | floatOutOfRange =>
        exact ⟨hoperator, hdigit, hdot, (Literal.float_eq_floatOutOfRange_iff t).1 hfloat⟩
  · rcases Rule.ofText_of_plain hoperator hdigit hdot with hrule | hrule | hrule <;>
      simp [evaluateUnbound, hrule] at h

theorem evaluateUnbound_source {t : Text} {err : EvalError} (h : evaluateUnbound t = .error err) :
    err = { cause := err.cause, source := t } := by
  have hfails := evaluateUnbound_of_failsFor (failsFor_of_evaluateUnbound h)
  exact Except.error.inj (h.symm.trans hfails)

namespace Store

/-- Evaluation goes by the rule that is reported. -/
theorem resolve_rule (s : Store) (expr : Text) :
    (s.rule expr).resolve s expr.trim = s.evaluate expr := by
  simp only [rule, evaluate]
  cases hbound : s.get? expr.trim with
  | some v => simp [Rule.resolve, hbound]
  | none =>
    simp only [evaluateUnbound]
    cases Rule.ofText expr.trim with
    | arithmetic => cases h : Arithmetic.value? expr.trim <;> simp only [Rule.resolve, h]
    | integer => cases h : Literal.int expr.trim <;> simp only [Rule.resolve, h]
    | float => cases h : Literal.float expr.trim <;> simp only [Rule.resolve, h]
    | bound => simp [Rule.resolve, hbound]
    | empty | boolean | string => rfl

/-- Evaluation by the number of the rule, which breaks down at a number that no rule has. -/
def checkedEvaluate (s : Store) (number : Nat) (expr : Text) :
    Option (Except EvalError Value) :=
  Rule.all[number]?.map fun r => r.resolve s expr.trim

theorem rule_of_get? {s : Store} {expr : Text} {v : Value} (h : s.get? expr.trim = some v) :
    s.rule expr = .bound := by
  simp only [rule, h]

theorem rule_of_unbound {s : Store} {expr : Text} (h : s.get? expr.trim = none) :
    s.rule expr ≠ .bound := by
  simp only [rule, h]
  cases expr.trim with
  | nil => simp [Rule.ofText]
  | cons b rest =>
    rw [Rule.ofText_cons]
    split_ifs <;> simp

theorem kind?_rule {s : Store} {expr : Text} {v : Value} (h : s.get? expr.trim = none)
    (hv : s.evaluate expr = .ok v) : (s.rule expr).kind? = some v.kind := by
  rw [← resolve_rule] at hv
  cases hr : s.rule expr with
  | bound => exact absurd hr (rule_of_unbound h)
  | arithmetic | integer | float =>
    simp only [hr, Rule.resolve] at hv
    split at hv
    · obtain rfl := Except.ok.inj hv
      rfl
    · exact absurd hv (by simp)
  | empty | boolean | string =>
    simp only [hr, Rule.resolve] at hv
    obtain rfl := Except.ok.inj hv
    rfl

end Store

/-- A bound name yields its value by the rule of bound names. Every other expression fails exactly
for a cause that is met, with itself as the source, and otherwise yields a value of the kind that
goes with its rule. The number of the rule is always one that a rule has. -/
theorem evaluate_resolved (s : Store) (expr : Text) :
    (∀ v, s.get? expr.trim = some v → s.rule expr = .bound ∧ s.evaluate expr = .ok v) ∧
    (s.get? expr.trim = none →
      (∀ err, s.evaluate expr = .error err ↔
        FailsFor expr.trim err.cause ∧ err = { cause := err.cause, source := expr.trim }) ∧
      ∀ v, s.evaluate expr = .ok v → (s.rule expr).kind? = some v.kind) ∧
    s.checkedEvaluate (Rule.all.idxOf (s.rule expr)) expr = some (s.evaluate expr) := by
  refine ⟨fun v hv => ⟨Store.rule_of_get? hv, Store.evaluate_of_get? hv⟩, fun hnone => ?_, ?_⟩
  · refine ⟨fun err => ⟨fun herr => ?_, fun ⟨hfails, heq⟩ => ?_⟩, fun v hv =>
      Store.kind?_rule hnone hv⟩
    · rw [Store.evaluate_of_unbound hnone] at herr
      exact ⟨failsFor_of_evaluateUnbound herr, evaluateUnbound_source herr⟩
    · rw [Store.evaluate_of_unbound hnone, evaluateUnbound_of_failsFor hfails, ← heq]
  · have hnumber : Rule.all[Rule.all.idxOf (s.rule expr)]? = some (s.rule expr) := by
      cases s.rule expr <;> rfl
    rw [Store.checkedEvaluate, hnumber, Option.map_some, s.resolve_rule]

theorem evaluate_resolved_flag :
    let s := Store.empty.set "flag" (.bool true)
    let digits : Text := "9223372036854775808"
    s.evaluate " flag " = .ok (.bool true) ∧
    s.evaluate digits = .error { cause := .literal .integerOutOfRange, source := digits } ∧
    (s.rule " true ").kind? = some .bool := by
  have hflag := (evaluate_resolved (Store.empty.set "flag" (.bool true)) " flag ").1 _ rfl
  have hdigits := ((evaluate_resolved (Store.empty.set "flag" (.bool true))
    "9223372036854775808").2.1 rfl).1 ⟨.literal .integerOutOfRange, "9223372036854775808", none⟩
  have htrue := ((evaluate_resolved (Store.empty.set "flag" (.bool true)) " true ").2.1 rfl).2
    (.bool true) rfl
  have beyond : FailsFor "9223372036854775808" (.literal .integerOutOfRange) :=
    ⟨by decide, ⟨_, _, rfl, by decide⟩, by decide⟩
  exact ⟨hflag.2, hdigits.2 ⟨beyond, rfl⟩, htrue⟩

end LineScript
