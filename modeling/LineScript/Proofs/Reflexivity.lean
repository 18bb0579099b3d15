import LineScript.Proofs.Bindings
import LineScript.Proofs.Decimal.Special
import LineScript.Proofs.Resolution

/-! When an expression that is evaluated twice has equal values. A value differs from itself only if
it is a float that is no number. Declarations bind none, and no literal is one. Arithmetic starts
with a number and takes only finite operands, so it comes to one exactly if a product that has grown
to an infinity is multiplied by a zero; from there on it stays one. -/

namespace LineScript

theorem Value.equal_self_iff (v : Value) : v.equal v = true ↔ v ≠ .float .nan := by
  cases v with
  | float f => simp [equal]
  | _ => simp [equal]

namespace Arithmetic

/-- Some product on the way is an infinity multiplied by a zero. -/
def CancelsInfinity (acc : Float) (ops : List Operation) : Prop :=
  ∃ before zero after infinity, ops = before ++ ⟨Text.times, zero⟩ :: after ∧
    foldFrom acc before = some infinity ∧ infinity.isInf = true ∧ (zero == 0) = true

theorem not_cancelsInfinity_nil (acc : Float) : ¬ CancelsInfinity acc [] := by
  rintro ⟨before, zero, after, infinity, hsplit, -⟩
  exact absurd hsplit (by simp)

theorem cancelsInfinity_cons {acc next : Float} {o : Operation} {ops : List Operation}
    (h : step acc o = some next) : CancelsInfinity acc (o :: ops) ↔
      (o.operator = Text.times ∧ acc.isInf = true ∧ (o.operand == 0) = true) ∨
        CancelsInfinity next ops := by
  constructor
  · rintro ⟨before, zero, after, infinity, hsplit, hfold, hinf, hzero⟩
    cases before with
    | nil =>
      obtain ⟨rfl, -⟩ := List.cons.inj hsplit
      obtain rfl := Option.some.inj hfold
      exact Or.inl ⟨rfl, hinf, hzero⟩
    | cons o' before =>
      obtain ⟨rfl, htail⟩ := List.cons.inj hsplit
      rw [foldFrom, h] at hfold
      exact Or.inr ⟨before, zero, after, infinity, htail, hfold, hinf, hzero⟩
  · rintro (⟨htimes, hinf, hzero⟩ | ⟨before, zero, after, infinity, rfl, hfold, hinf, hzero⟩)
    · exact ⟨[], o.operand, ops, acc, by rw [← htimes]; rfl, rfl, hinf, hzero⟩
    · exact ⟨o :: before, zero, after, infinity, rfl, by rw [foldFrom, h]; exact hfold, hinf, hzero⟩

/-- One operation with a finite operand makes a number into none only by multiplying an infinity by
a zero. -/
theorem isNaN_step {acc next : Float} {o : Operation} (finite : o.operand.isFinite = true)
    (h : step acc o = some next) : next.isNaN = true ↔ acc.isNaN = true ∨
      (o.operator = Text.times ∧ acc.isInf = true ∧ (o.operand == 0) = true) := by
  obtain ⟨operator, operand⟩ := o
  cases hknown : isOperator operator with
  | false =>
    have hne : operator ≠ Text.times := by
      rintro rfl
      exact Bool.noConfusion hknown
    rw [step_of_not_isOperator hknown] at h
    obtain rfl := Option.some.inj h
    simp [hne]
  | true =>
    simp only [isOperator, Bool.or_eq_true, beq_iff_eq] at hknown
    rcases hknown with ((rfl | rfl) | rfl) | rfl
    · obtain rfl := Option.some.inj h
      rw [isNaN_add_finite finite]
      simp [show Text.plus ≠ Text.times by decide]
    · obtain rfl := Option.some.inj h
      rw [isNaN_sub_finite finite]
      simp [show Text.minus ≠ Text.times by decide]
    · obtain rfl := Option.some.inj h
      rw [isNaN_mul_finite finite]
      simp
    · have hdivides := (Operator.step_byte .over acc operand).symm.trans h
      simp only [Operator.apply] at hdivides
      split at hdivides
      · exact absurd hdivides (by simp)
      · rename_i hnonzero
        obtain rfl := Option.some.inj hdivides
        rw [isNaN_div_finite finite (by simpa using hnonzero)]
        simp [show Text.slash ≠ Text.times by decide]

theorem isNaN_foldFrom {acc f : Float} {ops : List Operation}
    (finite : ∀ o ∈ ops, o.operand.isFinite = true) (h : foldFrom acc ops = some f) :
    f.isNaN = true ↔ acc.isNaN = true ∨ CancelsInfinity acc ops := by
  induction ops generalizing acc with
  | nil =>
    obtain rfl := Option.some.inj h
    simp [not_cancelsInfinity_nil]
  | cons o ops ih =>
    obtain ⟨hfirst, hothers⟩ := List.forall_mem_cons.1 finite
    rw [foldFrom] at h
    cases hstep : step acc o with
    | none => simp [hstep] at h
    | some next =>
      rw [hstep] at h
      rw [ih hothers h, isNaN_step hfirst hstep, cancelsInfinity_cons hstep, or_assoc]

theorem Reaches.isFinite_operand {operator : UInt8} {t : Text} {o : Operation}
    (h : Reaches operator t o) : o.operand.isFinite = true := by
  induction h with
  | here _ hfloat => exact Literal.isFinite_of_float hfloat
  | later _ _ _ _ _ _ ih => exact ih

theorem eq_nan_of_value? {t : Text} {f : Float} (h : value? t = some f) :
    f = .nan ↔ CancelsInfinity 0 (operations t) := by
  have hfinite : ∀ o ∈ operations t, o.operand.isFinite = true := fun o ho =>
    ((mem_operations_iff t o).1 ho).isFinite_operand
  have hzero : (0 : Float) ≠ .nan := by decide
  have hnan := isNaN_foldFrom hfinite h
  simpa [hzero, Float.isNaN_eq_decide_eq_nan] using hnan

end Arithmetic

namespace Store

/-- The stores that declarations make from nothing. -/
inductive Declared : Store → Prop
  | empty : Declared Store.empty
  | assign {s s' : Store} {line : Text} : Declared s → s.assign line = .ok s' → Declared s'

theorem ne_nan_of_read {type : DeclaredType} {t : Text} : type.read t ≠ .ok (.float .nan) := by
  intro h
  cases type with
  | float =>
    rw [DeclaredType.read] at h
    cases hfloat : Literal.float t with
    | error e => rw [hfloat] at h; exact absurd h (by simp [Except.map])
    | ok l =>
      rw [hfloat] at h
      have hnan : l.value = .nan := Value.float.inj (Except.ok.inj h)
      exact ne_nan_of_isFinite (Literal.isFinite_of_float hfloat) hnan
  | int =>
    rw [DeclaredType.read] at h
    cases hint : Literal.int t <;> rw [hint] at h <;> exact absurd h (by simp [Except.map])
  | string | boolean => exact absurd h (by simp [DeclaredType.read])

/-- No declared variable holds a float that is no number. -/
theorem Declared.get?_ne_nan {s : Store} (h : s.Declared) (name : Text) :
    s.get? name ≠ some (.float .nan) := by
  induction h with
  | empty => simp [get?_empty]
  | @assign s s' line _ hassign ih =>
    rw [assign_eq] at hassign
    cases hbinding : (Declaration.ofLine line).binding with
    | error err => simp [hbinding, Except.map] at hassign
    | ok b =>
      rw [hbinding] at hassign
      obtain rfl := Except.ok.inj hassign
      cases b with
      | none => exact ih
      | some entry =>
        obtain ⟨bound, v⟩ := entry
        obtain ⟨type, -, -, hread⟩ := Declaration.exists_effect?_of_binding hbinding
        by_cases hname : name = bound
        · subst hname
          intro hget
          obtain rfl := Option.some.inj ((get?_set_self s name v).symm.trans hget)
          exact ne_nan_of_read hread
        · intro hget
          exact ih ((get?_set_of_ne s hname v).symm.trans hget)

/-- Of what an expression can come to, only arithmetic that multiplies an infinity by a zero is a
float that is no number. -/
theorem Declared.eq_nan_iff {s : Store} (h : s.Declared) {expr : Text} {v : Value}
    (hv : s.evaluate expr = .ok v) : v = .float .nan ↔ s.rule expr = .arithmetic ∧
      Arithmetic.CancelsInfinity 0 (Arithmetic.operations expr.trim) := by
  rw [← resolve_rule] at hv
  cases hrule : s.rule expr with
  | bound =>
    refine iff_of_false ?_ (by simp)
    rintro rfl
    cases hget : s.get? expr.trim with
    | none => exact absurd hrule (rule_of_unbound hget)
    | some w =>
      simp only [hrule, Rule.resolve, hget] at hv
      obtain rfl := Except.ok.inj hv
      exact h.get?_ne_nan _ hget
  | arithmetic =>
    simp only [hrule, Rule.resolve] at hv
    split at hv
    · rename_i f hvalue
      obtain rfl := Except.ok.inj hv
      simp [Arithmetic.eq_nan_of_value? hvalue]
    · exact absurd hv (by simp)
  | float =>
    simp only [hrule, Rule.resolve] at hv
    split at hv
    · rename_i l hfloat
      obtain rfl := Except.ok.inj hv
      simp [ne_nan_of_isFinite (Literal.isFinite_of_float hfloat)]
    · exact absurd hv (by simp)
  | integer =>
    simp only [hrule, Rule.resolve] at hv
    split at hv
    · obtain rfl := Except.ok.inj hv
      simp
    · exact absurd hv (by simp)
  | empty | boolean | string =>
    simp only [hrule, Rule.resolve] at hv
    obtain rfl := Except.ok.inj hv
    simp

end Store

/-- Two evaluations of an expression against the same declared variables have equal values, unless
the expression is arithmetic in which an infinity is multiplied by a zero. Its value is then a float
that is no number, the only value that differs from itself. -/
theorem evaluate_twice_equal_iff {s : Store} (declared : s.Declared) {expr : Text} {v w : Value}
    (first : s.evaluate expr = .ok v) (second : s.evaluate expr = .ok w) :
    (v.equal w = true ↔ ¬ (s.rule expr = .arithmetic ∧
      Arithmetic.CancelsInfinity 0 (Arithmetic.operations expr.trim))) ∧
    (v.equal w = false ↔ v = .float .nan) := by
  obtain rfl := Except.ok.inj (first.symm.trans second)
  constructor
  · rw [v.equal_self_iff, ne_eq, declared.eq_nan_iff first]
  · rw [← Bool.not_eq_true, v.equal_self_iff, not_not]

/-- An infinity that no zero multiplies is equal to itself. -/
theorem evaluate_twice_equal_iff_infinity :
    let s := Store.empty.set "x" (.float 2.5)
    s.Declared ∧ ∃ v, s.evaluate "1e308 * 10 - 1" = .ok v ∧ v.equal v = true := by
  intro s
  have hassign : Store.empty.assign "let float x = 2.5" = .ok s := by decide +kernel
  have declared : s.Declared := .assign .empty hassign
  have hvalue : s.evaluate "1e308 * 10 - 1" = .ok (.float (1e308 * 10)) := by decide +kernel
  have hdiffers := (evaluate_twice_equal_iff declared hvalue hvalue).2
  refine ⟨declared, _, hvalue, ?_⟩
  rw [← Bool.not_eq_false, hdiffers]
  decide +kernel

/-- Ten times the greatest power of ten is an infinity, which has no number as its product with a
zero. -/
theorem not_equal_twice : Store.empty.Declared ∧
    ∃ v, Store.empty.evaluate "1e308 * 10 * 0" = .ok v ∧ v.equal v = false :=
  ⟨.empty, .float (1e308 * 10 * 0), by decide +kernel, by decide +kernel⟩

end LineScript
