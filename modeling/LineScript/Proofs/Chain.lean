import LineScript.Proofs.Decimal.Grammar
import LineScript.Proofs.Evaluate

/-! Chains of arithmetic. A chain is a number and, behind it, links of an operator and a number
each. However it is written, with or without blanks around its numbers and operators, its value is
the fold of its links from the left, and a further operator with no number behind it is passed
over. -/

namespace LineScript

theorem Text.isWhiteByte_of_isBlank {b : UInt8} (h : isBlank b = true) : isWhiteByte b = true := by
  rw [isWhiteByte, isSpace_of_isBlank h, Bool.true_or]

namespace Arithmetic

inductive Operator where
  | plus
  | minus
  | times
  | over
  deriving DecidableEq

namespace Operator

def byte : Operator → UInt8
  | .plus => Text.plus
  | .minus => Text.minus
  | .times => Text.times
  | .over => Text.slash

/-- Applies an operator to two numbers. There is no result if a number is divided by zero. -/
def apply (acc operand : Float) : Operator → Option Float
  | .plus => some (acc + operand)
  | .minus => some (acc - operand)
  | .times => some (acc * operand)
  | .over => if operand == 0 then none else some (acc / operand)

theorem isOperator_byte (o : Operator) : isOperator o.byte = true := by cases o <;> decide

theorem isBlank_byte (o : Operator) : Text.isBlank o.byte = false := by cases o <;> decide

theorem step_byte (o : Operator) (acc operand : Float) :
    step acc ⟨o.byte, operand⟩ = o.apply acc operand := by cases o <;> rfl

theorem apply_eq_none_iff {o : Operator} {acc operand : Float} :
    o.apply acc operand = none ↔ o = .over ∧ (operand == 0) = true := by
  cases o <;> simp [apply]

end Operator

/-- A number as it is written, with the float that it is read as. -/
structure Numeral where
  parts : Literal.Parts
  value : Float
  written : parts.IsNumeral
  inRange : parts.toFloat? = some value

structure Link where
  operator : Operator
  operand : Numeral

def Link.operation (l : Link) : Operation := ⟨l.operator.byte, l.operand.value⟩

structure Chain where
  first : Numeral
  links : List Link

def Chain.value? (c : Chain) : Option Float :=
  c.links.foldlM (fun acc l => l.operator.apply acc l.operand.value) (0 + c.first.value)

def Blank (t : Text) : Prop := ∀ b ∈ t, Text.isBlank b = true

instance (t : Text) : Decidable (Blank t) := inferInstanceAs (Decidable (∀ b ∈ t, _))

theorem Blank.isOperator_eq_false {gap : Text} (h : Blank gap) {b : UInt8} (hb : b ∈ gap) :
    isOperator b = false :=
  Text.isOperator_of_isWhiteByte (Text.isWhiteByte_of_isBlank (h b hb))

/-- A text that spells the links of a chain. -/
inductive SpellsLinks : List Link → Text → Prop
  | none {gap : Text} : Blank gap → SpellsLinks [] gap
  | link {l : Link} {links : List Link} {before after rest : Text} :
    Blank before → Blank after → SpellsLinks links rest →
    SpellsLinks (l :: links)
      (before ++ l.operator.byte :: (after ++ (l.operand.parts.text ++ rest)))

/-- A text that spells a chain, with any blanks around its numbers and operators. -/
def Chain.Spells (c : Chain) (t : Text) : Prop :=
  ∃ gap rest, Blank gap ∧ SpellsLinks c.links rest ∧ t = gap ++ (c.first.parts.text ++ rest)

theorem ends_of_isOperator {b : UInt8} (h : isOperator b = true) (rest : Text) :
    Literal.Ends (b :: rest) := by
  intro c hc
  obtain rfl := Option.some.inj hc
  simp only [isOperator, Bool.or_eq_true, beq_iff_eq] at h
  rcases h with ((rfl | rfl) | rfl) | rfl <;> decide

theorem Blank.ends_append {gap rest : Text} (h : Blank gap) (hrest : Literal.Ends rest) :
    Literal.Ends (gap ++ rest) := by
  cases gap with
  | nil => exact hrest
  | cons b gap =>
    intro c hc
    obtain rfl := Option.some.inj hc
    have hb : Text.isBlank b = true := h b List.mem_cons_self
    simp only [Text.isBlank, Bool.or_eq_true, beq_iff_eq] at hb
    rcases hb with rfl | rfl <;> decide

/-- What spells links ends the number before them. -/
theorem SpellsLinks.ends_append {links : List Link} {t more : Text} (h : SpellsLinks links t)
    (hmore : Literal.Ends more) : Literal.Ends (t ++ more) := by
  cases h with
  | none hgap => exact hgap.ends_append hmore
  | @link l links before after rest hbefore hafter hrest =>
    rw [List.append_assoc]
    exact hbefore.ends_append (ends_of_isOperator l.operator.isOperator_byte _)

theorem operationsFrom_blank {gap : Text} (h : Blank gap) (pending : Option UInt8)
    (seen : List Operation) (rest : Text) :
    operationsFrom 0 pending seen (gap ++ rest) = operationsFrom 0 pending seen rest := by
  induction gap with
  | nil => rfl
  | cons b gap ih =>
    obtain ⟨hb, hgap⟩ := List.forall_mem_cons.1 h
    rw [List.cons_append, operationsFrom_cons, if_pos hb, ih hgap]

theorem operationsFrom_drop (skip : Nat) (pending : Option UInt8) (seen : List Operation)
    (t : Text) :
    operationsFrom skip pending seen t = operationsFrom 0 pending seen (t.drop skip) := by
  induction skip generalizing t with
  | zero => rw [List.drop_zero]
  | succ skip ih =>
    cases t with
    | nil => rfl
    | cons b t => exact ih t

theorem operationsFrom_operator (o : Operator) (seen : List Operation) (rest : Text) :
    operationsFrom 0 none seen (o.byte :: rest) = operationsFrom 0 (some o.byte) seen rest := by
  rw [operationsFrom_cons, if_neg (by simp [o.isBlank_byte])]

/-- A number that an operator waits for becomes an operation. -/
theorem operationsFrom_float {t : Text} {l : Literal Float} (h : Literal.float t = .ok l)
    (operator : UInt8) (seen : List Operation) :
    operationsFrom 0 (some operator) seen t =
      operationsFrom 0 none (⟨operator, l.value⟩ :: seen) (t.drop l.length) := by
  cases t with
  | nil =>
    have hnone : Literal.float [] = .error .expectedDigits := by decide
    exact absurd (hnone.symm.trans h) (by simp)
  | cons b t =>
    have hblank : Text.isBlank b = false := by
      by_contra hblank
      have hwhite := Text.isWhiteByte_of_isBlank (by simpa using hblank)
      rw [Literal.float_of_isWhiteByte hwhite] at h
      exact absurd h (by simp)
    obtain ⟨n, hn⟩ := Nat.exists_eq_add_of_lt (Literal.length_float_pos h)
    rw [operationsFrom_cons, if_neg (by simp [hblank])]
    simp only [h, operationsFrom_drop (l.length - 1)]
    rw [hn, Nat.zero_add, Nat.add_sub_cancel, List.drop_succ_cons]

theorem operationsFrom_numeral (n : Numeral) (operator : UInt8) (seen : List Operation)
    {rest : Text} (h : Literal.Ends rest) :
    operationsFrom 0 (some operator) seen (n.parts.text ++ rest) =
      operationsFrom 0 none (⟨operator, n.value⟩ :: seen) rest := by
  rw [operationsFrom_float (Literal.float_append_of_ends n.written n.inRange h), List.drop_left]

theorem operationsFrom_links {links : List Link} {t more : Text} (h : SpellsLinks links t)
    (hmore : Literal.Ends more) (seen : List Operation) :
    operationsFrom 0 none seen (t ++ more) =
      operationsFrom 0 none ((links.map Link.operation).reverse ++ seen) more := by
  induction h generalizing seen with
  | none hgap => exact operationsFrom_blank hgap none seen more
  | @link l links before after rest hbefore hafter hrest ih =>
    rw [List.append_assoc, operationsFrom_blank hbefore, List.cons_append, operationsFrom_operator,
      List.append_assoc, operationsFrom_blank hafter, List.append_assoc,
      operationsFrom_numeral l.operand _ _ (hrest.ends_append hmore), ih]
    simp [Link.operation]

theorem operationsFrom_error {t : Text} {e : LiteralError}
    (h : Literal.float (t.dropWhile Text.isBlank) = .error e) (operator : UInt8)
    (seen : List Operation) : operationsFrom 0 (some operator) seen t = seen.reverse := by
  have hblank : Blank (t.takeWhile Text.isBlank) := fun b hb => List.mem_takeWhile_imp hb
  rw [← List.takeWhile_append_dropWhile (p := Text.isBlank) (l := t), operationsFrom_blank hblank]
  have hhead := List.head?_dropWhile_not Text.isBlank t
  generalize t.dropWhile Text.isBlank = u at h hhead ⊢
  cases u with
  | nil => rfl
  | cons b u =>
    rw [operationsFrom_cons, if_neg (by simpa using hhead)]
    simp only [h]

theorem operationsFrom_of_not_leadsInRange {rest : Text}
    (h : ¬ Literal.LeadsInRange (rest.dropWhile Text.isBlank)) (operator : UInt8)
    (seen : List Operation) : operationsFrom 0 (some operator) seen rest = seen.reverse := by
  cases hfloat : Literal.float (rest.dropWhile Text.isBlank) with
  | ok l => exact absurd (Literal.leadsInRange_of_float hfloat) h
  | error e => exact operationsFrom_error hfloat operator seen

theorem foldFrom_operation (acc : Float) (links : List Link) :
    foldFrom acc (links.map Link.operation) =
      links.foldlM (fun acc l => l.operator.apply acc l.operand.value) acc := by
  induction links generalizing acc with
  | nil => rfl
  | cons l links ih =>
    rw [List.map_cons, foldFrom, Link.operation, Operator.step_byte, List.foldlM_cons]
    cases l.operator.apply acc l.operand.value with
    | none => rfl
    | some next => exact ih next

theorem foldlM_eq_none_iff (acc : Float) (links : List Link) :
    links.foldlM (fun acc l => l.operator.apply acc l.operand.value) acc = none ↔
      ∃ l ∈ links, l.operator = .over ∧ (l.operand.value == 0) = true := by
  induction links generalizing acc with
  | nil => simp
  | cons l links ih =>
    simp only [List.foldlM_cons, List.mem_cons, exists_eq_or_imp]
    rw [← Operator.apply_eq_none_iff]
    cases hnext : l.operator.apply acc l.operand.value with
    | none => simp
    | some next => simpa using ih next

/-- The operations of a chain, the last one first. -/
def Chain.operations (c : Chain) : List Operation :=
  (c.links.map Link.operation).reverse ++ [⟨Text.plus, c.first.value⟩]

theorem Chain.foldFrom_operations (c : Chain) : foldFrom 0 c.operations.reverse = c.value? := by
  rw [operations, List.reverse_append, List.reverse_reverse, List.reverse_singleton,
    List.singleton_append, foldFrom]
  exact foldFrom_operation _ c.links

namespace Chain.Spells

variable {c : Chain} {t : Text}

theorem operations_append (h : c.Spells t) {more : Text} (hmore : Literal.Ends more) :
    Arithmetic.operations (t ++ more) = operationsFrom 0 none c.operations more := by
  obtain ⟨gap, rest, hgap, hrest, rfl⟩ := h
  rw [Arithmetic.operations, List.append_assoc, operationsFrom_blank hgap, List.append_assoc,
    operationsFrom_numeral c.first _ _ (hrest.ends_append hmore), operationsFrom_links hrest hmore]
  rfl

theorem value?_eq (h : c.Spells t) : Arithmetic.value? t = c.value? := by
  have hoperations := h.operations_append Literal.ends_nil
  rw [List.append_nil] at hoperations
  rw [Arithmetic.value?, hoperations, ← c.foldFrom_operations]
  rfl

/-- An operator that no number in range follows changes nothing. -/
theorem value?_append (h : c.Spells t) (o : Operator) {rest : Text}
    (hrest : ¬ Literal.LeadsInRange (rest.dropWhile Text.isBlank)) :
    Arithmetic.value? (t ++ o.byte :: rest) = c.value? := by
  rw [Arithmetic.value?, h.operations_append (ends_of_isOperator o.isOperator_byte rest),
    operationsFrom_operator, operationsFrom_of_not_leadsInRange hrest, c.foldFrom_operations]

/-- All spellings of a chain have an operator, or none has. -/
theorem exists_isOperator_iff (h : c.Spells t) :
    (∃ b ∈ t, isOperator b = true) ↔
      c.links ≠ [] ∨ ∃ b ∈ c.first.parts.text, isOperator b = true := by
  have hblank {gap : Text} (hgap : Blank gap) : ¬ ∃ b ∈ gap, isOperator b = true := by
    rintro ⟨b, hb, hoperator⟩
    exact Bool.noConfusion ((hgap.isOperator_eq_false hb).symm.trans hoperator)
  obtain ⟨first, links⟩ := c
  obtain ⟨gap, rest, hgap, hrest, rfl⟩ := h
  simp only [List.mem_append, or_and_right, exists_or, hblank hgap, false_or]
  rw [or_comm]
  refine or_congr_left ⟨fun hoperator hnil => ?_, fun hne => ?_⟩
  · cases hrest with
    | none hblanks => exact hblank hblanks hoperator
    | link => exact List.cons_ne_nil _ _ hnil
  · cases hrest with
    | none => exact absurd rfl hne
    | @link l => exact ⟨l.operator.byte, by simp, l.operator.isOperator_byte⟩

end Chain.Spells

/-- Blanks around an expression are of no account. -/
theorem value?_trim (t : Text) : value? t.trim = value? t := by
  obtain ⟨u, v, hu, hv, ht⟩ := Text.exists_trim_append t
  have hinert : Text.Inert v := fun b hb => Text.isWhiteByte_of_isBlank (hv b hb)
  conv_rhs => rw [ht, List.append_assoc, value?, operations, operationsFrom_blank hu]
  exact (value?_append hinert t.trim).symm


end Arithmetic

open Arithmetic

/-- An unbound expression with an operator is arithmetic. -/
theorem Store.evaluate_of_isOperator {s : Store} {t : Text} (h : s.get? t.trim = none)
    (operator : ∃ b ∈ t, isOperator b = true) :
    s.evaluate t = match Arithmetic.value? t with
      | some f => .ok (.float f)
      | none => .error { cause := .divisionByZero, source := t.trim } := by
  have hany : t.trim.any isOperator = true := by
    obtain ⟨b, hb, hoperator⟩ := operator
    obtain ⟨u, v, hu, hv, ht⟩ := Text.exists_trim_append t
    have hnot {gap : Text} (hgap : Blank gap) : b ∉ gap := fun hb =>
      Bool.noConfusion ((hgap.isOperator_eq_false hb).symm.trans hoperator)
    rw [ht, List.append_assoc, List.mem_append, List.mem_append] at hb
    have hmem := (hb.resolve_left (hnot hu)).resolve_right (hnot hv)
    exact List.any_eq_true.2 ⟨b, hmem, hoperator⟩
  have hrule : Rule.ofText t.trim = .arithmetic := by
    cases htrim : t.trim with
    | nil => rw [htrim] at hany; exact Bool.noConfusion hany
    | cons b rest => rw [Rule.ofText_cons, ← htrim, if_pos hany]
  cases hvalue : Arithmetic.value? t <;>
    simp only [evaluate, h, evaluateUnbound, hrule, value?_trim, hvalue]

/-- The value of an expression, or else the cause of its failure. -/
def Store.outcome (s : Store) (t : Text) : Except Cause Value :=
  (s.evaluate t).mapError EvalError.cause

/-- An expression that spells a chain with an operator in it is folded from the left, without
precedence, and fails exactly if the chain divides by a zero. Blanks around its numbers and
operators make no difference, and neither does a further operator with any text behind it that does
not start with a number in range. -/
theorem evaluate_chain {c : Chain} {t : Text} (spelled : c.Spells t)
    (operator : ∃ b ∈ t, isOperator b = true) {s : Store} (unbound : s.get? t.trim = none) :
    (∀ f, c.value? = some f → s.evaluate t = .ok (.float f)) ∧
    (c.value? = none → s.evaluate t = .error { cause := .divisionByZero, source := t.trim }) ∧
    (c.value? = none ↔
      ∃ l ∈ c.links, l.operator = .over ∧ (l.operand.value == 0) = true) ∧
    (∀ t' (s' : Store), c.Spells t' → s'.get? t'.trim = none → s'.outcome t' = s.outcome t) ∧
    ∀ (o : Operator) rest (s' : Store),
      ¬ Literal.LeadsInRange (rest.dropWhile Text.isBlank) →
      s'.get? (Text.trim (t ++ o.byte :: rest)) = none →
      s'.outcome (t ++ o.byte :: rest) = s.outcome t := by
  have hevaluate := Store.evaluate_of_isOperator unbound operator
  rw [spelled.value?_eq] at hevaluate
  refine ⟨fun f hf => ?_, fun hzero => ?_, foldlM_eq_none_iff _ c.links, ?_, ?_⟩
  · rw [hevaluate, hf]
  · rw [hevaluate, hzero]
  · intro t' s' hspelled hunbound
    have hoperator := hspelled.exists_isOperator_iff.2 (spelled.exists_isOperator_iff.1 operator)
    rw [Store.outcome, Store.outcome, Store.evaluate_of_isOperator hunbound hoperator,
      hspelled.value?_eq, hevaluate]
    cases c.value? <;> rfl
  · intro o rest s' hrest hunbound
    have hoperator : ∃ b ∈ t ++ o.byte :: rest, isOperator b = true :=
      ⟨o.byte, by simp, o.isOperator_byte⟩
    rw [Store.outcome, Store.outcome, Store.evaluate_of_isOperator hunbound hoperator,
      spelled.value?_append o hrest, hevaluate]
    cases c.value? <;> rfl

/-- Signs, operators and an exponent next to each other, and a variable behind one operator more. -/
theorem evaluate_chain_signs :
    let five : Numeral := ⟨.ofText "5", 5, Literal.Parts.isNumeral_ofText (by decide), by decide⟩
    let three : Numeral :=
      ⟨.ofText "-3", -3, Literal.Parts.isNumeral_ofText (by decide), by decide +kernel⟩
    let tenth : Numeral :=
      ⟨.ofText "1e-1", 0.1, Literal.Parts.isNumeral_ofText (by decide), by decide +kernel⟩
    let c : Chain := ⟨five, [⟨.minus, three⟩, ⟨.over, tenth⟩]⟩
    let s : Store := .ofList [("x", .int 2)]
    c.Spells (" 5--3 / 1e-1" : Text) ∧ s.evaluate " 5--3 / 1e-1" = .ok (.float 80) ∧
      s.outcome " 5--3 / 1e-1* x" = .ok (.float 80) := by
  intro five three tenth c s
  have hlast : SpellsLinks [⟨.over, tenth⟩] (" / 1e-1" : Text) :=
    @SpellsLinks.link ⟨.over, tenth⟩ [] [0x20] [0x20] [] (by decide +kernel) (by decide +kernel)
      (.none (by decide +kernel))
  have hlinks : SpellsLinks c.links ("--3 / 1e-1" : Text) :=
    @SpellsLinks.link ⟨.minus, three⟩ _ [] [] _ (by decide +kernel) (by decide +kernel) hlast
  have hspelled : c.Spells (" 5--3 / 1e-1" : Text) :=
    ⟨[0x20], _, by decide +kernel, hlinks, by decide +kernel⟩
  have hvalue : c.value? = some 80 := by decide +kernel
  have unbound : s.get? (Text.ofString " 5--3 / 1e-1").trim = none := by decide
  obtain ⟨hfold, -, -, -, hmore⟩ := evaluate_chain hspelled (by decide) unbound
  have hfirst := hfold 80 hvalue
  have hnone : ¬ Literal.LeadsInRange ((Text.ofString " x").dropWhile Text.isBlank) := by
    rintro ⟨p, hp, hfront, -, -⟩
    have hread := hp.ofText_append Literal.ends_nil
    have hmantissa : (Literal.Parts.ofText (p.text ++ [])).mantissa = [] := by
      rcases List.prefix_cons_iff.1 hfront with hnil | ⟨t, ht, hnil⟩
      · rw [hnil]
        decide
      · rw [ht, List.prefix_nil.1 hnil]
        decide
    exact hp.mantissa (hread ▸ hmantissa)
  have hlonger := hmore .times " x" s hnone (by decide)
  refine ⟨hspelled, hfirst, hlonger.trans ?_⟩
  rw [Store.outcome, hfirst]
  rfl

end LineScript
