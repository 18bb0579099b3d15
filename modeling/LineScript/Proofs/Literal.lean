import LineScript.Arithmetic
import LineScript.Proofs.Text.White

/-! Numbers before white space. A byte of white space continues no number, is no operator and is no
point, so that a literal, a run of operations and the value of an expression read the same whether
or not white space follows. -/

namespace LineScript

/-- Only bytes that can stand in white space. -/
def Text.Inert (v : Text) : Prop := ∀ b ∈ v, isWhiteByte b = true

section Byte
variable {b : UInt8}

theorem Text.toNat_of_isWhiteByte (h : isWhiteByte b = true) : b.toNat ≤ 0x20 ∨ 0x80 ≤ b.toNat := by
  simp only [isWhiteByte, isSpace, Bool.or_eq_true, Bool.and_eq_true, decide_eq_true_eq,
    beq_iff_eq, UInt8.le_iff_toNat_le, ← UInt8.toNat_inj, UInt8.reduceToNat] at h
  omega

theorem Text.isDigit_of_isWhiteByte (h : isWhiteByte b = true) : isDigit b = false := by
  have hb := toNat_of_isWhiteByte h
  simp only [isDigit, Bool.and_eq_false_iff, decide_eq_false_iff_not, UInt8.le_iff_toNat_le,
    UInt8.reduceToNat]
  omega

theorem Text.ne_of_isWhiteByte (h : isWhiteByte b = true) {c : UInt8} (hlow : 0x20 < c.toNat)
    (hhigh : c.toNat < 0x80) : b ≠ c := by
  rintro rfl
  have hb := toNat_of_isWhiteByte h
  omega

theorem Text.isOperator_of_isWhiteByte (h : isWhiteByte b = true) :
    Arithmetic.isOperator b = false := by
  simp [Arithmetic.isOperator, ne_of_isWhiteByte h (c := plus) (by decide) (by decide),
    ne_of_isWhiteByte h (c := minus) (by decide) (by decide),
    ne_of_isWhiteByte h (c := times) (by decide) (by decide),
    ne_of_isWhiteByte h (c := slash) (by decide) (by decide)]

end Byte

theorem Text.Inert.tail {b : UInt8} {v : Text} (h : Inert (b :: v)) : Inert v :=
  fun c hc => h c (List.mem_cons_of_mem b hc)

namespace Literal

theorem sign_isPrefix (t : Text) : sign t <+: t := by
  cases t with
  | nil => exact List.prefix_rfl
  | cons b t =>
    have hfirst : (sign (b :: t)).Sublist [b] := List.filter_sublist
    rcases List.sublist_singleton.1 hfirst with hnil | hone
    · rw [hnil]
      exact List.nil_prefix
    · rw [hone]
      exact ⟨t, rfl⟩

theorem digits_isPrefix (t : Text) : digits t <+: t := List.takeWhile_prefix _

namespace Parts

theorem fractionOf_isPrefix (t : Text) : fractionOf t <+: t := by
  cases t with
  | nil => exact List.prefix_rfl
  | cons b t =>
    rw [fractionOf]
    split
    · exact (List.prefix_cons_inj b).2 (digits_isPrefix t)
    · exact List.nil_prefix

theorem append_drop_isPrefix {a b t : Text} (ha : a <+: t) (hb : b <+: t.drop a.length) :
    a ++ b <+: t := by
  obtain ⟨rest, rfl⟩ := ha
  rw [List.drop_left] at hb
  exact List.prefix_append_right_inj a |>.2 hb

theorem exponentOf_isPrefix (t : Text) : exponentOf t <+: t := by
  cases t with
  | nil => exact List.prefix_rfl
  | cons mark t =>
    simp only [exponentOf]
    split
    · split
      · exact List.nil_prefix
      · exact (List.prefix_cons_inj mark).2
          (append_drop_isPrefix (sign_isPrefix t) (digits_isPrefix _))
    · exact List.nil_prefix

/-- The parts of a number stand at the front of the text they are read from. -/
theorem text_isPrefix (t : Text) : (ofText t).text <+: t := by
  simp only [ofText, text, Text.cat, List.flatten_cons, List.flatten_nil, List.append_nil]
  refine append_drop_isPrefix (sign_isPrefix t) ?_
  refine append_drop_isPrefix (digits_isPrefix _) ?_
  exact append_drop_isPrefix (fractionOf_isPrefix _) (exponentOf_isPrefix _)

end Parts

/-- A text that starts with none of what a number starts with. -/
def StartsNone (t : Text) : Prop :=
  ∀ b, t.head? = some b →
    Text.isDigit b = false ∧ b ≠ Text.dot ∧ b ≠ Text.plus ∧ b ≠ Text.minus

namespace StartsNone
variable {more : Text} (none : StartsNone more)
include none

theorem sign_append (t : Text) : sign (t ++ more) = sign t := by
  cases t with
  | nil =>
    cases more with
    | nil => rfl
    | cons b more => simp [sign, none b rfl]
  | cons b t => rfl

theorem digits_append (t : Text) : digits (t ++ more) = digits t := by
  induction t with
  | nil =>
    cases more with
    | nil => rfl
    | cons b more => exact List.takeWhile_cons_of_neg (by simp [none b rfl])
  | cons b t ih =>
    unfold digits at ih ⊢
    rw [List.cons_append, List.takeWhile_cons, List.takeWhile_cons, ih]

theorem fractionOf_append (t : Text) : Parts.fractionOf (t ++ more) = Parts.fractionOf t := by
  cases t with
  | nil =>
    cases more with
    | nil => rfl
    | cons b more => simp [Parts.fractionOf, none b rfl]
  | cons b t => rw [List.cons_append, Parts.fractionOf, none.digits_append, Parts.fractionOf]

/-- At the very front, a letter can be the mark of an exponent. -/
theorem exponentOf_append {t : Text} (h : t ≠ []) :
    Parts.exponentOf (t ++ more) = Parts.exponentOf t := by
  obtain ⟨mark, t, rfl⟩ := List.exists_cons_of_ne_nil h
  simp only [List.cons_append, Parts.exponentOf, none.sign_append,
    List.drop_append_of_le_length (sign_isPrefix t).length_le, none.digits_append]

end StartsNone

theorem startsNone_of_inert {v : Text} (hv : Text.Inert v) : StartsNone v := by
  intro b hb
  have hwhite := hv b (List.mem_of_head? hb)
  have hne {c : UInt8} (hlow : 0x20 < c.toNat) (hhigh : c.toNat < 0x80) : b ≠ c :=
    Text.ne_of_isWhiteByte hwhite hlow hhigh
  exact ⟨Text.isDigit_of_isWhiteByte hwhite, hne (by decide) (by decide),
    hne (by decide) (by decide), hne (by decide) (by decide)⟩

section Tail
variable {v : Text} (hv : Text.Inert v)
include hv

theorem Parts.exponentOf_append (t : Text) : exponentOf (t ++ v) = exponentOf t := by
  cases t with
  | nil =>
    cases v with
    | nil => rfl
    | cons b v =>
      have hb := hv b List.mem_cons_self
      simp [exponentOf, Text.ne_of_isWhiteByte hb (c := 0x65) (by decide) (by decide),
        Text.ne_of_isWhiteByte hb (c := 0x45) (by decide) (by decide)]
  | cons mark t => exact (startsNone_of_inert hv).exponentOf_append (List.cons_ne_nil mark t)

theorem Parts.ofText_append (t : Text) : ofText (t ++ v) = ofText t := by
  have hnone := startsNone_of_inert hv
  simp only [ofText, hnone.sign_append, hnone.digits_append, hnone.fractionOf_append,
    List.drop_append_of_le_length (sign_isPrefix t).length_le,
    List.drop_append_of_le_length (digits_isPrefix _).length_le,
    List.drop_append_of_le_length (fractionOf_isPrefix _).length_le, exponentOf_append hv]

theorem float_append (t : Text) : float (t ++ v) = float t := by
  simp only [float, Parts.ofText_append hv]

theorem int_append (t : Text) : int (t ++ v) = int t := by
  have hnone := startsNone_of_inert hv
  simp only [int, hnone.sign_append,
    List.drop_append_of_le_length (sign_isPrefix t).length_le, hnone.digits_append]

end Tail

theorem length_float_le {t : Text} {l : Literal Float} (h : float t = .ok l) :
    l.length ≤ t.length := by
  simp only [float] at h
  repeat' split at h
  all_goals cases h
  exact (Parts.text_isPrefix t).length_le

/-- Without a sign and a digit in front, the digits of a number can only stand behind a point. -/
theorem Parts.mantissa_ofText_cons {b : UInt8} (hdigit : Text.isDigit b = false)
    (hplus : b ≠ Text.plus) (hminus : b ≠ Text.minus) (t : Text) :
    (ofText (b :: t)).mantissa = if b = Text.dot then digits t else [] := by
  have hsign : Literal.sign (b :: t) = [] := by simp [Literal.sign, hplus, hminus]
  have hdigits : digits (b :: t) = [] := List.takeWhile_cons_of_neg (by simp [hdigit])
  simp only [ofText, mantissa, hsign, List.length_nil, List.drop_zero, hdigits, List.nil_append,
    fractionOf, beq_iff_eq]
  split <;> rfl

/-- A number starts with a digit, a sign or a point. -/
theorem float_of_ne {b : UInt8} (hdigit : Text.isDigit b = false) (hplus : b ≠ Text.plus)
    (hminus : b ≠ Text.minus) (hdot : b ≠ Text.dot) (t : Text) :
    float (b :: t) = .error .expectedDigits := by
  have hmantissa : (Parts.ofText (b :: t)).mantissa = [] := by
    rw [Parts.mantissa_ofText_cons hdigit hplus hminus, if_neg hdot]
  rw [float, if_pos hmantissa]

theorem float_of_isWhiteByte {b : UInt8} (h : Text.isWhiteByte b = true) (t : Text) :
    float (b :: t) = .error .expectedDigits :=
  float_of_ne (Text.isDigit_of_isWhiteByte h) (Text.ne_of_isWhiteByte h (by decide) (by decide))
    (Text.ne_of_isWhiteByte h (by decide) (by decide))
    (Text.ne_of_isWhiteByte h (by decide) (by decide)) t

end Literal

namespace Arithmetic

theorem operationsFrom_cons (pending : Option UInt8) (seen : List Operation) (b : UInt8)
    (rest : Text) :
    operationsFrom 0 pending seen (b :: rest) =
      if Text.isBlank b then operationsFrom 0 pending seen rest
      else match pending with
        | none => operationsFrom 0 (some b) seen rest
        | some op =>
          match Literal.float (b :: rest) with
          | .ok l => operationsFrom (l.length - 1) none (⟨op, l.value⟩ :: seen) rest
          | .error _ => seen.reverse := by
  cases pending <;> rfl

theorem operationsFrom_inert {v : Text} (hv : Text.Inert v) (pending : Option UInt8)
    (seen : List Operation) : operationsFrom 0 pending seen v = seen.reverse := by
  induction v generalizing pending with
  | nil => rfl
  | cons b v ih =>
    rw [operationsFrom_cons]
    split
    · exact ih hv.tail pending
    · cases pending with
      | none => exact ih hv.tail (some b)
      | some op => simp only [Literal.float_of_isWhiteByte (hv b List.mem_cons_self)]

/-- White space after an expression adds no operation. -/
theorem operationsFrom_append {v : Text} (hv : Text.Inert v) (t : Text) {skip : Nat}
    (hskip : skip ≤ t.length) (pending : Option UInt8) (seen : List Operation) :
    operationsFrom skip pending seen (t ++ v) = operationsFrom skip pending seen t := by
  induction t generalizing skip pending seen with
  | nil =>
    obtain rfl : skip = 0 := Nat.le_zero.1 hskip
    rw [List.nil_append, operationsFrom_inert hv]
    rfl
  | cons b t ih =>
    cases skip with
    | succ skip =>
      rw [List.cons_append, operationsFrom, operationsFrom, ih (Nat.le_of_succ_le_succ hskip)]
    | zero =>
      rw [List.cons_append, operationsFrom_cons, operationsFrom_cons]
      split
      · exact ih (Nat.zero_le _) pending seen
      · cases pending with
        | none => exact ih (Nat.zero_le _) (some b) seen
        | some op =>
          dsimp only
          rw [← List.cons_append, Literal.float_append hv]
          cases hl : Literal.float (b :: t) with
          | error e => rfl
          | ok l =>
            -- the literal ends before the white space, so what is skipped lies in `t`
            have hle := Literal.length_float_le hl
            rw [List.length_cons] at hle
            exact ih (by omega) none _

theorem value?_append {v : Text} (hv : Text.Inert v) (t : Text) : value? (t ++ v) = value? t := by
  rw [value?, operations, operationsFrom_append hv t (Nat.zero_le _), value?, operations]

theorem value?_of_isWhiteByte {b : UInt8} (h : Text.isWhiteByte b = true)
    (hblank : Text.isBlank b = false) (t : Text) : value? (b :: t) = some 0 := by
  have hoperations : operations (b :: t) = [] := by
    rw [operations, operationsFrom_cons, if_neg (by simp [hblank])]
    simp only [Literal.float_of_isWhiteByte h]
    rfl
  rw [value?, hoperations]
  rfl

end Arithmetic

end LineScript
