import LineScript.Proofs.Lint
import LineScript.Proofs.Resolution

/-! Variables among the operands of arithmetic. The linter cuts an expression into tokens at blanks
and operators, while the reader takes numbers and operators in turn. Both come to the same place in
front of a token that is a name. Where an operand is due there, the reader stops before the name, as
the linter says. Behind a number, the first byte of the name stands for an operator instead: it
takes the next number with it, and the arithmetic goes on. -/

namespace LineScript

/-- A byte between the tokens of an expression. -/
def Arithmetic.separates (b : UInt8) : Bool := Text.isBlank b || isOperator b

theorem Arithmetic.ne_of_separates {b : UInt8} (h : separates b = true) :
    Text.isDigit b = false ∧ b ≠ Text.dot := by
  simp only [separates, Text.isBlank, isOperator, Bool.or_eq_true, beq_iff_eq] at h
  rcases h with (rfl | rfl) | ((rfl | rfl) | rfl) | rfl <;> decide

/-- A byte that a name can start with. -/
def Text.opensName (b : UInt8) : Bool := isLetter b || b == 0x5f

theorem Text.isDigit_of_opensName {b : UInt8} (h : opensName b = true) : isDigit b = false := by
  simp only [opensName, isLetter, Bool.or_eq_true, Bool.and_eq_true, decide_eq_true_eq,
    beq_iff_eq, UInt8.le_iff_toNat_le, ← UInt8.toNat_inj, UInt8.reduceToNat] at h
  simp only [isDigit, Bool.and_eq_false_iff, decide_eq_false_iff_not, UInt8.le_iff_toNat_le,
    UInt8.reduceToNat]
  omega

theorem Arithmetic.separates_of_opensName {b : UInt8} (h : Text.opensName b = true) :
    separates b = false := by
  by_contra hseparates
  simp only [separates, Text.isBlank, isOperator, Bool.not_eq_false, Bool.or_eq_true,
    beq_iff_eq] at hseparates
  rcases hseparates with (rfl | rfl) | ((rfl | rfl) | rfl) | rfl <;> exact absurd h (by decide)

namespace Literal

theorem startsNone_of_opensName {b : UInt8} (h : Text.opensName b = true) (rest : Text) :
    StartsNone (b :: rest) := by
  intro c hc
  obtain rfl := Option.some.inj hc
  refine ⟨Text.isDigit_of_opensName h, ?_, ?_, ?_⟩ <;> rintro rfl <;> exact absurd h (by decide)

/-- What is left of a text behind the sign, the digits and the point of the number at its front. -/
def Parts.behindDigits (t : Text) : Text :=
  let afterSign := t.drop (Literal.sign t).length
  let afterWhole := afterSign.drop (digits afterSign).length
  afterWhole.drop (fractionOf afterWhole).length

theorem Parts.append_behindDigits (t : Text) :
    (ofText t).sign ++ ((ofText t).whole ++ ((ofText t).fraction ++ behindDigits t)) = t := by
  simp only [ofText, behindDigits, List.prefix_iff_eq_append.1 (fractionOf_isPrefix _),
    List.prefix_iff_eq_append.1 (digits_isPrefix _), List.prefix_iff_eq_append.1 (sign_isPrefix _)]

/-- The digits and the point of a number are followed by something in a text that does not end in
them. -/
theorem Parts.behindDigits_ne_nil {t : Text} (h : (ofText t).mantissa ≠ []) {b : UInt8}
    (hlast : t.getLast? = some b) (hb : Text.isDigit b = false ∧ b ≠ Text.dot) :
    behindDigits t ≠ [] := by
  intro hnil
  have hcut := append_behindDigits t
  have hne : (ofText t).whole ++ (ofText t).fraction ≠ [] := by
    intro hnone
    rw [List.append_eq_nil_iff] at hnone
    exact h (by simp [mantissa, hnone])
  rw [hnil, List.append_nil] at hcut
  rw [← hcut, List.getLast?_append_of_ne_nil _ hne] at hlast
  rcases List.mem_append.1 (List.mem_of_getLast? hlast) with hmem | hmem
  · exact Bool.noConfusion (hb.1.symm.trans (isDigit_of_mem_digits hmem))
  · rcases fractionOf_isFraction _ with hfraction | ⟨ds, hds, hfraction⟩ <;>
      rw [ofText, hfraction] at hmem
    · exact absurd hmem List.not_mem_nil
    · rcases List.mem_cons.1 hmem with rfl | hmem
      · exact hb.2 rfl
      · exact Bool.noConfusion (hb.1.symm.trans (hds b hmem))

namespace StartsNone
variable {more : Text} (none : StartsNone more)
include none

theorem behindDigits_append (t : Text) :
    Parts.behindDigits (t ++ more) = Parts.behindDigits t ++ more := by
  simp only [Parts.behindDigits, none.sign_append, none.digits_append, none.fractionOf_append,
    List.drop_append_of_le_length (sign_isPrefix t).length_le,
    List.drop_append_of_le_length (digits_isPrefix _).length_le,
    List.drop_append_of_le_length (Parts.fractionOf_isPrefix _).length_le]

theorem mantissa_ofText_append (t : Text) :
    (Parts.ofText (t ++ more)).mantissa = (Parts.ofText t).mantissa := by
  simp only [Parts.ofText, Parts.mantissa, none.sign_append, none.digits_append,
    none.fractionOf_append, List.drop_append_of_le_length (sign_isPrefix t).length_le,
    List.drop_append_of_le_length (digits_isPrefix _).length_le]

theorem ofText_append {t : Text} (h : Parts.behindDigits t ≠ []) :
    Parts.ofText (t ++ more) = Parts.ofText t := by
  have hexponent : Parts.exponentOf (Parts.behindDigits (t ++ more)) =
      Parts.exponentOf (Parts.behindDigits t) := by
    rw [none.behindDigits_append, none.exponentOf_append h]
  simp only [Parts.behindDigits] at hexponent
  simp only [Parts.ofText, hexponent]
  simp only [none.sign_append, none.digits_append, none.fractionOf_append,
    List.drop_append_of_le_length (sign_isPrefix t).length_le,
    List.drop_append_of_le_length (digits_isPrefix _).length_le]

/-- Behind a blank or an operator, a name adds nothing to the number in front. -/
theorem float_append {t : Text} {b : UInt8} (hlast : t.getLast? = some b)
    (hb : Arithmetic.separates b = true) : float (t ++ more) = float t := by
  by_cases hmantissa : (Parts.ofText t).mantissa = []
  · rw [float, if_pos ((none.mantissa_ofText_append t).trans hmantissa), float, if_pos hmantissa]
  · have hbehind := Parts.behindDigits_ne_nil hmantissa hlast (Arithmetic.ne_of_separates hb)
    simp only [float, none.ofText_append hbehind]

theorem float_eq : float more = .error .expectedDigits := by
  cases more with
  | nil => rfl
  | cons b more =>
    obtain ⟨hdigit, hdot, hplus, hminus⟩ := none b rfl
    exact float_of_ne hdigit hplus hminus hdot more

end StartsNone

end Literal

namespace Arithmetic

/-- What is left of a text behind the number that it starts with, blanks left out. -/
def behindNumber (t : Text) (l : Literal Float) : Text :=
  ((t.dropWhile Text.isBlank).drop l.length).dropWhile Text.isBlank

/-- Reading a text behind an operator takes in all of it, and a number comes last. -/
inductive NumberLast : Text → Prop
  | last {t : Text} {l : Literal Float} : Literal.float (t.dropWhile Text.isBlank) = .ok l →
    behindNumber t l = [] → NumberLast t
  | later {t rest : Text} {next : UInt8} {l : Literal Float} :
    Literal.float (t.dropWhile Text.isBlank) = .ok l → behindNumber t l = next :: rest →
    NumberLast rest → NumberLast t

/-- What has been seen before makes no difference to what is read. -/
theorem operationsFrom_append_seen (skip : Nat) (pending : Option UInt8)
    (seen earlier : List Operation) (t : Text) :
    operationsFrom skip pending (seen ++ earlier) t =
      earlier.reverse ++ operationsFrom skip pending seen t := by
  fun_induction operationsFrom skip pending seen t with
  | case1 => simp [operationsFrom]
  | case2 _ _ _ _ _ ih => exact ih
  | case3 pending seen b rest hblank ih => rw [operationsFrom_cons, if_pos hblank, ih]
  | case4 seen b rest hblank ih => rw [operationsFrom_cons, if_neg hblank, ih]
  | case5 seen b rest hblank op l hfloat ih =>
    rw [operationsFrom_cons, if_neg hblank]
    simp only [hfloat]
    exact ih
  | case6 seen b rest hblank op e hfloat =>
    rw [operationsFrom_cons, if_neg hblank]
    simp only [hfloat, List.reverse_append]

/-- A text that a further token can follow. -/
def EndsApart (t : Text) : Prop := ∀ b, t.getLast? = some b → separates b = true

theorem EndsApart.of_suffix {t tail : Text} (h : EndsApart t) (hsuffix : tail <:+ t) :
    EndsApart tail := by
  obtain ⟨front, rfl⟩ := hsuffix
  intro b hb
  refine h b ?_
  rw [List.getLast?_append_of_ne_nil _ (List.ne_nil_of_mem (List.mem_of_getLast? hb)), hb]

theorem operationsFrom_behindNumber {t : Text} {l : Literal Float}
    (h : Literal.float (t.dropWhile Text.isBlank) = .ok l) (operator : UInt8)
    (seen : List Operation) : operationsFrom 0 (some operator) seen t =
      operationsFrom 0 none (⟨operator, l.value⟩ :: seen) (behindNumber t l) :=
  operationsFrom_turn h seen

theorem behindNumber_suffix (t : Text) (l : Literal Float) : behindNumber t l <:+ t :=
  ((List.dropWhile_suffix _).trans (List.drop_suffix _ _)).trans (List.dropWhile_suffix _)

theorem numberLast_of_behindNumber {t rest : Text} {next : UInt8} {l : Literal Float}
    (h : Literal.float (t.dropWhile Text.isBlank) = .ok l)
    (hrest : behindNumber t l = next :: rest) : NumberLast t ↔ NumberLast rest := by
  refine ⟨fun hlast => ?_, .later h hrest⟩
  cases hlast with
  | last h' hnil =>
    obtain rfl := Except.ok.inj (h.symm.trans h')
    exact absurd (hrest.symm.trans hnil) (by simp)
  | later h' hrest' hlast =>
    obtain rfl := Except.ok.inj (h.symm.trans h')
    obtain ⟨-, rfl⟩ := List.cons.inj (hrest.symm.trans hrest')
    exact hlast

section Name
variable {before : Text} {b : UInt8} (apart : EndsApart before) (name : Text.opensName b = true)
  (rest : Text)
include name

theorem dropWhile_append_name (t : Text) : (t ++ b :: rest).dropWhile Text.isBlank =
    t.dropWhile Text.isBlank ++ b :: rest := by
  obtain ⟨hblank, -⟩ := Bool.or_eq_false_iff.1 (separates_of_opensName name)
  rw [List.dropWhile_append]
  split
  · rename_i hnil
    rw [List.isEmpty_iff.1 hnil, List.nil_append, List.dropWhile_cons_of_neg (by simp [hblank])]
  · rfl

theorem behindNumber_append_name {l : Literal Float}
    (h : Literal.float (before.dropWhile Text.isBlank) = .ok l) :
    behindNumber (before ++ b :: rest) l = behindNumber before l ++ b :: rest := by
  rw [behindNumber, dropWhile_append_name name rest,
    List.drop_append_of_le_length (Literal.length_float_le h), dropWhile_append_name name rest]
  rfl

include apart

/-- The number that is due behind an operator is read without regard to a name further on. -/
theorem float_append_name : Literal.float ((before ++ b :: rest).dropWhile Text.isBlank) =
    Literal.float (before.dropWhile Text.isBlank) := by
  have hnone := Literal.startsNone_of_opensName name rest
  rw [dropWhile_append_name name rest]
  have hapart := apart.of_suffix (List.dropWhile_suffix Text.isBlank)
  cases hlast : (before.dropWhile Text.isBlank).getLast? with
  | none => rw [List.getLast?_eq_none_iff.1 hlast, List.nil_append, hnone.float_eq]; rfl
  | some c => exact hnone.float_append hlast (hapart c hlast)

/-- What is read of a text with a name further on: where an operand is due, the name ends the
reading; behind a number, its first byte is taken for an operator. -/
theorem operationsFrom_append_name (operator : UInt8) (seen : List Operation) :
    (¬ NumberLast before → operationsFrom 0 (some operator) seen (before ++ b :: rest) =
      operationsFrom 0 (some operator) seen before) ∧
    (NumberLast before → operationsFrom 0 (some operator) seen (before ++ b :: rest) =
      operationsFrom 0 (some operator) seen before ++ operationsFrom 0 (some b) [] rest) := by
  induction hn : before.length using Nat.strongRecOn generalizing before operator seen with
  | ind n ih =>
    cases hfloat : Literal.float (before.dropWhile Text.isBlank) with
    | error e =>
      have hnever : ¬ NumberLast before := by
        rintro (⟨h, -⟩ | ⟨h, -, -⟩) <;> exact absurd (hfloat.symm.trans h) (by simp)
      have hname := (float_append_name apart name rest).trans hfloat
      refine ⟨fun _ => ?_, fun hlast => absurd hlast hnever⟩
      rw [operationsFrom_error hname, operationsFrom_error hfloat]
    | ok l =>
      have hname := (float_append_name apart name rest).trans hfloat
      rw [operationsFrom_behindNumber hname, operationsFrom_behindNumber hfloat,
        behindNumber_append_name name rest hfloat]
      obtain ⟨hblank, -⟩ := Bool.or_eq_false_iff.1 (separates_of_opensName name)
      cases hrest : behindNumber before l with
      | nil =>
        refine ⟨fun hnot => absurd (.last hfloat hrest) hnot, fun _ => ?_⟩
        have hseen := operationsFrom_append_seen 0 (some b) [] (⟨operator, l.value⟩ :: seen) rest
        rw [List.nil_append, operationsFrom_next hblank]
        exact hseen
      | cons next tail =>
        have hsuffix : tail <:+ before :=
          (List.suffix_cons next tail).trans (hrest ▸ behindNumber_suffix before l)
        have hshorter : tail.length < n := by
          have hle := (behindNumber_suffix before l).length_le
          rw [hrest, List.length_cons] at hle
          omega
        have hnext : Text.isBlank next = false := (exists_gap hrest).1
        rw [numberLast_of_behindNumber hfloat hrest, List.cons_append, operationsFrom_next hnext,
          operationsFrom_next hnext]
        exact ih tail.length hshorter (apart.of_suffix hsuffix) next _ rfl

/-- The value of an expression with a name in it, told from the part in front of the name. -/
theorem value?_append_name {g : Float} (h : value? (before ++ b :: rest) = some g) :
    ∃ f, value? before = some f ∧ (¬ NumberLast before → g = f) ∧
      (∀ e, Literal.float (rest.dropWhile Text.isBlank) = .error e → g = f) ∧
      ∀ l, NumberLast before → Literal.float (rest.dropWhile Text.isBlank) = .ok l →
        foldFrom f (operationsFrom 0 none [] (behindNumber rest l)) = some g := by
  obtain ⟨hstops, hgoes⟩ := operationsFrom_append_name apart name rest Text.plus []
  obtain ⟨-, hunknown⟩ := Bool.or_eq_false_iff.1 (separates_of_opensName name)
  by_cases hlast : NumberLast before
  · rw [value?, operations, hgoes hlast, foldFrom_append] at h
    obtain ⟨f, hf, hfurther⟩ := Option.bind_eq_some_iff.1 h
    refine ⟨f, hf, fun hnot => absurd hlast hnot, fun e hnone => ?_, fun l _ hfloat => ?_⟩
    · rw [operationsFrom_error hnone] at hfurther
      exact (Option.some.inj hfurther).symm
    · have hseen := operationsFrom_append_seen 0 none [] [⟨b, l.value⟩] (behindNumber rest l)
      rw [List.nil_append] at hseen
      rw [operationsFrom_behindNumber hfloat, hseen, List.reverse_singleton, List.singleton_append,
        foldFrom, step_of_not_isOperator hunknown] at hfurther
      exact hfurther
  · rw [value?, operations, hstops hlast] at h
    exact ⟨g, h, fun _ => rfl, fun _ _ => rfl, fun _ hlast' => absurd hlast' hlast⟩

end Name

end Arithmetic

open Arithmetic

namespace Lint

/-- A text cut in front of and behind the first of its tokens that is a given word. -/
structure FirstToken (t word before behind : Text) : Prop where
  whole : t = before ++ (word ++ behind)
  apart : EndsApart before
  ended : ∀ b, behind.head? = some b → separates b = true
  first : word ∉ before.splitOnP separates

theorem exists_firstToken {t word : Text} (hne : word ≠ []) (h : word ∈ t.splitOnP separates) :
    ∃ before behind, FirstToken t word before behind := by
  induction hn : t.length using Nat.strongRecOn generalizing t with
  | ind n ih =>
    have hcut := List.takeWhile_append_dropWhile (p := fun b => !separates b) (l := t)
    have hpiece : ∀ b ∈ t.takeWhile fun b => !separates b, separates b = false := fun b hb => by
      simpa using List.mem_takeWhile_imp hb
    have hhead := List.head?_dropWhile_not (fun b => !separates b) t
    generalize t.takeWhile (fun b => !separates b) = piece at hcut hpiece
    generalize t.dropWhile (fun b => !separates b) = rest at hcut hhead
    have hnone : word ∉ ([] : Text).splitOnP separates := by simpa using hne
    cases rest with
    | nil =>
      rw [← hcut, List.append_nil, List.splitOnP_eq_singleton hpiece, List.mem_singleton] at h
      exact ⟨[], [], by simp [h, ← hcut], by simp [EndsApart], by simp, hnone⟩
    | cons c rest =>
      have hc : separates c = true := by simpa using hhead
      rw [← hcut, List.splitOnP_append_cons_of_forall_mem hpiece c hc, List.mem_cons] at h
      by_cases hword : word = piece
      · subst hword
        refine ⟨[], c :: rest, hcut.symm, by simp [EndsApart], fun b hb => ?_, hnone⟩
        rwa [← Option.some.inj hb]
      · have hshorter : rest.length < n := by
          rw [← hn, ← hcut, List.length_append, List.length_cons]
          omega
        obtain ⟨before, behind, hwhole, hapart, hended, hfirst⟩ :=
          ih rest.length hshorter (h.resolve_left hword) rfl
        refine ⟨piece ++ c :: before, behind, ?_, ?_, hended, ?_⟩
        · rw [← hcut, hwhole, List.append_assoc, List.cons_append]
        · intro b hb
          rw [List.getLast?_append_cons] at hb
          cases before with
          | nil => rwa [← Option.some.inj hb]
          | cons d before => exact hapart b hb
        · rw [List.splitOnP_append_cons_of_forall_mem hpiece c hc]
          simp [hword, hfirst]

theorem arithmetic_of_variableOperand {s : Store} {source name : Text}
    (h : spanRemark? s source = some (.variableOperand name)) :
    (∃ v, s.evaluate (Text.trimWhite source) = .ok v) ∧
      s.rule (Text.trimWhite source) = .arithmetic ∧
      variableOperand? s (Text.trimWhite source) = some name := by
  cases hv : s.evaluate (Text.trimWhite source) with
  | error e =>
    rw [spanRemark?_of_error hv] at h
    exact absurd h (by simp)
  | ok v =>
    simp only [spanRemark?, hv] at h
    cases hrule : s.rule (Text.trimWhite source) with
    | arithmetic =>
      simp only [hrule] at h
      obtain ⟨word, hword, hname⟩ := Option.map_eq_some_iff.1 h
      exact ⟨⟨v, rfl⟩, rfl, Remark.variableOperand.inj hname ▸ hword⟩
    | string =>
      simp only [hrule] at h
      split at h <;> simp at h
    | _ => simp [hrule] at h

theorem of_variableOperand? {s : Store} {t name : Text} (h : variableOperand? s t = some name) :
    name ∈ t.splitOnP separates ∧ ∃ b rest, name = b :: rest ∧ Text.opensName b = true := by
  refine ⟨List.mem_of_find?_eq_some h, ?_⟩
  have hfound := List.find?_some h
  have hname := (Bool.and_eq_true_iff.1 hfound).2
  cases name with
  | nil => exact absurd hname (by decide)
  | cons b rest => exact ⟨b, rest, rfl, (Bool.and_eq_true_iff.1 hname).1⟩

end Lint

/-- Where the linter says that evaluation stops before a variable, the part in front of it has a
value. The expression has the same value if an operand is due at the variable, or if behind a number
there no number follows the first byte of the name. Otherwise that byte stands for an operator that
takes the number with it, and the operations behind this number are carried out as well. -/
theorem evaluate_of_variableOperand {s : Store} {source name : Text}
    (warned : Lint.spanRemark? s source = some (.variableOperand name)) :
    (∃ before behind, Lint.FirstToken (Text.trimWhite source) name before behind) ∧
    ∀ before behind, Lint.FirstToken (Text.trimWhite source) name before behind →
      ∃ f, value? before = some f ∧
        (¬ NumberLast before → s.evaluate (Text.trimWhite source) = .ok (.float f)) ∧
        (∀ e, Literal.float ((name ++ behind).tail.dropWhile Text.isBlank) = .error e →
          s.evaluate (Text.trimWhite source) = .ok (.float f)) ∧
        ∀ l, NumberLast before →
          Literal.float ((name ++ behind).tail.dropWhile Text.isBlank) = .ok l →
          ∃ g, s.evaluate (Text.trimWhite source) = .ok (.float g) ∧
            foldFrom f (operationsFrom 0 none [] (behindNumber (name ++ behind).tail l)) =
              some g := by
  obtain ⟨⟨v, hv⟩, hrule, hoperand⟩ := Lint.arithmetic_of_variableOperand warned
  obtain ⟨hmem, b, rest, rfl, hb⟩ := Lint.of_variableOperand? hoperand
  refine ⟨Lint.exists_firstToken (List.cons_ne_nil b rest) hmem, fun before behind hcut => ?_⟩
  -- the rule is that of arithmetic, and the evaluation has come to a value
  obtain ⟨g, hg, hvalue⟩ : ∃ g, value? (Text.trimWhite source) = some g ∧
      s.evaluate (Text.trimWhite source) = .ok (.float g) := by
    rw [← Store.resolve_rule, hrule, Rule.resolve, Text.trim_trimWhite] at hv ⊢
    cases hg : value? (Text.trimWhite source) with
    | none => simp [hg] at hv
    | some g => exact ⟨g, rfl, rfl⟩
  rw [hcut.whole, List.cons_append] at hg
  obtain ⟨f, hf, hdue, hnone, hnumber⟩ := value?_append_name hcut.apart hb (rest ++ behind) hg
  refine ⟨f, hf, fun hlast => ?_, fun e he => ?_, fun l hlast hl => ⟨g, hvalue, hnumber l hlast hl⟩⟩
  · rw [hvalue, hdue hlast]
  · rw [hvalue, hnone e he]

/-- The sign behind the variable is not followed by a number it could belong to. -/
theorem evaluate_of_variableOperand_product :
    let s := Store.empty.set "x" (.int 1)
    Lint.spanRemark? s " 2 * 3 + x / 4 " = some (.variableOperand "x") ∧
      s.evaluate "2 * 3 + x / 4" = .ok (.float 6) := by
  intro s
  have warned : Lint.spanRemark? s " 2 * 3 + x / 4 " = some (.variableOperand "x") := by
    decide +kernel
  have hexpr : Text.trimWhite " 2 * 3 + x / 4 " = Text.ofString "2 * 3 + x / 4" := by
    decide +kernel
  have cut : Lint.FirstToken "2 * 3 + x / 4" "x" "2 * 3 + " " / 4" := by
    refine ⟨by decide, fun b hb => ?_, fun b hb => ?_, by decide +kernel⟩ <;>
      obtain rfl := Option.some.inj hb <;> decide
  have hsplit := (evaluate_of_variableOperand warned).2
  rw [hexpr] at hsplit
  obtain ⟨f, hf, -, hnone, -⟩ := hsplit _ _ cut
  have hsix : value? "2 * 3 + " = some 6 := by decide +kernel
  obtain rfl := Option.some.inj (hsix.symm.trans hf)
  exact ⟨warned, hnone .expectedDigits (by decide +kernel)⟩

/-- The linter says that evaluation stops before the variable, but the variable takes the 2 with it
and the 3 is added. -/
theorem not_stops_before_variable :
    let s := Store.empty.set "x" (.int 1)
    Lint.spanRemark? s "1 x 2 + 3" = some (.variableOperand "x") ∧
      Lint.FirstToken "1 x 2 + 3" "x" "1 " " 2 + 3" ∧ value? "1 " = some 1 ∧
      s.evaluate "1 x 2 + 3" = .ok (.float 4) := by
  intro s
  refine ⟨by decide +kernel, ⟨by decide, fun b hb => ?_, fun b hb => ?_, by decide +kernel⟩,
    by decide +kernel, by decide +kernel⟩ <;> obtain rfl := Option.some.inj hb <;> decide

end LineScript
