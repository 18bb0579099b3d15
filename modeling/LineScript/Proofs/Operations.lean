import LineScript.Proofs.Chain
import LineScript.Proofs.Text.Symbol

/-! What the reading of an arithmetic expression comes to. It reaches one operation after the other,
whatever byte stands for the operator, and fails exactly if it reaches a division by zero. An unknown
operator is a single byte: behind such a character of ASCII the number is skipped and the chain goes
on, but any longer character ends the chain. -/

namespace LineScript

namespace Arithmetic

/-- Reading a text behind an operator comes to an operation. -/
inductive Reaches : UInt8 → Text → Operation → Prop
  | here {operator : UInt8} {gap t : Text} {l : Literal Float} :
    Blank gap → Literal.float t = .ok l → Reaches operator (gap ++ t) ⟨operator, l.value⟩
  | later {operator next : UInt8} {gap t gap' rest : Text} {l : Literal Float} {o : Operation} :
    Blank gap → Literal.float t = .ok l → t.drop l.length = gap' ++ next :: rest → Blank gap' →
    Text.isBlank next = false → Reaches next rest o → Reaches operator (gap ++ t) o

theorem blank_takeWhile (t : Text) : Blank (t.takeWhile Text.isBlank) :=
  fun _ hb => List.mem_takeWhile_imp hb

theorem mem_operationsFrom_of_mem {o : Operation} {seen : List Operation} (h : o ∈ seen)
    (skip : Nat) (pending : Option UInt8) (t : Text) : o ∈ operationsFrom skip pending seen t := by
  fun_induction operationsFrom skip pending seen t with
  | case1 => exact List.mem_reverse.2 h
  | case2 _ _ _ _ _ ih => exact ih h
  | case3 _ _ _ _ _ ih => exact ih h
  | case4 _ _ _ _ ih => exact ih h
  | case5 _ _ _ _ _ _ _ ih => exact ih (List.mem_cons_of_mem _ h)
  | case6 => exact List.mem_reverse.2 h

theorem operationsFrom_next {next : UInt8} (h : Text.isBlank next = false) (seen : List Operation)
    (rest : Text) :
    operationsFrom 0 none seen (next :: rest) = operationsFrom 0 (some next) seen rest := by
  rw [operationsFrom_cons, if_neg (by simp [h])]

theorem Reaches.mem_operationsFrom {operator : UInt8} {t : Text} {o : Operation}
    (h : Reaches operator t o) (seen : List Operation) :
    o ∈ operationsFrom 0 (some operator) seen t := by
  induction h generalizing seen with
  | here hgap hfloat =>
    rw [operationsFrom_blank hgap, operationsFrom_float hfloat]
    exact mem_operationsFrom_of_mem List.mem_cons_self _ _ _
  | later hgap hfloat hrest hgap' hnext hreaches ih =>
    rw [operationsFrom_blank hgap, operationsFrom_float hfloat, hrest, operationsFrom_blank hgap',
      operationsFrom_next hnext]
    exact ih _

theorem exists_gap {t rest : Text} {next : UInt8} (h : t.dropWhile Text.isBlank = next :: rest) :
    Text.isBlank next = false ∧ ∃ gap, Blank gap ∧ t = gap ++ next :: rest := by
  have hcut := List.takeWhile_append_dropWhile (p := Text.isBlank) (l := t)
  have hnext := List.head?_dropWhile_not Text.isBlank t
  rw [h] at hcut hnext
  exact ⟨by simpa using hnext, _, blank_takeWhile t, hcut.symm⟩

section Turn
variable {operator next : UInt8} {t rest : Text} {l : Literal Float} {o : Operation}

theorem Reaches.first (h : Literal.float (t.dropWhile Text.isBlank) = .ok l) :
    Reaches operator t ⟨operator, l.value⟩ := by
  have hreaches : Reaches operator (t.takeWhile Text.isBlank ++ t.dropWhile Text.isBlank) _ :=
    .here (blank_takeWhile t) h
  rwa [List.takeWhile_append_dropWhile] at hreaches

theorem Reaches.behind (h : Literal.float (t.dropWhile Text.isBlank) = .ok l)
    (hrest : ((t.dropWhile Text.isBlank).drop l.length).dropWhile Text.isBlank = next :: rest)
    (ho : Reaches next rest o) : Reaches operator t o := by
  obtain ⟨hnext, gap, hgap, hcut⟩ := exists_gap hrest
  have hreaches : Reaches operator (t.takeWhile Text.isBlank ++ t.dropWhile Text.isBlank) o :=
    .later (blank_takeWhile t) h hcut hgap hnext ho
  rwa [List.takeWhile_append_dropWhile] at hreaches

theorem operationsFrom_dropWhile (pending : Option UInt8) (seen : List Operation) (t : Text) :
    operationsFrom 0 pending seen (t.dropWhile Text.isBlank) =
      operationsFrom 0 pending seen t := by
  have hskip := operationsFrom_blank (blank_takeWhile t) pending seen (t.dropWhile Text.isBlank)
  rw [List.takeWhile_append_dropWhile] at hskip
  exact hskip.symm

/-- With a number behind the operator, one operation is read. -/
theorem operationsFrom_turn (h : Literal.float (t.dropWhile Text.isBlank) = .ok l)
    (seen : List Operation) :
    operationsFrom 0 (some operator) seen t =
      operationsFrom 0 none (⟨operator, l.value⟩ :: seen)
        (((t.dropWhile Text.isBlank).drop l.length).dropWhile Text.isBlank) := by
  rw [operationsFrom_dropWhile, ← operationsFrom_dropWhile _ _ t, operationsFrom_float h]

end Turn

theorem reaches_of_mem_operationsFrom {operator : UInt8} {t : Text} {o : Operation}
    {seen : List Operation} (h : o ∈ operationsFrom 0 (some operator) seen t) :
    o ∈ seen ∨ Reaches operator t o := by
  induction hn : t.length using Nat.strongRecOn generalizing operator t seen with
  | ind n ih =>
    cases hfloat : Literal.float (t.dropWhile Text.isBlank) with
    | error e =>
      rw [operationsFrom_error hfloat] at h
      exact Or.inl (List.mem_reverse.1 h)
    | ok l =>
      have hread (hmem : o ∈ (⟨operator, l.value⟩ :: seen : List Operation)) :
          o ∈ seen ∨ Reaches operator t o := by
        rcases List.mem_cons.1 hmem with rfl | hseen
        · exact Or.inr (.first hfloat)
        · exact Or.inl hseen
      rw [operationsFrom_turn hfloat] at h
      cases hrest : ((t.dropWhile Text.isBlank).drop l.length).dropWhile Text.isBlank with
      | nil =>
        rw [hrest] at h
        exact hread (List.mem_reverse.1 h)
      | cons next rest =>
        obtain ⟨hnext, gap, -, hcut⟩ := exists_gap hrest
        have hshorter : rest.length < n := by
          have hle := ((List.drop_sublist l.length _).trans
            (List.dropWhile_sublist (l := t) Text.isBlank)).length_le
          rw [hcut, List.length_append, List.length_cons] at hle
          omega
        rw [hrest, operationsFrom_next hnext] at h
        rcases ih rest.length hshorter h rfl with hmem | hreaches
        · exact hread hmem
        · exact Or.inr (.behind hfloat hrest hreaches)

theorem mem_operations_iff (t : Text) (o : Operation) : o ∈ operations t ↔ Reaches Text.plus t o := by
  refine ⟨fun h => ?_, fun h => h.mem_operationsFrom []⟩
  exact (reaches_of_mem_operationsFrom h).resolve_left List.not_mem_nil

theorem step_eq_none_iff {acc : Float} {o : Operation} :
    step acc o = none ↔ o.operator = Text.slash ∧ (o.operand == 0) = true := by
  obtain ⟨operator, operand⟩ := o
  by_cases hslash : operator = Text.slash
  · subst hslash
    have hdivides : step acc ⟨Text.slash, operand⟩ = Operator.over.apply acc operand :=
      Operator.step_byte .over acc operand
    rw [hdivides, Operator.apply_eq_none_iff]
    simp
  · unfold step
    split_ifs <;> simp_all

theorem foldFrom_eq_none_iff (acc : Float) (ops : List Operation) :
    foldFrom acc ops = none ↔ ∃ o ∈ ops, o.operator = Text.slash ∧ (o.operand == 0) = true := by
  induction ops generalizing acc with
  | nil => simp [foldFrom]
  | cons o ops ih =>
    rw [List.exists_mem_cons_iff, ← @step_eq_none_iff acc, foldFrom]
    cases hnext : step acc o with
    | none => simp
    | some next => simpa using ih next

/-- Arithmetic has no value exactly if it reaches a division by a number that equals zero. -/
theorem value?_eq_none_iff (t : Text) :
    value? t = none ↔ ∃ zero, Reaches Text.plus t ⟨Text.slash, zero⟩ ∧ (zero == 0) = true := by
  rw [value?, foldFrom_eq_none_iff]
  constructor
  · rintro ⟨⟨operator, operand⟩, hmem, rfl, hzero⟩
    exact ⟨operand, (mem_operations_iff _ _).1 hmem, hzero⟩
  · rintro ⟨zero, hreaches, hzero⟩
    exact ⟨_, (mem_operations_iff _ _).2 hreaches, rfl, hzero⟩

/-- The value of an arithmetic text, or else the cause of its failure. -/
def outcome (t : Text) : Except Cause Value :=
  match value? t with
  | some f => .ok (.float f)
  | none => .error .divisionByZero

/-- A character that is neither a blank nor an operator. -/
def IsUnknown (c : Char) : Prop := c ∉ [' ', '\t', '+', '-', '*', '/']

instance (c : Char) : Decidable (IsUnknown c) := inferInstanceAs (Decidable (_ ∉ _))

theorem IsUnknown.byte {c : Char} (h : IsUnknown c) {b : UInt8}
    (hc : String.utf8EncodeChar c = [b]) : Text.isBlank b = false ∧ isOperator b = false := by
  have hne (d : Char) (hd : d ∈ [' ', '\t', '+', '-', '*', '/']) (byte : UInt8)
      (hbyte : String.utf8EncodeChar d = [byte]) : b ≠ byte := by
    rintro rfl
    exact h (Symbol.encode_injective (hc.trans hbyte.symm) ▸ hd)
  constructor
  · simp [Text.isBlank, hne ' ' (by decide) 0x20 (by decide), hne '\t' (by decide) 0x09 (by decide)]
  · simp [isOperator, hne '+' (by decide) Text.plus (by decide),
      hne '-' (by decide) Text.minus (by decide), hne '*' (by decide) Text.times (by decide),
      hne '/' (by decide) Text.slash (by decide)]

theorem step_of_not_isOperator {b : UInt8} (h : isOperator b = false) (acc operand : Float) :
    step acc ⟨b, operand⟩ = some acc := by
  simp only [isOperator, Bool.or_eq_false_iff] at h
  obtain ⟨⟨⟨hplus, hminus⟩, htimes⟩, hslash⟩ := h
  simp [step, hplus, hminus, htimes, hslash]

theorem foldFrom_append (acc : Float) (ops more : List Operation) :
    foldFrom acc (ops ++ more) = (foldFrom acc ops).bind (foldFrom · more) := by
  induction ops generalizing acc with
  | nil => rfl
  | cons o ops ih =>
    rw [List.cons_append, foldFrom, foldFrom]
    cases step acc o with
    | none => rfl
    | some next => exact ih next

/-- An operation with an unknown operator can be left out. -/
theorem foldFrom_skip {b : UInt8} (h : isOperator b = false) (acc operand : Float)
    (ops more : List Operation) :
    foldFrom acc (ops ++ ⟨b, operand⟩ :: more) = foldFrom acc (ops ++ more) := by
  have hskip (acc : Float) : foldFrom acc (⟨b, operand⟩ :: more) = foldFrom acc more := by
    rw [foldFrom, step_of_not_isOperator h]
  simp only [foldFrom_append, hskip]

theorem ends_space (rest : Text) : Literal.Ends (0x20 :: rest) := by
  intro b hb
  obtain rfl := Option.some.inj hb
  decide

theorem operationsFrom_space (pending : Option UInt8) (seen : List Operation) (rest : Text) :
    operationsFrom 0 pending seen (0x20 :: rest) = operationsFrom 0 pending seen rest := by
  rw [operationsFrom_cons, if_pos (by decide)]

theorem exists_encode_of_ne_one {c : Char} (h : c.utf8Size ≠ 1) :
    ∃ x y more, String.utf8EncodeChar c = x :: y :: more ∧ 0x80 ≤ x.toNat ∧ 0x80 ≤ y.toNat := by
  have hge : 0x80 ≤ c.val.toNat := by
    by_contra hlt
    rw [← String.length_utf8EncodeChar, Symbol.encode_of_lt (by omega)] at h
    exact h rfl
  have hlength := String.length_utf8EncodeChar c
  have hpos := c.utf8Size_pos
  have hbytes (b : UInt8) := Symbol.ge_of_mem_encode (b := b) hge
  generalize String.utf8EncodeChar c = bytes at hlength hbytes ⊢
  match bytes with
  | [] => exact absurd hlength.symm hpos.ne'
  | [x] => exact absurd hlength.symm h
  | x :: y :: more => exact ⟨x, y, more, rfl, hbytes x (by simp), hbytes y (by simp)⟩

namespace Chain.Spells

variable {chain : Chain} {a b : Text} {links : List Link}

/-- A chain that goes on with further links has one fold of all its operations. -/
theorem value?_append_links (h : chain.Spells a) (hb : SpellsLinks links b) :
    Arithmetic.value? (a ++ b) =
      foldFrom 0 (chain.operations.reverse ++ links.map Link.operation) := by
  have hends : Literal.Ends b := by simpa using hb.ends_append Literal.ends_nil
  have hlinks := operationsFrom_links hb Literal.ends_nil chain.operations
  rw [List.append_nil] at hlinks
  rw [Arithmetic.value?, h.operations_append hends, hlinks, operationsFrom, List.reverse_append,
    List.reverse_reverse]

/-- A single byte that is no operator takes the next number with it. -/
theorem value?_skip (h : chain.Spells a) (hb : SpellsLinks links b) {c : Char}
    (unknown : IsUnknown c) (hc : c.utf8Size = 1) (n : Numeral) :
    Arithmetic.value? (a ++ 0x20 :: (String.utf8EncodeChar c ++ 0x20 :: (n.parts.text ++ b))) =
      Arithmetic.value? (a ++ b) := by
  obtain ⟨x, hx⟩ : ∃ x, String.utf8EncodeChar c = [x] :=
    List.length_eq_one_iff.1 (by rw [String.length_utf8EncodeChar, hc])
  obtain ⟨hblank, hoperator⟩ := unknown.byte hx
  have hends : Literal.Ends b := by simpa using hb.ends_append Literal.ends_nil
  have hlinks := operationsFrom_links hb Literal.ends_nil (⟨x, n.value⟩ :: chain.operations)
  rw [List.append_nil] at hlinks
  rw [h.value?_append_links hb, hx, List.singleton_append, Arithmetic.value?,
    h.operations_append (ends_space _), operationsFrom_space, operationsFrom_next hblank,
    operationsFrom_space, operationsFrom_numeral n x _ hends, hlinks, operationsFrom,
    List.reverse_append, List.reverse_reverse, List.reverse_cons, List.append_assoc,
    List.singleton_append, foldFrom_skip hoperator]

/-- A character of several bytes ends the chain. -/
theorem value?_stop (h : chain.Spells a) {c : Char} (hc : c.utf8Size ≠ 1) (rest : Text) :
    Arithmetic.value? (a ++ 0x20 :: (String.utf8EncodeChar c ++ rest)) = Arithmetic.value? a := by
  obtain ⟨x, y, more, hencode, hx, hy⟩ := exists_encode_of_ne_one hc
  have hblank := Text.isBlank_of_ge hx
  have hnone : Literal.float ((y :: (more ++ rest)).dropWhile Text.isBlank) =
      .error .expectedDigits := by
    rw [List.dropWhile_cons_of_neg (by simp [Text.isBlank_of_ge hy])]
    exact Literal.float_of_isWhiteByte (Text.isWhiteByte_of_ge hy) _
  have hchain := h.operations_append (ends_space (x :: y :: (more ++ rest)))
  rw [hencode, List.cons_append, List.cons_append, Arithmetic.value?, hchain, operationsFrom_space,
    operationsFrom_next hblank, operationsFrom_error hnone, h.value?_eq, chain.foldFrom_operations]

end Chain.Spells

end Arithmetic

open Arithmetic

theorem Store.outcome_of_isOperator {s : Store} {t : Text} (h : s.get? t.trim = none)
    (operator : ∃ b ∈ t, isOperator b = true) : s.outcome t = Arithmetic.outcome t := by
  rw [outcome, evaluate_of_isOperator h operator, Arithmetic.outcome]
  cases Arithmetic.value? t <;> rfl

/-- An unknown operator of a single byte passes over the number behind it, as if both were not
there. A character of several bytes ends the arithmetic instead, so that the links behind it count
for nothing. -/
theorem outcome_unknown_operator {chain : Chain} {links : List Link} {a b : Text}
    (front : chain.Spells a) (back : SpellsLinks links b) (n : Numeral) {c : Char}
    (unknown : IsUnknown c) {s : Store} {t : Text}
    (spelled : t = a ++ 0x20 :: (String.utf8EncodeChar c ++ 0x20 :: (n.parts.text ++ b)))
    (operator : ∃ x ∈ t, isOperator x = true) (unbound : s.get? t.trim = none) :
    (c.utf8Size = 1 → s.outcome t = Arithmetic.outcome (a ++ b)) ∧
    (c.utf8Size ≠ 1 → s.outcome t = Arithmetic.outcome a) ∧
    (s.outcome t = Arithmetic.outcome (a ++ b) ↔
      c.utf8Size = 1 ∨ Arithmetic.outcome a = Arithmetic.outcome (a ++ b)) := by
  have houtcome := Store.outcome_of_isOperator unbound operator
  have hskip (hc : c.utf8Size = 1) : s.outcome t = Arithmetic.outcome (a ++ b) := by
    rw [houtcome, Arithmetic.outcome, spelled, front.value?_skip back unknown hc]
    rfl
  have hstop (hc : c.utf8Size ≠ 1) : s.outcome t = Arithmetic.outcome a := by
    rw [houtcome, Arithmetic.outcome, spelled, front.value?_stop hc]
    rfl
  refine ⟨hskip, hstop, ?_⟩
  by_cases hc : c.utf8Size = 1
  · exact iff_of_true (hskip hc) (Or.inl hc)
  · rw [hstop hc, or_iff_right hc]

/-- A remainder sign between numbers is passed over with the number behind it. -/
theorem outcome_unknown_operator_remainder :
    let one : Numeral := ⟨.ofText "1", 1, Literal.Parts.isNumeral_ofText (by decide), by decide⟩
    let two : Numeral := ⟨.ofText "2", 2, Literal.Parts.isNumeral_ofText (by decide), by decide⟩
    let three : Numeral := ⟨.ofText "3", 3, Literal.Parts.isNumeral_ofText (by decide), by decide⟩
    let chain : Chain := ⟨one, []⟩
    chain.Spells ("1" : Text) ∧ SpellsLinks [⟨.plus, three⟩] (" + 3" : Text) ∧ IsUnknown '%' ∧
      two.parts.text = ("2" : Text) ∧
      Store.empty.outcome "1 % 2 + 3" = Arithmetic.outcome "1 + 3" ∧
      Arithmetic.outcome "1 + 3" = .ok (.float 4) := by
  intro one two three chain
  have front : chain.Spells ("1" : Text) :=
    ⟨[], [], by decide +kernel, .none (by decide +kernel), by decide⟩
  have back : SpellsLinks [⟨.plus, three⟩] (" + 3" : Text) :=
    @SpellsLinks.link ⟨.plus, three⟩ [] [0x20] [0x20] [] (by decide +kernel) (by decide +kernel)
      (.none (by decide +kernel))
  have unknown : IsUnknown '%' := by decide
  have hskip := (outcome_unknown_operator (s := Store.empty) (t := "1 % 2 + 3") front back two
    unknown (by decide) (by decide) (by decide)).1 (by decide)
  exact ⟨front, back, unknown, by decide, hskip, by decide +kernel⟩

/-- The two bytes of an accented letter end the sum, and the number behind the next plus sign is not
added. -/
theorem not_skips_long_character :
    let one : Numeral := ⟨.ofText "1", 1, Literal.Parts.isNumeral_ofText (by decide), by decide⟩
    let two : Numeral := ⟨.ofText "2", 2, Literal.Parts.isNumeral_ofText (by decide), by decide⟩
    let three : Numeral := ⟨.ofText "3", 3, Literal.Parts.isNumeral_ofText (by decide), by decide⟩
    let chain : Chain := ⟨one, []⟩
    let t : Text := "1 é 2 + 3"
    chain.Spells ("1" : Text) ∧ SpellsLinks [⟨.plus, three⟩] (" + 3" : Text) ∧ IsUnknown 'é' ∧
      t = Text.ofString "1" ++ 0x20 ::
        (String.utf8EncodeChar 'é' ++ 0x20 :: (two.parts.text ++ Text.ofString " + 3")) ∧
      (∃ b ∈ t, isOperator b = true) ∧ Store.empty.get? t.trim = none ∧
      Store.empty.outcome t = .ok (.float 1) ∧
      Arithmetic.outcome (Text.ofString "1" ++ Text.ofString " + 3") = .ok (.float 4) := by
  intro one two three chain t
  have front : chain.Spells ("1" : Text) :=
    ⟨[], [], by decide +kernel, .none (by decide +kernel), by decide⟩
  have back : SpellsLinks [⟨.plus, three⟩] (" + 3" : Text) :=
    @SpellsLinks.link ⟨.plus, three⟩ [] [0x20] [0x20] [] (by decide +kernel) (by decide +kernel)
      (.none (by decide +kernel))
  exact ⟨front, back, by decide, by decide, by decide, by decide, by decide +kernel,
    by decide +kernel⟩

end LineScript
