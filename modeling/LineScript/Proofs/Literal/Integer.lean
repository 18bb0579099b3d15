import LineScript.Proofs.Literal.Forms

/-! Integer literals. The longest integer at the front of a text is read with its full value, however
many digits it has, and it is refused exactly if no integer of 64 bits has that value. The decimal
text of an integer of 64 bits is read back. -/

namespace LineScript

/-- The integer that a sign or none and digits denote. -/
def Text.signedValue (p : Text) : Int :=
  match p with
  | [] => 0
  | b :: rest =>
    if b = minus then -digitsValue rest
    else if b = plus then digitsValue rest
    else digitsValue p

def IsInt64 (n : Int) : Prop := -2 ^ 63 ≤ n ∧ n ≤ 2 ^ 63 - 1

theorem int64?_eq_none_iff {n : Int} : int64? n = none ↔ ¬ IsInt64 n := by
  rw [int64?, IsInt64]
  split <;> simp <;> omega

theorem int64?_eq_some_iff {n : Int} {i : Int64} : int64? n = some i ↔ i.toInt = n := by
  constructor
  · intro h
    rw [int64?] at h
    split at h
    · rename_i hrange
      obtain rfl := Option.some.inj h
      exact Int64.toInt_ofInt_of_le (by simpa using hrange.1) (by simpa using hrange.2)
    · exact absurd h (by simp)
  · rintro rfl
    exact Literal.int64?_toInt i

namespace Literal

def integerFront (t : Text) : Text := sign t ++ digits (t.drop (sign t).length)

theorem integerFront_isPrefix (t : Text) : integerFront t <+: t :=
  Parts.append_drop_isPrefix (sign_isPrefix t) (digits_isPrefix _)

theorem length_le_integerFront {t q : Text} (hq : q <+: t) (hform : q ∈ Form.integer.matches') :
    digits (t.drop (sign t).length) ≠ [] ∧ q.length ≤ (integerFront t).length := by
  obtain ⟨rest, rfl⟩ := hq
  obtain ⟨s, ds, hs, hne, hds, rfl⟩ := Form.mem_integer.1 hform
  have hsign : sign (s ++ (ds ++ rest)) = s := by
    obtain ⟨d, ds, rfl⟩ := List.exists_cons_of_ne_nil hne
    exact hs.sign_append fun b hb =>
      ne_signs_of_isDigit (Option.some.inj hb ▸ hds d List.mem_cons_self)
  rw [integerFront, List.append_assoc, hsign, List.drop_left, digits_append_digits hds]
  refine ⟨List.append_ne_nil_of_left_ne_nil hne _, ?_⟩
  simp only [List.length_append]
  omega

theorem isLongest_integerFront {t : Text} (h : digits (t.drop (sign t).length) ≠ []) :
    t.IsLongest Form.integer (integerFront t) where
  front := integerFront_isPrefix t
  matching := Form.mem_integer.2 ⟨sign t, _, sign_isSign t, h, fun _ => isDigit_of_mem_digits, rfl⟩
  longest := fun _ hq hform => (length_le_integerFront hq hform).2

/-- The longest integer at the front of a text is the sign and all digits there. -/
theorem isLongest_integer_iff {t p : Text} : t.IsLongest Form.integer p ↔
    digits (t.drop (sign t).length) ≠ [] ∧ p = integerFront t := by
  constructor
  · intro hp
    have hne := (length_le_integerFront hp.front hp.matching).1
    exact ⟨hne, hp.eq (isLongest_integerFront hne)⟩
  · rintro ⟨hne, rfl⟩
    exact isLongest_integerFront hne

theorem signedValue_append {s ds : Text} (hs : IsSign s) (hne : ds ≠ [])
    (hds : ∀ b ∈ ds, Text.isDigit b = true) : (s ++ ds).signedValue =
      if s = [Text.minus] then -(Text.digitsValue ds : Int) else Text.digitsValue ds := by
  rcases hs with rfl | rfl | rfl
  · obtain ⟨d, ds, rfl⟩ := List.exists_cons_of_ne_nil hne
    obtain ⟨hplus, hminus⟩ := ne_signs_of_isDigit (hds d List.mem_cons_self)
    simp [Text.signedValue, hplus, hminus]
  · rfl
  · rfl

/-- What is counted no further than the cap is out of range with its full value as well. -/
theorem int64?_cappedValue (negative : Prop) [Decidable negative] (ds : Text) :
    int64? (if negative then -(cappedValue ds : Int) else cappedValue ds) =
      int64? (if negative then -(Text.digitsValue ds : Int) else Text.digitsValue ds) := by
  rw [cappedValue_eq]
  by_cases hsmall : Text.digitsValue ds ≤ integerCap
  · rw [Nat.min_eq_left hsmall]
  · rw [Nat.min_eq_right (Nat.le_of_not_le hsmall)]
    have hlarge : (0x8000000000000001 : Nat) < Text.digitsValue ds := Nat.lt_of_not_le hsmall
    have hcap : integerCap = 0x8000000000000001 := rfl
    rw [int64?_eq_none_iff.2, int64?_eq_none_iff.2] <;>
      (simp only [IsInt64, hcap]; split <;> omega)

/-- An integer is read with the value of the longest integer at the front. -/
theorem int_eq (t : Text) :
    int t = if digits (t.drop (sign t).length) = [] then .error .expectedDigits
      else match int64? (integerFront t).signedValue with
        | some i => .ok ⟨i, (integerFront t).length⟩
        | none => .error .integerOutOfRange := by
  rw [int]
  dsimp only
  split
  · rfl
  · rename_i hne
    have hvalue : (integerFront t).signedValue = _ :=
      signedValue_append (sign_isSign t) hne fun _ => isDigit_of_mem_digits
    have hlength : (integerFront t).length = _ := List.length_append
    rw [int64?_cappedValue, ← hvalue]
    cases int64? (integerFront t).signedValue with
    | none => rfl
    | some i => exact congrArg (fun n => Except.ok (Literal.mk i n)) hlength.symm

theorem int_eq_expectedDigits_iff (t : Text) : int t = .error .expectedDigits ↔
    ∀ p, p <+: t → p ∉ Form.integer.matches' := by
  rw [int_eq]
  split
  · rename_i hnone
    exact iff_of_true rfl fun p hp hform => (length_le_integerFront hp hform).1 hnone
  · rename_i hne
    have hlongest := isLongest_integer_iff.2 ⟨hne, rfl⟩
    refine iff_of_false ?_ fun hall => hall _ hlongest.front hlongest.matching
    split <;> simp

theorem int_eq_integerOutOfRange_iff (t : Text) : int t = .error .integerOutOfRange ↔
    ∃ p, t.IsLongest Form.integer p ∧ ¬ IsInt64 p.signedValue := by
  simp only [isLongest_integer_iff, and_assoc, exists_and_left, exists_eq_left]
  rw [int_eq]
  split
  · rename_i hnone
    simp [hnone]
  · rename_i hne
    rw [← int64?_eq_none_iff]
    cases int64? (integerFront t).signedValue <;> simp [hne]

theorem int_eq_ok_iff (t : Text) (l : Literal Int64) : int t = .ok l ↔
    ∃ p, t.IsLongest Form.integer p ∧ l.value.toInt = p.signedValue ∧ l.length = p.length := by
  simp only [isLongest_integer_iff, and_assoc, exists_and_left, exists_eq_left]
  rw [int_eq]
  split
  · rename_i hnone
    simp [hnone]
  · rename_i hne
    rw [← int64?_eq_some_iff]
    cases int64? (integerFront t).signedValue with
    | none => simp
    | some i =>
      obtain ⟨value, length⟩ := l
      simp only [Except.ok.injEq, Literal.mk.injEq, Option.some.injEq, hne, ne_eq, not_false_eq_true,
        true_and]
      exact and_congr_right fun _ => eq_comm

/-- An integer literal is the longest front part of a text that is a sign or none and digits. There is
no literal exactly if the text has no such front part. It is out of range exactly if what it denotes
is no integer of 64 bits, whatever the number of its digits, and otherwise it is read with that value
and its length. Every integer of 64 bits is read back from its text, up to what follows the digits. -/
theorem int_exact :
    (∀ t, (FailsWith (int t) "expected digits" ↔ ∀ p, p <+: t → p ∉ Form.integer.matches') ∧
      (FailsWith (int t) "integer out of range" ↔
        ∃ p, t.IsLongest Form.integer p ∧ ¬ IsInt64 p.signedValue) ∧
      ∀ l, int t = .ok l ↔
        ∃ p, t.IsLongest Form.integer p ∧ l.value.toInt = p.signedValue ∧ l.length = p.length) ∧
    ∀ (n : Int64) (rest : Text), (∀ b, rest.head? = some b → Text.isDigit b = false) →
      int ((Value.int n).text ++ rest) = .ok ⟨n, (Value.int n).text.length⟩ := by
  refine ⟨fun t => ⟨?_, ?_, int_eq_ok_iff t⟩, fun n rest hrest => int_ofInt n hrest⟩
  · exact failsWith_message_iff.trans (int_eq_expectedDigits_iff t)
  · exact failsWith_message_iff.trans (int_eq_integerOutOfRange_iff t)

/-- The least integer with zeros before it, and the next one below it. -/
theorem int_exact_least :
    int "-0009223372036854775808.5" = .ok ⟨Int64.minValue, 23⟩ ∧
    FailsWith (int "-9223372036854775809") "integer out of range" ∧
    int ((Value.int Int64.minValue).text ++ "e5") = .ok ⟨Int64.minValue, 20⟩ := by
  obtain ⟨hread, hback⟩ := int_exact
  refine ⟨(hread _).2.2 _ |>.2 ⟨"-0009223372036854775808", ?_, ?_, ?_⟩,
    (hread _).2.1.2 ⟨"-9223372036854775809", ?_, ?_⟩, ?_⟩
  · exact isLongest_integer_iff.2 (by decide +kernel)
  · decide +kernel
  · decide +kernel
  · exact isLongest_integer_iff.2 (by decide +kernel)
  · rw [← int64?_eq_none_iff]
    decide +kernel
  · refine hback Int64.minValue "e5" fun b hb => ?_
    obtain rfl : 0x65 = b := Option.some.inj hb
    rfl

end Literal

end LineScript
