import LineScript.Proofs.Decimal.Shortest
import LineScript.Proofs.Decimal.Grammar

/-! Decimal numbers as they are written. The parts of a number come back from its text in full, and
a number of few digits is read as the float nearest to it. -/

namespace LineScript

namespace Text

theorem digitsValue_zeros (n : ℕ) : digitsValue (List.replicate n 0x30) = 0 := by
  induction n with
  | zero => rfl
  | succ n ih =>
    rw [List.replicate_succ, ← List.singleton_append, digitsValue_append, ih]
    simp [digitsValue, digitValue]

theorem digitsValue_dropWhile_isZero (t : Text) :
    digitsValue (t.dropWhile Significand.isZero) = digitsValue t := by
  have hzeros : t.takeWhile Significand.isZero =
      List.replicate (t.takeWhile Significand.isZero).length 0x30 := by
    rw [List.eq_replicate_iff]
    exact ⟨rfl, fun b hb => by simpa [Significand.isZero] using List.mem_takeWhile_imp hb⟩
  conv_rhs => rw [← List.takeWhile_append_dropWhile (p := Significand.isZero) (l := t)]
  rw [digitsValue_append, hzeros, digitsValue_zeros, Nat.zero_mul, Nat.zero_add]

end Text

namespace Significand

theorem digits_ofParts (whole fraction : Text) :
    (ofParts whole fraction).digits = (whole ++ fraction).dropWhile isZero := by
  rw [ofParts, List.dropWhile_append]
  by_cases hwhole : whole.dropWhile isZero = []
  · rw [if_pos hwhole, hwhole]
    rfl
  · rw [if_neg hwhole, if_neg (by simpa using hwhole)]

theorem point_ofParts (whole fraction : Text) :
    (ofParts whole fraction).point =
      ((ofParts whole fraction).digits.length : ℤ) - fraction.length := by
  have hsplit := congrArg List.length
    (List.takeWhile_append_dropWhile (p := isZero) (l := fraction))
  rw [List.length_append] at hsplit
  rw [ofParts]
  by_cases hwhole : whole.dropWhile isZero = []
  · rw [if_pos hwhole]
    dsimp only
    omega
  · rw [if_neg hwhole, List.length_append]
    dsimp only
    omega

theorem decimal_ofParts (whole fraction : Text) (negative : Bool) (power : ℤ) :
    (ofParts whole fraction).decimal negative power =
      ⟨negative, Text.digitsValue (whole ++ fraction), power - fraction.length⟩ := by
  rw [decimal, point_ofParts, digits_ofParts, Text.digitsValue_dropWhile_isZero]
  congr 1
  ring

/-- A significand of few digits is read with all of them. -/
theorem toFloat?_of_few {s : Significand} (h : s.digits.length ≤ fewDigits) (negative : Bool)
    (power : ℤ) : s.toFloat? negative power = (s.decimal negative power).toFloat? := by
  have htake : s.take fewDigits = s := by rw [take, List.take_of_length_le h]
  have hexceeds : s.exceeds fewDigits = false := by
    rw [exceeds, List.drop_eq_nil_of_le h, List.any_nil]
  have hsettled : s.isSettled power = true := by
    rw [isSettled, hexceeds, Bool.not_false, Bool.true_or]
  rw [toFloat?, if_pos hsettled, htake]

end Significand

namespace Literal

/-- The digits of a small exponent are all of account. -/
theorem exponentValue_eq {ds : Text} (h : Text.digitsValue ds < 10000) :
    Parts.exponentValue ds = Text.digitsValue ds := by
  have hgrows (ds : Text) (n : ℕ) :
      n ≤ ds.foldl (fun n b => 10 * n + Text.digitValue b) n := by
    induction ds generalizing n with
    | nil => exact le_refl n
    | cons b ds ih =>
      have hstep : n ≤ 10 * n + Text.digitValue b := by omega
      exact hstep.trans (ih _)
  have hfold (ds : Text) (n : ℕ)
      (h : ds.foldl (fun n b => 10 * n + Text.digitValue b) n < 10000) :
      ds.foldl (fun n b => if n < 10000 then 10 * n + Text.digitValue b else n) n =
        ds.foldl (fun n b => 10 * n + Text.digitValue b) n := by
    induction ds generalizing n with
    | nil => rfl
    | cons b ds ih =>
      have hn : n < 10000 := lt_of_le_of_lt (hgrows (b :: ds) n) h
      rw [List.foldl_cons, List.foldl_cons, if_pos hn]
      exact ih _ h
  exact hfold ds 0 h

namespace Parts

/-- A mark, a sign and digits, or nothing. -/
def IsExponent (t : Text) : Prop :=
  t = [] ∨ ∃ s ds, (s = Text.plus ∨ s = Text.minus) ∧ ds ≠ [] ∧
    (∀ b ∈ ds, Text.isDigit b = true) ∧ t = 0x65 :: s :: ds

/-- Parts as they are written for a value: digits before the point, and an exponent with its
sign. -/
structure IsWritten (p : Parts) : Prop where
  sign : p.sign = [] ∨ p.sign = [Text.minus]
  whole_ne_nil : p.whole ≠ []
  whole : ∀ b ∈ p.whole, Text.isDigit b = true
  fraction : IsFraction p.fraction
  exponent : IsExponent p.exponent

variable {p : Parts}

theorem IsWritten.mantissa_ne_nil (h : p.IsWritten) : p.mantissa ≠ [] :=
  List.append_ne_nil_of_left_ne_nil h.whole_ne_nil _

theorem IsWritten.isNumeral (h : p.IsWritten) : p.IsNumeral where
  sign := h.sign.imp_right Or.inr
  whole := h.whole
  fraction := h.fraction
  mantissa := h.mantissa_ne_nil
  exponent := by
    rcases h.exponent with hnone | ⟨s, ds, hs, hne, hds, hexponent⟩
    · exact Or.inl hnone
    · have hsign : IsSign [s] := by
        rcases hs with rfl | rfl
        · exact Or.inr (Or.inl rfl)
        · exact Or.inr (Or.inr rfl)
      exact Or.inr ⟨0x65, [s], ds, rfl, hsign, hne, hds, hexponent⟩

/-- The parts spell a number: they are written in full, with few digits, and have its value. -/
structure Spells (p : Parts) (d : Decimal) : Prop extends p.IsWritten where
  few : (p.mantissa.dropWhile Significand.isZero).length ≤ Significand.fewDigits
  value : (Text.digitsValue p.mantissa : ℚ) * 10 ^ (p.power - (p.fraction.drop 1).length) =
    d.digits * 10 ^ d.exponent

/-- A number that is spelt with few digits is read as the float nearest to it. -/
theorem Spells.float {d : Decimal} (h : p.Spells d) (hbits : d.magnitude.bits < infinityBits) :
    float p.text = .ok ⟨floatOfBits p.isNegative d.magnitude.bits, p.text.length⟩ := by
  have hfew : p.significand.digits.length ≤ Significand.fewDigits := by
    rw [significand, Significand.digits_ofParts]
    exact h.few
  have hdecimal : p.significand.decimal p.isNegative p.power =
      ⟨p.isNegative, Text.digitsValue p.mantissa, p.power - (p.fraction.drop 1).length⟩ :=
    Significand.decimal_ofParts ..
  have hvalue : (p.significand.decimal p.isNegative p.power).magnitude.bits = d.magnitude.bits := by
    rw [hdecimal]
    exact Decimal.bits_magnitude_congr h.value
  have hread : p.toFloat? = some (floatOfBits p.isNegative d.magnitude.bits) := by
    rw [toFloat?, Significand.toFloat?_of_few hfew, Decimal.toFloat?, hvalue, if_pos hbits]
    rfl
  have hfloat := float_append_of_ends h.isNumeral hread ends_nil
  rwa [List.append_nil] at hfloat

end Parts

end Literal

end LineScript
