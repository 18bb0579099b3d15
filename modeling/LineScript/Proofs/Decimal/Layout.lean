import LineScript.Proofs.Decimal.Reading
import Mathlib

/-! How floats are written, and that they are read back. In each layout the digits before and behind
the point are those of the decimal, with zeros added at one end, and the exponent part makes up for
the place of the point. -/

namespace LineScript

namespace FloatLayout

open Literal

theorem digitsValue_zeros_append (k n : ℕ) :
    Text.digitsValue (List.replicate k 0x30 ++ Text.ofNat n) = n := by
  rw [Text.digitsValue_append, Text.digitsValue_zeros, Nat.zero_mul, Nat.zero_add,
    Text.digitsValue_ofNat]

theorem isDigit_of_mem_zeros {n : ℕ} {b : UInt8} (h : b ∈ List.replicate n 0x30) :
    Text.isDigit b = true := by
  rw [(List.mem_replicate.1 h).2]
  decide

theorem isExponent_exponentPart {e : ℤ} (h : e.natAbs < 10000) :
    Parts.IsExponent (standard.exponentPart e) ∧
      ∀ sign whole fraction, Parts.power ⟨sign, whole, fraction, standard.exponentPart e⟩ = e := by
  obtain ⟨zeros, hzeros⟩ : ∃ zeros, zeros = standard.exponentWidth - (Text.ofNat e.natAbs).length :=
    ⟨_, rfl⟩
  have hdigits : ∀ b ∈ List.replicate zeros 0x30 ++ Text.ofNat e.natAbs, Text.isDigit b = true :=
    List.forall_mem_append.2 ⟨fun _ => isDigit_of_mem_zeros, fun _ => Text.isDigit_of_mem_ofNat⟩
  have hvalue :
      Parts.exponentValue (List.replicate zeros 0x30 ++ Text.ofNat e.natAbs) = e.natAbs := by
    have hds := digitsValue_zeros_append zeros e.natAbs
    rw [exponentValue_eq (hds.trans_lt h), hds]
  have hne : List.replicate zeros 0x30 ++ Text.ofNat e.natAbs ≠ [] :=
    List.append_ne_nil_of_right_ne_nil _ (Text.ofNat_ne_nil _)
  have hpart : standard.exponentPart e = 0x65 :: (if e < 0 then Text.minus else Text.plus) ::
      (List.replicate zeros 0x30 ++ Text.ofNat e.natAbs) := by
    simp only [exponentPart, ← hzeros, Text.cat, List.flatten_cons, List.flatten_nil,
      List.append_nil]
    split <;> rfl
  rw [hpart]
  refine ⟨Or.inr ⟨_, _, ?_, hne, hdigits, rfl⟩, fun sign whole fraction => ?_⟩
  · split
    · exact Or.inr rfl
    · exact Or.inl rfl
  · generalize List.replicate zeros 0x30 ++ Text.ofNat e.natAbs = ds at hvalue
    split
    · have hpower : Parts.power ⟨sign, whole, fraction, 0x65 :: Text.minus :: ds⟩ =
          -(Parts.exponentValue ds : ℤ) := rfl
      rw [hpower, hvalue]
      omega
    · have hpower : Parts.power ⟨sign, whole, fraction, 0x65 :: Text.plus :: ds⟩ =
          (Parts.exponentValue ds : ℤ) := rfl
      rw [hpower, hvalue]
      omega

/-- The digits before and behind the point, and the zeros that fill up the places before it. -/
theorem exists_pointed (n : ℕ) {places : ℕ} (h : 0 < places) : ∃ whole fraction : Text,
    pointed (Text.ofNat n) places = whole ++ fraction ∧ whole ≠ [] ∧
      (∀ b ∈ whole, Text.isDigit b = true) ∧ Parts.IsFraction fraction ∧
      whole ++ fraction.drop 1 =
        Text.ofNat n ++ List.replicate (places - (Text.ofNat n).length) 0x30 ∧
      (fraction.drop 1).length = (Text.ofNat n).length - places := by
  have hdigits : ∀ b ∈ Text.ofNat n, Text.isDigit b = true := fun _ => Text.isDigit_of_mem_ofNat
  have hne := Text.ofNat_ne_nil n
  generalize Text.ofNat n = digits at hdigits hne ⊢
  rw [pointed]
  split_ifs with hlength
  · refine ⟨_, [], (List.append_nil _).symm, List.append_ne_nil_of_left_ne_nil hne _, ?_,
      Or.inl rfl, ?_, ?_⟩
    · exact List.forall_mem_append.2 ⟨hdigits, fun _ => isDigit_of_mem_zeros⟩
    · rw [List.drop_nil, List.append_nil]
    · rw [List.drop_nil, Nat.sub_eq_zero_of_le hlength]
      rfl
  · refine ⟨digits.take places, Text.dot :: digits.drop places, ?_, ?_, ?_, ?_, ?_, ?_⟩
    · simp only [Text.cat, List.flatten_cons, List.flatten_nil, List.append_nil]
      rfl
    · simpa using ⟨h.ne', hne⟩
    · exact fun b hb => hdigits b (List.mem_of_mem_take hb)
    · exact Or.inr ⟨_, fun b hb => hdigits b (List.mem_of_mem_drop hb), rfl⟩
    · have hzeros : places - digits.length = 0 := by omega
      rw [hzeros, List.drop_one, List.tail_cons, List.take_append_drop]
      simp
    · rw [List.drop_one, List.tail_cons, List.length_drop]

/-- Digits with a point among them spell a decimal if the exponent part says how far the point has
been moved. -/
theorem exists_spells_pointed {d : Decimal} (hdigits : d.digits < 10 ^ 18) {places : ℕ}
    (hpos : 0 < places) (hplaces : places ≤ Significand.fewDigits) {exponent : Text}
    (hexponent : Parts.IsExponent exponent)
    (hpower : ∀ sign whole fraction, Parts.power ⟨sign, whole, fraction, exponent⟩ =
      d.exponent + (Text.ofNat d.digits).length - places) :
    ∃ p : Parts, p.sign = [] ∧ p.Spells d ∧
      p.text = pointed (Text.ofNat d.digits) places ++ exponent := by
  obtain ⟨whole, fraction, htext, hne, hwhole, hfraction, hmantissa, hlength⟩ :=
    exists_pointed d.digits hpos
  have hcount : (Text.ofNat d.digits).length ≤ 18 :=
    (Text.length_ofNat_le_iff (by decide)).2 hdigits
  have hvalue : Text.digitsValue (Text.ofNat d.digits ++
      List.replicate (places - (Text.ofNat d.digits).length) 0x30) =
        d.digits * 10 ^ (places - (Text.ofNat d.digits).length) := by
    rw [Text.digitsValue_append, Text.digitsValue_zeros, Text.digitsValue_ofNat,
      List.length_replicate, Nat.add_zero]
  refine ⟨⟨[], whole, fraction, exponent⟩, rfl,
    ⟨⟨Or.inl rfl, hne, hwhole, hfraction, hexponent⟩, ?_, ?_⟩, ?_⟩
  · have hall : (Text.ofNat d.digits ++
        List.replicate (places - (Text.ofNat d.digits).length) 0x30).length ≤
          Significand.fewDigits := by
      rw [List.length_append, List.length_replicate]
      simp only [Significand.fewDigits] at hplaces ⊢
      omega
    rw [Parts.mantissa, hmantissa]
    exact (List.dropWhile_suffix _).length_le.trans hall
  · -- the places that the point has moved by are the difference of the two
    have hmoved : d.exponent = ((places - (Text.ofNat d.digits).length : ℕ) : ℤ) +
        (d.exponent + (Text.ofNat d.digits).length - places -
          ((Text.ofNat d.digits).length - places : ℕ)) := by omega
    rw [Parts.mantissa, hmantissa, hvalue, hpower, hlength]
    conv_rhs => rw [hmoved, zpow_add₀ (by norm_num), zpow_natCast]
    push_cast
    ring
  · rw [Parts.text_eq, htext, List.append_assoc]
    rfl

/-- A decimal below one, with the zeros behind the point. -/
theorem exists_spells_small {d : Decimal} (hdigits : d.digits < 10 ^ 18) {zeros : ℕ}
    (hzeros : d.exponent = -((zeros + (Text.ofNat d.digits).length : ℕ) : ℤ)) :
    ∃ p : Parts, p.sign = [] ∧ p.Spells d ∧
      p.text = Text.cat ["0.", List.replicate zeros 0x30, Text.ofNat d.digits] := by
  have hcount : (Text.ofNat d.digits).length ≤ 18 :=
    (Text.length_ofNat_le_iff (by decide)).2 hdigits
  have hfraction : ∀ b ∈ List.replicate zeros 0x30 ++ Text.ofNat d.digits, Text.isDigit b = true :=
    List.forall_mem_append.2 ⟨fun _ => isDigit_of_mem_zeros, fun _ => Text.isDigit_of_mem_ofNat⟩
  have hmantissa : Parts.mantissa ⟨[], "0", Text.dot ::
      (List.replicate zeros 0x30 ++ Text.ofNat d.digits), []⟩ =
        List.replicate (zeros + 1) 0x30 ++ Text.ofNat d.digits := rfl
  have hzerone : ("0" : Text) ≠ [] := by decide
  have hzerodigit : ∀ b ∈ ("0" : Text), Text.isDigit b = true := List.all_eq_true.1 rfl
  refine ⟨⟨[], "0", Text.dot :: (List.replicate zeros 0x30 ++ Text.ofNat d.digits), []⟩, rfl,
    ⟨⟨Or.inl rfl, hzerone, hzerodigit, Or.inr ⟨_, hfraction, rfl⟩, Or.inl rfl⟩, ?_, ?_⟩, ?_⟩
  · have hzero : ∀ b ∈ List.replicate (zeros + 1) 0x30, Significand.isZero b = true := by
      intro b hb
      rw [(List.mem_replicate.1 hb).2]
      rfl
    rw [hmantissa, List.dropWhile_append_of_pos hzero]
    exact (List.dropWhile_suffix _).length_le.trans (hcount.trans (by decide))
  · have hpower : Parts.power ⟨[], "0", Text.dot ::
        (List.replicate zeros 0x30 ++ Text.ofNat d.digits), []⟩ = 0 := rfl
    rw [hmantissa, digitsValue_zeros_append, hpower, hzeros, List.drop_one, List.tail_cons,
      List.length_append, List.length_replicate, zero_sub]
  · rw [Parts.text_eq]
    simp only [Text.cat, List.flatten_cons, List.flatten_nil, List.append_nil]
    rfl

theorem exists_spells_unsigned {d : Decimal} {b : ℕ} (h : d.IsShort b) :
    ∃ p : Parts, p.sign = [] ∧ p.Spells d ∧ p.text = standard.unsigned d := by
  have hcount : (Text.ofNat d.digits).length ≤ 18 :=
    (Text.length_ofNat_le_iff (by decide)).2 h.digits_lt
  have hcountpos : 0 < (Text.ofNat d.digits).length :=
    List.length_pos_of_ne_nil (Text.ofNat_ne_nil _)
  have hlow := h.le_exponent
  have hhigh := h.exponent_le
  simp only [unsigned]
  split_ifs with hfar hwhole
  · -- one place before the point, and an exponent part
    have hsmall : (d.exponent + (Text.ofNat d.digits).length - 1).natAbs < 10000 := by omega
    obtain ⟨hexponent, hpower⟩ := isExponent_exponentPart hsmall
    exact exists_spells_pointed h.digits_lt Nat.one_pos (by decide) hexponent hpower
  · -- the point stands among the digits, or zeros fill up the places before it
    simp only [standard, not_or, not_lt, not_le] at hfar
    obtain ⟨places, hplaces⟩ : ∃ places : ℕ,
        places = (d.exponent + (Text.ofNat d.digits).length - 1).toNat + 1 := ⟨_, rfl⟩
    have hpos : 0 < places := by omega
    have hfew : places ≤ Significand.fewDigits := by
      simp only [Significand.fewDigits]
      omega
    have hpower : ∀ sign whole fraction, Parts.power ⟨sign, whole, fraction, []⟩ =
        d.exponent + (Text.ofNat d.digits).length - places := by
      intro sign whole fraction
      have hzero : Parts.power ⟨sign, whole, fraction, []⟩ = 0 := rfl
      omega
    have hspells := exists_spells_pointed h.digits_lt hpos hfew (Or.inl rfl) hpower
    rwa [List.append_nil, hplaces] at hspells
  · exact exists_spells_small h.digits_lt (by omega)

theorem spells_zero : Parts.Spells ⟨[], "0", [], []⟩ ⟨false, 0, 0⟩ where
  sign := Or.inl rfl
  whole_ne_nil := by decide
  whole := List.all_eq_true.1 rfl
  fraction := Or.inl rfl
  exponent := Or.inl rfl
  few := by decide
  value := by
    have hzero : Text.digitsValue (Parts.mantissa ⟨[], "0", [], []⟩) = 0 := rfl
    rw [hzero, Nat.cast_zero, zero_mul, zero_mul]

/-- The digits that are written for a finite bit pattern spell a number that has the bit pattern. -/
theorem exists_spells {magnitude : ℕ} (h : magnitude < infinityBits) :
    ∃ (p : Parts) (d : Decimal), p.sign = [] ∧ p.Spells d ∧ d.magnitude.bits = magnitude ∧
      p.text = if magnitude = 0 then ("0" : Text) else standard.unsigned (.shortest magnitude) := by
  split_ifs with hzero
  · exact ⟨_, _, rfl, spells_zero, hzero.symm, rfl⟩
  · have hshort := Decimal.isShort_shortest (Nat.pos_of_ne_zero hzero) h
    obtain ⟨p, hsign, hspells, htext⟩ := exists_spells_unsigned hshort
    exact ⟨p, _, hsign, hspells, hshort.bits, htext⟩

end FloatLayout

theorem Literal.Parts.Spells.negate {p : Literal.Parts} {d : Decimal} (h : p.Spells d) :
    ({ p with sign := [Text.minus] } : Literal.Parts).Spells d where
  sign := Or.inr rfl
  whole_ne_nil := h.whole_ne_nil
  whole := h.whole
  fraction := h.fraction
  exponent := h.exponent
  few := h.few
  value := h.value

/-- A finite float is made up again from its sign and its magnitude. -/
theorem floatOfBits_of_finite {f : Float} {negative : Bool} {magnitude : ℕ}
    (h : FloatClass.ofFloat f = .finite negative magnitude) :
    floatOfBits negative magnitude = f ∧ magnitude < infinityBits := by
  simp only [FloatClass.ofFloat] at h
  split_ifs at h with hnan hinfinite
  obtain ⟨rfl, rfl⟩ := FloatClass.finite.inj h
  refine ⟨?_, by omega⟩
  have hlt := f.toBits.toNat_lt
  have hbits : (if signBit ≤ f.toBits.toNat then signBit else 0) + f.toBits.toNat % signBit =
      f.toBits.toNat := by
    split_ifs with hsign
    all_goals
      simp only [signBit] at *
      omega
  simp only [floatOfBits, decide_eq_true_eq, hbits, UInt64.ofNat_toNat, Float.ofBits_toBits]

/-- A finite float is read back from its text, which is consumed completely. -/
theorem Literal.float_write {f : Float} {negative : Bool} {magnitude : ℕ}
    (h : FloatClass.ofFloat f = .finite negative magnitude) :
    Literal.float (FloatLayout.standard.write f) =
      .ok ⟨f, (FloatLayout.standard.write f).length⟩ := by
  obtain ⟨hf, hlt⟩ := floatOfBits_of_finite h
  obtain ⟨p, d, hsign, hspells, hbits, htext⟩ := FloatLayout.exists_spells hlt
  have hfinite : d.magnitude.bits < infinityBits := hbits ▸ hlt
  simp only [FloatLayout.write, h, ← htext]
  cases negative with
  | false =>
    have hread := hspells.float hfinite
    have hpositive : p.isNegative = false := by rw [Parts.isNegative, hsign]; rfl
    rwa [hpositive, hbits, hf] at hread
  | true =>
    have hminus : Text.minus :: p.text = ({ p with sign := [Text.minus] } : Parts).text := by
      rw [Parts.text_eq, Parts.text_eq, hsign]
      rfl
    have hread := hspells.negate.float hfinite
    have hnegative : ({ p with sign := [Text.minus] } : Parts).isNegative = true := rfl
    rw [hnegative, hbits, hf] at hread
    rw [if_pos rfl, hminus]
    exact hread

end LineScript
