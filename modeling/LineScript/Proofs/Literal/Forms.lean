import LineScript.Proofs.Decimal.Grammar
import Mathlib.Computability.RegularExpressions

/-! The forms of number literals as regular expressions. An integer is a sign or none and digits; a
number has digits with at most one point among them and an exponent or none. A reader is judged by
the longest front part of a text that has its form. -/

namespace LineScript

/-- A front part of a text that has a form, and none that has it is longer. -/
structure Text.IsLongest (t : Text) (form : RegularExpression UInt8) (p : Text) : Prop where
  front : p <+: t
  matching : p ∈ form.matches'
  longest : ∀ q, q <+: t → q ∈ form.matches' → q.length ≤ p.length

theorem Text.IsLongest.eq {t p q : Text} {form : RegularExpression UInt8}
    (hp : t.IsLongest form p) (hq : t.IsLongest form q) : p = q := by
  have hle := hq.longest p hp.front hp.matching
  have hge := hp.longest q hq.front hq.matching
  exact (List.prefix_of_prefix_length_le hp.front hq.front hle).eq_of_length (by omega)

namespace Literal

/-- A literal is refused with a message. -/
def FailsWith {α : Type} (r : Except LiteralError (Literal α)) (message : Text) : Prop :=
  ∃ e, r = .error e ∧ e.message = message

theorem failsWith_message_iff {α : Type} {r : Except LiteralError (Literal α)} {e : LiteralError} :
    FailsWith r e.message ↔ r = .error e := by
  constructor
  · rintro ⟨e', rfl, hmessage⟩
    have hdistinct : ∀ e e' : LiteralError, e'.message = e.message → e' = e := by
      rintro (_ | _ | _) (_ | _ | _) <;> decide
    rw [hdistinct e e' hmessage]
  · rintro rfl
    exact ⟨e, rfl, rfl⟩

end Literal

namespace Form
open RegularExpression

/-- One of the given bytes. -/
def oneOf (bs : Text) : RegularExpression UInt8 := (bs.map char).sum

/-- A form or nothing. -/
def optional (form : RegularExpression UInt8) : RegularExpression UInt8 := 1 + form

def sign : RegularExpression UInt8 := optional (oneOf "+-")

def digit : RegularExpression UInt8 := oneOf "0123456789"

/-- One digit or more. -/
def digits : RegularExpression UInt8 := digit * star digit

def integer : RegularExpression UInt8 := sign * digits

/-- Digits with at most one point among them. -/
def mantissa : RegularExpression UInt8 :=
  digits * optional (char Text.dot * star digit) + char Text.dot * digits

def number : RegularExpression UInt8 := sign * (mantissa * optional (oneOf "eE" * integer))

variable {form : RegularExpression UInt8} {t : Text}

theorem mem_oneOf {bs : Text} : t ∈ (oneOf bs).matches' ↔ ∃ b ∈ bs, t = [b] := by
  induction bs with
  | nil => exact iff_of_false (Language.notMem_zero t) (by simp)
  | cons b bs ih =>
    rw [oneOf, List.map_cons, List.sum_cons, matches'_add, Language.mem_add, ← oneOf, ih,
      matches'_char, List.exists_mem_cons_iff]
    rfl

theorem mem_optional : t ∈ (optional form).matches' ↔ t = [] ∨ t ∈ form.matches' := by
  rw [optional, matches'_add, matches'_epsilon, Language.mem_add, Language.mem_one]

theorem mem_char_mul {b : UInt8} :
    t ∈ (char b * form).matches' ↔ ∃ rest ∈ form.matches', t = b :: rest := by
  rw [matches'_mul, matches'_char, Language.mem_mul]
  constructor
  · rintro ⟨-, rfl, rest, hrest, rfl⟩
    exact ⟨rest, hrest, rfl⟩
  · rintro ⟨rest, hrest, rfl⟩
    exact ⟨[b], rfl, rest, hrest, rfl⟩

theorem mem_sign : t ∈ sign.matches' ↔ Literal.IsSign t := by
  have hbytes : ("+-" : Text) = [Text.plus, Text.minus] := by decide
  rw [sign, mem_optional, mem_oneOf, hbytes, Literal.IsSign]
  simp only [List.exists_mem_cons_iff, List.not_mem_nil, false_and, exists_false, or_false]

theorem mem_digit : t ∈ digit.matches' ↔ ∃ b, Text.isDigit b = true ∧ t = [b] := by
  have hbytes (b : UInt8) : b ∈ ("0123456789" : Text) ↔ Text.isDigit b = true := by
    have hlist : ("0123456789" : Text) = [48, 49, 50, 51, 52, 53, 54, 55, 56, 57] := by decide
    simp only [hlist, List.mem_cons, List.not_mem_nil, or_false, Text.isDigit, Bool.and_eq_true,
      decide_eq_true_eq, ← UInt8.toNat_inj, UInt8.le_iff_toNat_le, UInt8.reduceToNat]
    omega
  simp only [digit, mem_oneOf, hbytes]

theorem mem_star_digit : t ∈ (star digit).matches' ↔ ∀ b ∈ t, Text.isDigit b = true := by
  rw [matches'_star, Language.mem_kstar]
  constructor
  · rintro ⟨pieces, rfl, hpieces⟩
    refine List.forall_mem_flatten.2 fun piece hpiece b hb => ?_
    obtain ⟨d, hd, rfl⟩ := mem_digit.1 (hpieces piece hpiece)
    rwa [List.mem_singleton.1 hb]
  · intro ht
    refine ⟨t.map ([·]), (List.flatMap_singleton' t).symm, fun piece hpiece => ?_⟩
    obtain ⟨b, hb, rfl⟩ := List.mem_map.1 hpiece
    exact mem_digit.2 ⟨b, ht b hb, rfl⟩

theorem mem_digits :
    t ∈ digits.matches' ↔ t ≠ [] ∧ ∀ b ∈ t, Text.isDigit b = true := by
  rw [digits, matches'_mul, Language.mem_mul]
  constructor
  · rintro ⟨first, hfirst, rest, hrest, rfl⟩
    obtain ⟨b, hb, rfl⟩ := mem_digit.1 hfirst
    exact ⟨List.cons_ne_nil b rest, List.forall_mem_cons.2 ⟨hb, mem_star_digit.1 hrest⟩⟩
  · rintro ⟨hne, ht⟩
    obtain ⟨b, rest, rfl⟩ := List.exists_cons_of_ne_nil hne
    obtain ⟨hb, hrest⟩ := List.forall_mem_cons.1 ht
    exact ⟨[b], mem_digit.2 ⟨b, hb, rfl⟩, rest, mem_star_digit.2 hrest, rfl⟩

theorem mem_integer : t ∈ integer.matches' ↔
    ∃ s ds, Literal.IsSign s ∧ ds ≠ [] ∧ (∀ b ∈ ds, Text.isDigit b = true) ∧ t = s ++ ds := by
  rw [integer, matches'_mul, Language.mem_mul]
  constructor
  · rintro ⟨s, hs, ds, hds, rfl⟩
    obtain ⟨hne, hdigits⟩ := mem_digits.1 hds
    exact ⟨s, ds, mem_sign.1 hs, hne, hdigits, rfl⟩
  · rintro ⟨s, ds, hs, hne, hdigits, rfl⟩
    exact ⟨s, mem_sign.2 hs, ds, mem_digits.2 ⟨hne, hdigits⟩, rfl⟩

theorem mem_fraction :
    t ∈ (optional (char Text.dot * star digit)).matches' ↔ Literal.Parts.IsFraction t := by
  simp only [mem_optional, mem_char_mul, mem_star_digit, Literal.Parts.IsFraction]

theorem mem_mantissa : t ∈ mantissa.matches' ↔ ∃ whole fraction,
    (∀ b ∈ whole, Text.isDigit b = true) ∧ Literal.Parts.IsFraction fraction ∧
      whole ++ fraction.drop 1 ≠ [] ∧ t = whole ++ fraction := by
  rw [mantissa, matches'_add, Language.mem_add, matches'_mul, Language.mem_mul, mem_char_mul]
  simp only [mem_digits, mem_fraction]
  constructor
  · rintro (⟨whole, ⟨hne, hwhole⟩, fraction, hfraction, rfl⟩ | ⟨ds, ⟨hne, hds⟩, rfl⟩)
    · exact ⟨whole, fraction, hwhole, hfraction, List.append_ne_nil_of_left_ne_nil hne _, rfl⟩
    · exact ⟨[], Text.dot :: ds, List.forall_mem_nil _, Or.inr ⟨ds, hds, rfl⟩, hne, rfl⟩
  · rintro ⟨whole, fraction, hwhole, hfraction, hne, rfl⟩
    by_cases hnone : whole = []
    · -- without digits before the point there are some behind it
      subst hnone
      rcases hfraction with rfl | ⟨ds, hds, rfl⟩
      · exact absurd rfl hne
      · exact Or.inr ⟨ds, ⟨hne, hds⟩, rfl⟩
    · exact Or.inl ⟨whole, ⟨hnone, hwhole⟩, fraction, hfraction, rfl⟩

theorem mem_power :
    t ∈ (optional (oneOf "eE" * integer)).matches' ↔ Literal.Parts.IsPower t := by
  have hmark (b : UInt8) : b ∈ ("eE" : Text) ↔ Literal.isMark b = true := by
    have hbytes : ("eE" : Text) = [0x65, 0x45] := by decide
    simp [hbytes, Literal.isMark]
  rw [mem_optional, matches'_mul, Language.mem_mul, Literal.Parts.IsPower]
  refine or_congr_right ⟨?_, ?_⟩
  · rintro ⟨m, hm, rest, hrest, rfl⟩
    obtain ⟨mark, hmem, rfl⟩ := mem_oneOf.1 hm
    obtain ⟨s, ds, hs, hne, hds, rfl⟩ := mem_integer.1 hrest
    exact ⟨mark, s, ds, (hmark mark).1 hmem, hs, hne, hds, rfl⟩
  · rintro ⟨mark, s, ds, hmem, hs, hne, hds, rfl⟩
    exact ⟨[mark], mem_oneOf.2 ⟨mark, (hmark mark).2 hmem, rfl⟩, s ++ ds,
      mem_integer.2 ⟨s, ds, hs, hne, hds, rfl⟩, rfl⟩

theorem mem_number : t ∈ number.matches' ↔ ∃ p : Literal.Parts, p.IsNumeral ∧ p.text = t := by
  rw [number, matches'_mul, Language.mem_mul, matches'_mul]
  simp only [Language.mem_mul, mem_sign, mem_mantissa, mem_power]
  constructor
  · rintro ⟨s, hs, -, ⟨-, ⟨whole, fraction, hwhole, hfraction, hne, rfl⟩, e, he, rfl⟩, rfl⟩
    exact ⟨⟨s, whole, fraction, e⟩, ⟨hs, hwhole, hfraction, hne, he⟩,
      by simp [Literal.Parts.text_eq]⟩
  · rintro ⟨p, hp, rfl⟩
    refine ⟨p.sign, hp.sign, _, ⟨_, ⟨p.whole, p.fraction, hp.whole, hp.fraction, hp.mantissa, rfl⟩,
      p.exponent, hp.exponent, rfl⟩, ?_⟩
    rw [Literal.Parts.text_eq, List.append_assoc]

end Form

end LineScript
