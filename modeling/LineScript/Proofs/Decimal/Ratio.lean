import LineScript.Decimal.Shortest
import Mathlib.Algebra.Order.Field.Power
import Mathlib.Algebra.Order.Floor.Semifield
import Mathlib.Data.Int.Log
import Mathlib.Data.Rat.Floor
import Mathlib.Tactic.FieldSimp
import Mathlib.Tactic.Linarith
import Mathlib.Tactic.Positivity
import Mathlib.Tactic.Ring

/-! Fractions as rational numbers. Rounding, the two logarithms and the bit pattern of the nearest
binary64 number are functions of the rational number that a fraction stands for, so that fractions
may be cut and widened at will. -/

namespace LineScript

/-- The natural number nearest to a rational one, an exact half going to the even neighbour. -/
def nearestNat (x : ℚ) : ℕ :=
  let q := ⌊x⌋₊
  if x - q < 1 / 2 then q else if 1 / 2 < x - q then q + 1 else q + q % 2

theorem nearestNat_eq_or (x : ℚ) : nearestNat x = ⌊x⌋₊ ∨ nearestNat x = ⌊x⌋₊ + 1 := by
  simp only [nearestNat]
  split_ifs
  · exact Or.inl rfl
  · exact Or.inr rfl
  · rcases Nat.mod_two_eq_zero_or_one ⌊x⌋₊ with h | h
    · exact Or.inl (by rw [h, Nat.add_zero])
    · exact Or.inr (by rw [h])

theorem nearestNat_of_abs_lt {x : ℚ} {m : ℕ} (hx : 0 ≤ x) (h : |x - m| < 1 / 2) :
    nearestNat x = m := by
  obtain ⟨hlow, hhigh⟩ := abs_lt.1 h
  by_cases hm : (m : ℚ) ≤ x
  · have hfloor : ⌊x⌋₊ = m := (Nat.floor_eq_iff hx).2 ⟨hm, by linarith⟩
    rw [nearestNat, hfloor, if_pos (by linarith)]
  · -- the nearest number is the one above
    have hpos : m ≠ 0 := by
      rintro rfl
      exact hm (by simpa using hx)
    obtain ⟨k, rfl⟩ := Nat.exists_eq_succ_of_ne_zero hpos
    push_cast at hm hlow hhigh
    have hfloor : ⌊x⌋₊ = k := (Nat.floor_eq_iff hx).2 ⟨by linarith, by linarith⟩
    rw [nearestNat, hfloor, if_neg (by linarith), if_pos (by linarith)]

/-- A logarithm is the exponent whose power and the next one enclose the number. -/
theorem log_eq_iff {b : ℕ} (hb : 1 < b) {x : ℚ} (hx : 0 < x) {e : ℤ} :
    Int.log b x = e ↔ (b : ℚ) ^ e ≤ x ∧ x < (b : ℚ) ^ (e + 1) := by
  rw [Int.zpow_le_iff_le_log hb hx, Int.lt_zpow_iff_log_lt hb hx]
  omega

namespace Ratio

/-- The rational number that a fraction stands for. -/
def toRat (r : Ratio) : ℚ := r.num / r.den

variable {r : Ratio} {base : ℕ}

theorem toRat_pos (hnum : r.num ≠ 0) (hden : 0 < r.den) : 0 < r.toRat := by
  have hpos : 0 < r.num := Nat.pos_of_ne_zero hnum
  rw [toRat]
  positivity

theorem toRat_scale (hbase : 0 < base) (r : Ratio) (e : ℤ) :
    (r.scale base e).toRat = r.toRat * (base : ℚ) ^ e := by
  have hne : (base : ℚ) ≠ 0 := by positivity
  unfold scale
  split_ifs with he
  · obtain ⟨k, rfl⟩ := Int.eq_ofNat_of_zero_le he
    rw [toRat, toRat, Int.toNat_natCast, zpow_natCast, Nat.pow_eq]
    push_cast
    ring
  · obtain ⟨k, rfl⟩ : ∃ k : ℕ, e = -k := ⟨(-e).toNat, by omega⟩
    rw [toRat, toRat, neg_neg, Int.toNat_natCast, zpow_neg, zpow_natCast, Nat.pow_eq]
    push_cast
    rw [div_mul_eq_div_div, div_eq_mul_inv]

theorem den_scale_pos (hbase : 0 < base) (hden : 0 < r.den) (e : ℤ) : 0 < (r.scale base e).den := by
  unfold scale
  split_ifs
  · exact hden
  · exact Nat.mul_pos hden (Nat.pow_pos hbase)

theorem num_scale_ne_zero (hbase : 0 < base) (hnum : r.num ≠ 0) (e : ℤ) :
    (r.scale base e).num ≠ 0 := by
  unfold scale
  split_ifs
  · exact Nat.mul_ne_zero hnum (Nat.pow_pos hbase).ne'
  · exact hnum

theorem div_eq_floor (r : Ratio) : r.num / r.den = ⌊r.toRat⌋₊ :=
  (Nat.floor_div_eq_div r.num r.den).symm

theorem num_lt_den_iff (hden : 0 < r.den) : r.num < r.den ↔ r.toRat < 1 := by
  rw [toRat, div_lt_one (by positivity), Nat.cast_lt]

theorem round_eq (hden : 0 < r.den) : r.round = nearestNat r.toRat := by
  have hdenq : (0 : ℚ) < r.den := by positivity
  have hdivision : (r.num : ℚ) = r.den * (r.num / r.den : ℕ) + (r.num % r.den : ℕ) := by
    exact_mod_cast (Nat.div_add_mod r.num r.den).symm
  -- the remainder in units of the denominator is what exceeds the integer part
  have hrest : r.toRat - (r.num / r.den : ℕ) = (r.num % r.den : ℕ) / r.den := by
    rw [toRat, eq_div_iff hdenq.ne', sub_mul, div_mul_cancel₀ _ hdenq.ne', hdivision]
    ring
  have hlow : 2 * (r.num % r.den) < r.den ↔ r.toRat - (r.num / r.den : ℕ) < 1 / 2 := by
    rw [hrest, div_lt_div_iff₀ hdenq (by norm_num)]
    norm_cast
    omega
  have hhigh : r.den < 2 * (r.num % r.den) ↔ 1 / 2 < r.toRat - (r.num / r.den : ℕ) := by
    rw [hrest, div_lt_div_iff₀ (by norm_num) hdenq]
    norm_cast
    omega
  simp only [round, nearestNat, hlow, hhigh, ← div_eq_floor]

/-- The difference of the logarithms of the two parts is the logarithm, or one more. -/
theorem log2_bounds (hnum : r.num ≠ 0) (hden : 0 < r.den) {e : ℤ}
    (he : e = (r.num.log2 : ℤ) - (r.den.log2 : ℤ)) :
    (2 : ℚ) ^ (e - 1) < r.toRat ∧ r.toRat < (2 : ℚ) ^ (e + 1) := by
  have hdenq : (0 : ℚ) < r.den := by positivity
  have hnumlow : (2 : ℚ) ^ r.num.log2 ≤ r.num := by exact_mod_cast Nat.log2_self_le hnum
  have hnumhigh : (r.num : ℚ) < 2 ^ (r.num.log2 + 1) := by
    exact_mod_cast Nat.lt_log2_self (n := r.num)
  have hdenlow : (2 : ℚ) ^ r.den.log2 ≤ r.den := by exact_mod_cast Nat.log2_self_le hden.ne'
  have hdenhigh : (r.den : ℚ) < 2 ^ (r.den.log2 + 1) := by
    exact_mod_cast Nat.lt_log2_self (n := r.den)
  have hpower {a : ℤ} {k n : ℕ} (h : a + k = n) : (2 : ℚ) ^ a * 2 ^ k = 2 ^ n := by
    rw [← zpow_natCast, ← zpow_natCast, ← zpow_add₀ two_ne_zero, h]
  constructor
  · rw [toRat, lt_div_iff₀ hdenq]
    calc (2 : ℚ) ^ (e - 1) * r.den < 2 ^ (e - 1) * 2 ^ (r.den.log2 + 1) := by gcongr
      _ = 2 ^ r.num.log2 := hpower (by omega)
      _ ≤ r.num := hnumlow
  · rw [toRat, div_lt_iff₀ hdenq]
    calc (r.num : ℚ) < 2 ^ (r.num.log2 + 1) := hnumhigh
      _ = 2 ^ (e + 1) * 2 ^ r.den.log2 := (hpower (by omega)).symm
      _ ≤ 2 ^ (e + 1) * r.den := by gcongr

theorem log2_eq (hnum : r.num ≠ 0) (hden : 0 < r.den) : r.log2 = Int.log 2 r.toRat := by
  have hpos := toRat_pos hnum hden
  obtain ⟨e, he⟩ : ∃ e : ℤ, e = (r.num.log2 : ℤ) - (r.den.log2 : ℤ) := ⟨_, rfl⟩
  obtain ⟨hlow, hhigh⟩ := log2_bounds hnum hden he
  have hscale : (r.scale 2 (-e)).num < (r.scale 2 (-e)).den ↔ r.toRat < (2 : ℚ) ^ e := by
    have hpowpos : (0 : ℚ) < 2 ^ e := zpow_pos two_pos e
    rw [num_lt_den_iff (den_scale_pos two_pos hden _), toRat_scale two_pos, zpow_neg,
      ← div_eq_mul_inv, Nat.cast_ofNat, div_lt_one hpowpos]
  simp only [log2, ← he]
  split_ifs with hless
  · rw [eq_comm, log_eq_iff one_lt_two hpos, sub_add_cancel]
    exact ⟨hlow.le, hscale.1 hless⟩
  · rw [eq_comm, log_eq_iff one_lt_two hpos]
    exact ⟨not_lt.1 fun h => hless (hscale.2 h), hhigh⟩

theorem digitCount_le_iff {n k : ℕ} (hk : 0 < k) : digitCount n ≤ k ↔ n < 10 ^ k :=
  Nat.length_toDigits_le_iff (by decide) hk

theorem digitCount_bounds {n : ℕ} (hn : 0 < n) :
    ∃ k, digitCount n = k + 1 ∧ 10 ^ k ≤ n ∧ n < 10 ^ (k + 1) := by
  have hcount : 0 < digitCount n := Nat.length_toDigits_pos
  obtain ⟨k, hk⟩ := Nat.exists_eq_succ_of_ne_zero hcount.ne'
  have hhigh : n < 10 ^ (k + 1) := (digitCount_le_iff k.succ_pos).1 hk.le
  refine ⟨k, hk, ?_, hhigh⟩
  rcases Nat.eq_zero_or_pos k with rfl | hpos
  · exact hn
  · by_contra hless
    have hle := (digitCount_le_iff hpos).2 (not_le.1 hless)
    omega

theorem log10_eq (hnum : r.num ≠ 0) (hden : 0 < r.den) : r.log10 = Int.log 10 r.toRat := by
  have hpos := toRat_pos hnum hden
  have hnumpos : 0 < r.num := Nat.pos_of_ne_zero hnum
  have hdenq : (0 : ℚ) < r.den := by positivity
  rw [eq_comm, log_eq_iff (by decide) hpos, log10]
  split_ifs with hle
  · obtain ⟨k, hk, hlow, hhigh⟩ := digitCount_bounds (Nat.div_pos hle hden)
    have hexponent : (digitCount (r.num / r.den) : ℤ) - 1 = k := by omega
    rw [hexponent, toRat, le_div_iff₀ hdenq, div_lt_iff₀ hdenq]
    rw [Nat.le_div_iff_mul_le hden] at hlow
    rw [Nat.div_lt_iff_lt_mul hden] at hhigh
    exact ⟨by exact_mod_cast hlow, by exact_mod_cast hhigh⟩
  · have hquotient : 0 < (r.den - 1) / r.num := Nat.div_pos (by omega) hnumpos
    obtain ⟨k, hk, hlow, hhigh⟩ := digitCount_bounds hquotient
    rw [Nat.le_div_iff_mul_le hnumpos] at hlow
    rw [Nat.div_lt_iff_lt_mul hnumpos] at hhigh
    have hbelow : (10 : ℚ) ^ k * r.num < r.den := by
      exact_mod_cast (show 10 ^ k * r.num < r.den by omega)
    have habove : (r.den : ℚ) ≤ 10 ^ (k + 1) * r.num := by
      exact_mod_cast (show r.den ≤ 10 ^ (k + 1) * r.num by omega)
    have hexponent : -(digitCount ((r.den - 1) / r.num) : ℤ) + 1 = -(k : ℤ) := by omega
    have hexponent' : -(digitCount ((r.den - 1) / r.num) : ℤ) = -((k + 1 : ℕ) : ℤ) := by omega
    rw [hexponent, hexponent', zpow_neg, zpow_neg, zpow_natCast, zpow_natCast, toRat,
      le_div_iff₀ hdenq, div_lt_iff₀ hdenq, Nat.cast_ofNat, inv_mul_le_iff₀ (by positivity),
      lt_inv_mul_iff₀ (by positivity)]
    exact ⟨habove, hbelow⟩

theorem unit_eq (hnum : r.num ≠ 0) (hden : 0 < r.den) :
    r.unit = max (Int.log 2 r.toRat - 52) minUnit := by
  rw [unit, log2_eq hnum hden]

theorem bits_eq (hnum : r.num ≠ 0) (hden : 0 < r.den) :
    r.bits = (r.unit - minUnit).toNat * fractionSize +
      nearestNat (r.toRat * 2 ^ (-r.unit)) := by
  rw [bits, if_neg hnum, round_eq (den_scale_pos two_pos hden _), toRat_scale two_pos,
    Nat.cast_ofNat]

theorem num_eq_zero_iff (hden : 0 < r.den) : r.num = 0 ↔ r.toRat = 0 := by
  rw [toRat, div_eq_zero_iff, Nat.cast_eq_zero, Nat.cast_eq_zero, or_iff_left hden.ne']

/-- Fractions of one value have one bit pattern. -/
theorem bits_congr {s : Ratio} (hr : 0 < r.den) (hs : 0 < s.den) (h : r.toRat = s.toRat) :
    r.bits = s.bits := by
  have hnum : r.num = 0 ↔ s.num = 0 := by rw [num_eq_zero_iff hr, num_eq_zero_iff hs, h]
  by_cases hzero : r.num = 0
  · rw [bits, bits, if_pos hzero, if_pos (hnum.1 hzero)]
  · have hzero' : s.num ≠ 0 := fun hs => hzero (hnum.2 hs)
    rw [bits_eq hzero hr, bits_eq hzero' hs, unit_eq hzero hr, unit_eq hzero' hs, h]

/-- The bit pattern `b` stands for `m` units of `2 ^ u`. The unit is the least one that leaves room
for all of `m`, or the least one there is. -/
structure Units (b m : ℕ) (u : ℤ) : Prop where
  pos : 0 < m
  lt : m < 2 ^ 53
  minUnit_le : minUnit ≤ u
  normal : minUnit < u → 2 ^ 52 ≤ m
  bits : b = (u - minUnit).toNat * fractionSize + m

theorem exists_units {b : ℕ} (hpos : 0 < b) : ∃ m u, Units b m u ∧
    (ofBits b).num ≠ 0 ∧ 0 < (ofBits b).den ∧ (ofBits b).toRat = m * 2 ^ u := by
  have hdivision : fractionSize * (b / fractionSize) + b % fractionSize = b :=
    Nat.div_add_mod b fractionSize
  have hfraction : b % fractionSize < fractionSize := Nat.mod_lt b (by decide)
  have hscaled (m : ℕ) (u : ℤ) (hm : 0 < m) : ((⟨m, 1⟩ : Ratio).scale 2 u).num ≠ 0 ∧
      0 < ((⟨m, 1⟩ : Ratio).scale 2 u).den ∧
      ((⟨m, 1⟩ : Ratio).scale 2 u).toRat = m * 2 ^ u := by
    refine ⟨num_scale_ne_zero two_pos hm.ne' u, den_scale_pos two_pos Nat.one_pos u, ?_⟩
    rw [toRat_scale two_pos, toRat, Nat.cast_one, div_one, Nat.cast_ofNat]
  by_cases hfield : b / fractionSize = 0
  · have hm : b % fractionSize = b := by
      rw [hfield] at hdivision
      omega
    have hvalue : ofBits b = (⟨b, 1⟩ : Ratio).scale 2 minUnit := by
      rw [ofBits, if_pos hfield, hm]
    rw [hvalue]
    rw [hm] at hfraction
    simp only [fractionSize] at hfraction
    refine ⟨b, minUnit, ⟨hpos, by omega, le_refl _, fun h => absurd h (lt_irrefl _), ?_⟩,
      hscaled b minUnit hpos⟩
    rw [sub_self, Int.toNat_zero, Nat.zero_mul, Nat.zero_add]
  · have hvalue : ofBits b = (⟨fractionSize + b % fractionSize, 1⟩ : Ratio).scale 2
        (minUnit + (b / fractionSize : ℕ) - 1) := by
      rw [ofBits, if_neg hfield]
    rw [hvalue]
    refine ⟨_, _, ⟨?_, ?_, ?_, ?_, ?_⟩, hscaled _ _ ?_⟩
    all_goals simp only [fractionSize] at *
    all_goals omega

section Near
variable {b m : ℕ} {u : ℤ} {t : ℚ}

/-- The unit is at least `2 ^ k` times smaller than another one if the number has `k` binary digits
less than the 53 there is room for. -/
theorem unit_le_sub_iff (hnum : r.num ≠ 0) (hden : 0 < r.den) (ht : r.toRat = t * 2 ^ u) {k : ℕ}
    (hk : k ≤ 53) : r.unit ≤ u - k ↔ t < 2 ^ (53 - k) ∧ minUnit ≤ u - k := by
  have hpower : (0 : ℚ) < 2 ^ u := zpow_pos two_pos u
  have hbound : ((2 : ℕ) : ℚ) ^ (u - k + 53) = 2 ^ (53 - k) * 2 ^ u := by
    rw [Nat.cast_ofNat, ← zpow_natCast, ← zpow_add₀ two_ne_zero]
    congr 1
    omega
  have hlog : t < 2 ^ (53 - k) ↔ Int.log 2 r.toRat < u - k + 53 := by
    rw [← Int.lt_zpow_iff_log_lt one_lt_two (toRat_pos hnum hden), hbound, ht,
      mul_lt_mul_iff_left₀ hpower]
  rw [unit_eq hnum hden, max_le_iff, hlog]
  exact and_congr_left fun _ => ⟨by omega, by omega⟩

/-- In the unit of the pattern, the number of units is the nearest one. -/
theorem bits_of_unit_eq (units : Units b m u) (hden : 0 < r.den) (ht : r.toRat = t * 2 ^ u)
    (hpos : 0 < t) (hnum : r.num ≠ 0) (hunit : r.unit = u) (hclose : |t - m| < 1 / 2) :
    r.bits = b := by
  have hpower : (0 : ℚ) < 2 ^ u := zpow_pos two_pos u
  rw [bits_eq hnum hden, hunit, ht, zpow_neg, mul_inv_cancel_right₀ hpower.ne',
    nearestNat_of_abs_lt hpos.le hclose]
  exact units.bits.symm

/-- Just below a power of two the unit is half as large, and twice as many units are the nearest. -/
theorem bits_of_unit_eq_pred (units : Units b (2 ^ 52) u) (hden : 0 < r.den)
    (ht : r.toRat = t * 2 ^ u) (hpos : 0 < t) (hnum : r.num ≠ 0) (hless : minUnit < u)
    (hunit : r.unit = u - 1) (hclose : |t - 2 ^ 52| < 1 / 4) : r.bits = b := by
  have hdouble : r.toRat * 2 ^ (-r.unit) = 2 * t := by
    rw [hunit, ht, neg_sub, zpow_sub₀ two_ne_zero, zpow_one]
    field_simp
  have hnearest : nearestNat (2 * t) = 2 ^ 53 := by
    have htwice : 2 * t - ((2 ^ 53 : ℕ) : ℚ) = 2 * (t - 2 ^ 52) := by
      push_cast
      ring
    apply nearestNat_of_abs_lt (by positivity)
    rw [htwice, abs_mul, abs_two]
    linarith
  have hbits := units.bits
  rw [bits_eq hnum hden, hdouble, hnearest, hunit, hbits]
  simp only [fractionSize]
  omega

/-- Less than half a unit below a number with a full significand is a power of two at most. -/
theorem eq_of_units_of_lt (units : Units b m u) (hmin : minUnit < u) (hclose : |t - m| < 1 / 2)
    (hless : t < 2 ^ 52) : m = 2 ^ 52 := by
  have hnormal : 2 ^ 52 ≤ m := units.normal hmin
  have hhigh := (abs_lt.1 hclose).1
  have hmq : (m : ℚ) < ((2 ^ 52 + 1 : ℕ) : ℚ) := by
    push_cast
    linarith
  have hmn : m < 2 ^ 52 + 1 := by exact_mod_cast hmq
  omega

/-- A fraction close to a binary64 number has its bit pattern. -/
theorem bits_of_near (units : Units b m u) (hden : 0 < r.den)
    (hnear : |r.toRat - m * 2 ^ u| * (2 * 10 ^ 16) ≤ m * 2 ^ u) : r.bits = b := by
  have hpower : (0 : ℚ) < 2 ^ u := zpow_pos two_pos u
  obtain ⟨t, ht⟩ : ∃ t : ℚ, r.toRat = t * 2 ^ u := ⟨r.toRat / 2 ^ u, by field_simp⟩
  have hrelative : |t - m| * (2 * 10 ^ 16) ≤ m := by
    rw [ht, ← sub_mul, abs_mul, abs_of_pos hpower, mul_right_comm] at hnear
    exact le_of_mul_le_mul_right hnear hpower
  have hm : (1 : ℚ) ≤ m := by exact_mod_cast units.pos
  have hmlt : (m : ℚ) + 1 ≤ 2 ^ 53 := by exact_mod_cast units.lt
  have hclose : |t - m| < 1 / 2 := by linarith
  obtain ⟨hlow, hhigh⟩ := abs_lt.1 hclose
  have hpos : 0 < t := by linarith
  have hx : 0 < r.toRat := by
    rw [ht]
    positivity
  have hnum : r.num ≠ 0 := by
    rw [ne_eq, num_eq_zero_iff hden]
    exact hx.ne'
  have hle : r.unit ≤ u := by
    have hsame := (unit_le_sub_iff hnum hden ht (Nat.zero_le 53)).2
    rw [Nat.cast_zero, sub_zero, Nat.sub_zero] at hsame
    exact hsame ⟨by linarith, units.minUnit_le⟩
  have hpred := unit_le_sub_iff hnum hden ht (k := 1) (by decide)
  rw [Nat.cast_one] at hpred
  by_cases hless : t < 2 ^ (53 - 1) ∧ minUnit ≤ u - 1
  · have hmin : minUnit < u := by omega
    obtain rfl := eq_of_units_of_lt units hmin hclose hless.1
    push_cast at hrelative hlow
    have hunit : r.unit = u - 1 := by
      refine le_antisymm (hpred.2 hless) (not_lt.1 fun hsmaller => ?_)
      have hquarter : t < 2 ^ 51 :=
        ((unit_le_sub_iff hnum hden ht (k := 2) (by decide)).1 (by push_cast; omega)).1
      linarith
    exact bits_of_unit_eq_pred units hden ht hpos hnum hmin hunit (by linarith)
  · have hunit : r.unit = u := by
      rw [← hpred] at hless
      omega
    exact bits_of_unit_eq units hden ht hpos hnum hunit hclose

end Near

end Ratio

end LineScript
