import LineScript.Proofs.Decimal.Ratio

/-! The shortest decimal of a binary64 number. Every candidate that is taken has the bit pattern of
the number. With seventeen digits the nearer neighbour on the grid is taken if none was before: it
is closer to the number than any point where the bit pattern changes. -/

namespace LineScript

theorem abs_nearestNat_sub_le {x : ℚ} (hx : 0 ≤ x) : |(nearestNat x : ℚ) - x| ≤ 1 / 2 := by
  have hfloor := Nat.floor_le hx
  have hceil := Nat.lt_floor_add_one x
  rw [abs_le]
  simp only [nearestNat]
  split_ifs with hlow hhigh
  · constructor <;> linarith
  · push_cast
    constructor <;> linarith
  · -- an exact half is as far from both neighbours
    rcases Nat.mod_two_eq_zero_or_one ⌊x⌋₊ with h | h
    all_goals
      rw [h]
      push_cast
      constructor <;> linarith

namespace Decimal

theorem den_magnitude_pos (d : Decimal) : 0 < d.magnitude.den :=
  Ratio.den_scale_pos (by decide) Nat.one_pos _

theorem toRat_magnitude (d : Decimal) : d.magnitude.toRat = d.digits * 10 ^ d.exponent := by
  rw [magnitude, Ratio.toRat_scale (by decide), Ratio.toRat, Nat.cast_one, div_one, Nat.cast_ofNat]

theorem bits_magnitude_congr {d d' : Decimal}
    (h : (d.digits : ℚ) * 10 ^ d.exponent = d'.digits * 10 ^ d'.exponent) :
    d.magnitude.bits = d'.magnitude.bits := by
  apply Ratio.bits_congr d.den_magnitude_pos d'.den_magnitude_pos
  rw [toRat_magnitude, toRat_magnitude, h]

/-- Dropping zeros divides the digits by a power of ten and raises the exponent by as much. -/
theorem exists_dropZeros (fuel : ℕ) (d : Decimal) : ∃ n ≤ fuel, ∃ digits,
    d.dropZeros fuel = ⟨d.negative, digits, d.exponent + n⟩ ∧ digits * 10 ^ n = d.digits := by
  induction fuel generalizing d with
  | zero => exact ⟨0, le_refl 0, d.digits, by simp [dropZeros], by simp⟩
  | succ fuel ih =>
    rw [dropZeros]
    split_ifs with hzero
    · obtain ⟨n, hn, digits, hdrop, hdigits⟩ := ih ⟨d.negative, d.digits / 10, d.exponent + 1⟩
      refine ⟨n + 1, Nat.succ_le_succ hn, digits, ?_, ?_⟩
      · rw [hdrop]
        push_cast
        rw [add_assoc, add_comm 1 (n : ℤ)]
      · rw [pow_succ, ← mul_assoc, hdigits]
        exact Nat.div_mul_cancel (Nat.dvd_of_mod_eq_zero hzero)
    · exact ⟨0, Nat.zero_le _, d.digits, by simp, by simp⟩

end Decimal

namespace Ratio

variable {r : Ratio} {b count : ℕ} {d : Decimal}

/-- The decimal of so many units of the grid on which `count` digits of a fraction lie. -/
def gridPoint (r : Ratio) (count n : ℕ) : Decimal := ⟨false, n, r.log10 - (count - 1 : ℕ)⟩

/-- The fraction in units of the grid on which `count` of its digits lie. -/
def onGrid (r : Ratio) (count : ℕ) : ℚ := r.toRat * 10 ^ (-(r.log10 - (count - 1 : ℕ)))

theorem onGrid?_eq (hden : 0 < r.den) (b count : ℕ) :
    r.onGrid? b count =
      let q := ⌊r.onGrid count⌋₊
      match decide ((r.gridPoint count q).magnitude.bits = b),
        decide ((r.gridPoint count (q + 1)).magnitude.bits = b) with
      | true, true => some (r.gridPoint count (nearestNat (r.onGrid count)))
      | true, false => some (r.gridPoint count q)
      | false, true => some (r.gridPoint count (q + 1))
      | false, false => none := by
  have hscale (e : ℤ) : (r.scale 10 e).toRat = r.toRat * 10 ^ e := by
    rw [toRat_scale (by decide), Nat.cast_ofNat]
  have hround (e : ℤ) : (r.scale 10 e).round = nearestNat (r.toRat * 10 ^ e) := by
    rw [round_eq (den_scale_pos (by decide) hden e), hscale]
  simp only [onGrid?, div_eq_floor, hscale, hround, gridPoint, onGrid]
  rfl

theorem of_onGrid?_eq_some (hden : 0 < r.den) (h : r.onGrid? b count = some d) :
    d.magnitude.bits = b ∧ ∃ n, d = r.gridPoint count n ∧ n ≤ ⌊r.onGrid count⌋₊ + 1 := by
  rw [onGrid?_eq hden] at h
  dsimp only at h
  have hnearest := nearestNat_eq_or (r.onGrid count)
  split at h
  · rename_i hbelow habove
    obtain rfl := Option.some.inj h
    rcases hnearest with hq | hq
    all_goals rw [hq]
    · exact ⟨of_decide_eq_true hbelow, _, rfl, Nat.le_succ _⟩
    · exact ⟨of_decide_eq_true habove, _, rfl, le_refl _⟩
  · rename_i hbelow habove
    obtain rfl := Option.some.inj h
    exact ⟨of_decide_eq_true hbelow, _, rfl, Nat.le_succ _⟩
  · rename_i hbelow habove
    obtain rfl := Option.some.inj h
    exact ⟨of_decide_eq_true habove, _, rfl, le_refl _⟩
  · exact absurd h (by simp)

theorem onGrid?_ne_none (hden : 0 < r.den)
    (h : (r.gridPoint count (nearestNat (r.onGrid count))).magnitude.bits = b) :
    r.onGrid? b count ≠ none := by
  rw [onGrid?_eq hden]
  dsimp only
  have hnearest := nearestNat_eq_or (r.onGrid count)
  split
  · simp
  · simp
  · simp
  · rename_i hbelow habove
    rcases hnearest with hq | hq
    all_goals rw [hq] at h
    · exact absurd h (of_decide_eq_false hbelow)
    · exact absurd h (of_decide_eq_false habove)

theorem onGrid_lt (hnum : r.num ≠ 0) (hden : 0 < r.den) (hcount : 0 < count) :
    r.onGrid count < 10 ^ count := by
  have hlog : r.toRat < ((10 : ℕ) : ℚ) ^ (r.log10 + 1) := by
    rw [log10_eq hnum hden]
    exact Int.lt_zpow_succ_log_self (by decide) _
  rw [Nat.cast_ofNat] at hlog
  have hgrid : (0 : ℚ) < 10 ^ (-(r.log10 - (count - 1 : ℕ))) := by positivity
  have hpower : (10 : ℚ) ^ (r.log10 + 1) * 10 ^ (-(r.log10 - (count - 1 : ℕ))) = 10 ^ count := by
    rw [← zpow_add₀ (by norm_num), ← zpow_natCast]
    congr 1
    omega
  calc r.onGrid count < 10 ^ (r.log10 + 1) * 10 ^ (-(r.log10 - (count - 1 : ℕ))) :=
        mul_lt_mul_of_pos_right hlog hgrid
    _ = 10 ^ count := hpower

/-- Seventeen digits are enough. -/
theorem bits_nearest_of_seventeen {m : ℕ} {u : ℤ} (units : Units b m u) (hnum : r.num ≠ 0)
    (hden : 0 < r.den) (hvalue : r.toRat = m * 2 ^ u) :
    (r.gridPoint 17 (nearestNat (r.onGrid 17))).magnitude.bits = b := by
  have hx : 0 < r.toRat := toRat_pos hnum hden
  have hlog : (10 : ℚ) ^ r.log10 ≤ r.toRat := by
    rw [log10_eq hnum hden]
    exact Int.zpow_log_le_self (b := 10) (by decide) hx
  obtain ⟨e, he⟩ : ∃ e : ℤ, e = r.log10 - (17 - 1 : ℕ) := ⟨_, rfl⟩
  have hunit : (0 : ℚ) < 10 ^ e := by positivity
  have hpower : (10 : ℚ) ^ e * 10 ^ 16 = 10 ^ r.log10 := by
    rw [← zpow_natCast, ← zpow_add₀ (by norm_num), he]
    congr 1
    omega
  have hz : r.onGrid 17 * 10 ^ e = r.toRat := by
    rw [onGrid, ← he, zpow_neg, inv_mul_cancel_right₀ hunit.ne']
  have hzpos : 0 ≤ r.onGrid 17 := by
    rw [onGrid]
    positivity
  have hnear := abs_nearestNat_sub_le hzpos
  generalize nearestNat (r.onGrid 17) = n at hnear ⊢
  apply bits_of_near units (Decimal.den_magnitude_pos _)
  rw [Decimal.toRat_magnitude, ← hvalue, gridPoint, ← he]
  calc |(n : ℚ) * 10 ^ e - r.toRat| * (2 * 10 ^ 16)
      = |(n : ℚ) - r.onGrid 17| * 10 ^ e * (2 * 10 ^ 16) := by
        rw [← hz, ← sub_mul, abs_mul, abs_of_pos hunit]
    _ ≤ 1 / 2 * 10 ^ e * (2 * 10 ^ 16) := by gcongr
    _ = 10 ^ r.log10 := by rw [← hpower]; ring
    _ ≤ r.toRat := hlog

theorem Units.le_of_lt_infinityBits {m : ℕ} {u : ℤ} (units : Units b m u) (hb : b < infinityBits) :
    u ≤ 972 := by
  have hbits := units.bits
  have hmin := units.minUnit_le
  simp only [infinityBits, fractionSize, minUnit] at *
  omega

/-- A rough estimate, which keeps exponents far from where their digits would be cut off. -/
theorem log10_bounds {m : ℕ} {u : ℤ} (units : Units b m u) (hu : u ≤ 972) (hnum : r.num ≠ 0)
    (hden : 0 < r.den) (hvalue : r.toRat = m * 2 ^ u) : -1074 ≤ r.log10 ∧ r.log10 < 1025 := by
  have hx : 0 < r.toRat := toRat_pos hnum hden
  have hm : (1 : ℚ) ≤ m := by exact_mod_cast units.pos
  have hmlt : (m : ℚ) ≤ 2 ^ 53 := by exact_mod_cast units.lt.le
  have hmin : -1074 ≤ u := units.minUnit_le
  rw [log10_eq hnum hden, ← Int.zpow_le_iff_le_log (by decide) hx,
    ← Int.lt_zpow_iff_log_lt (by decide) hx, hvalue, Nat.cast_ofNat]
  constructor
  · calc (10 : ℚ) ^ (-1074 : ℤ) ≤ 2 ^ (-1074 : ℤ) := by
          rw [zpow_neg, zpow_neg]
          exact inv_anti₀ (by positivity)
            (zpow_le_zpow_left₀ (by norm_num) (by norm_num) (by norm_num))
      _ ≤ 2 ^ u := zpow_le_zpow_right₀ (by norm_num) hmin
      _ ≤ m * 2 ^ u := le_mul_of_one_le_left (by positivity) hm
  · calc (m : ℚ) * 2 ^ u ≤ 2 ^ 53 * 2 ^ (972 : ℤ) := by gcongr; norm_num
      _ = 2 ^ (1025 : ℤ) := by rw [← zpow_natCast, ← zpow_add₀ two_ne_zero]; rfl
      _ < 10 ^ (1025 : ℤ) := zpow_lt_zpow_left₀ (by norm_num) (by norm_num) (by norm_num)

end Ratio

namespace Decimal

variable {d : Decimal} {b : ℕ}

/-- What is used of the shortest decimal of a bit pattern: it has the bit pattern, and its digits
and its exponent are small enough to be read back in full. -/
structure IsShort (d : Decimal) (b : ℕ) : Prop where
  bits : d.magnitude.bits = b
  digits_lt : d.digits < 10 ^ 18
  le_exponent : -2000 ≤ d.exponent
  exponent_le : d.exponent ≤ 2000

theorem bounds_of_onGrid? {r : Ratio} {k : ℕ} (hk : k < 17) (hnum : r.num ≠ 0) (hden : 0 < r.den)
    (hlow : -1074 ≤ r.log10) (hhigh : r.log10 < 1025) (h : r.onGrid? b (k + 1) = some d) :
    d.magnitude.bits = b ∧ d.digits < 10 ^ 18 ∧ -1090 ≤ d.exponent ∧ d.exponent < 1025 := by
  obtain ⟨hbits, n, rfl, hn⟩ := Ratio.of_onGrid?_eq_some hden h
  have hgrid := Ratio.onGrid_lt hnum hden k.succ_pos
  have hfloor : ⌊r.onGrid (k + 1)⌋₊ < 10 ^ (k + 1) := by
    refine (Nat.floor_lt' (by positivity)).2 ?_
    exact_mod_cast hgrid
  have hpower : 10 ^ (k + 1) ≤ 10 ^ 17 := Nat.pow_le_pow_right (by decide) hk
  have hexponent : (r.gridPoint (k + 1) n).exponent = r.log10 - k := rfl
  refine ⟨hbits, ?_, by omega, by omega⟩
  have hdigits : (r.gridPoint (k + 1) n).digits = n := rfl
  omega

theorem IsShort.dropZeros (h : d.magnitude.bits = b) (hdigits : d.digits < 10 ^ 18)
    (hlow : -1090 ≤ d.exponent) (hhigh : d.exponent < 1025) :
    (d.dropZeros (Ratio.digitCount d.digits)).IsShort b := by
  have hcount : Ratio.digitCount d.digits ≤ 18 := (Ratio.digitCount_le_iff (by decide)).2 hdigits
  obtain ⟨n, hn, digits, hdrop, hvalue⟩ := d.exists_dropZeros (Ratio.digitCount d.digits)
  rw [hdrop]
  refine ⟨?_, ?_, ?_, ?_⟩
  · rw [← h]
    apply bits_magnitude_congr
    rw [← hvalue, zpow_add₀ (by norm_num), zpow_natCast]
    push_cast
    ring
  · have hle : digits ≤ digits * 10 ^ n := Nat.le_mul_of_pos_right digits (by positivity)
    exact lt_of_le_of_lt (hle.trans hvalue.le) hdigits
  · show -2000 ≤ d.exponent + n
    omega
  · show d.exponent + n ≤ 2000
    omega

/-- The shortest decimal of a bit pattern has the bit pattern. -/
theorem isShort_shortest (hpos : 0 < b) (hb : b < infinityBits) : (shortest b).IsShort b := by
  obtain ⟨m, u, units, hnum, hden, hvalue⟩ := Ratio.exists_units hpos
  obtain ⟨hlow, hhigh⟩ :=
    Ratio.log10_bounds units (units.le_of_lt_infinityBits hb) hnum hden hvalue
  have hseventeen := Ratio.onGrid?_ne_none hden
    (Ratio.bits_nearest_of_seventeen units hnum hden hvalue)
  obtain ⟨d, hd⟩ : ∃ d, (List.range 17).findSome? (fun k => (Ratio.ofBits b).onGrid? b (k + 1)) =
      some d := by
    rw [← Option.ne_none_iff_exists']
    intro hnone
    exact hseventeen (List.findSome?_eq_none_iff.1 hnone 16 (by decide))
  obtain ⟨k, hk, hgrid⟩ := List.exists_of_findSome?_eq_some hd
  obtain ⟨hbits, hdigits, hle, hlt⟩ :=
    bounds_of_onGrid? (List.mem_range.1 hk) hnum hden hlow hhigh hgrid
  rw [shortest]
  simp only [hd, Option.getD_some]
  exact IsShort.dropZeros hbits hdigits hle hlt

end Decimal

end LineScript
