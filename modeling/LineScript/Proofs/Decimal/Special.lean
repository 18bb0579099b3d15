import LineScript.Literal
import Mathlib

/-! Floats that are no numbers. Next to a finite float, an operation has a result that is no number
only if it is given one or multiplies an infinity by a zero. A literal is always read as a finite
float. -/

namespace LineScript

namespace Unpacked

open Float.Model (UnpackedFloat Format)
open Float.Model.UnpackedFloat

theorem isNaN_unpack_packComponents {spec : Format} {s : Sign} {e : BitVec spec.exponentBits}
    {m : BitVec spec.mantissaBitsWithoutImplicit} :
    (unpack spec (packComponents spec s e m)).isNaN = true ↔ e = -1#_ ∧ m ≠ 0#_ := by
  simp only [unpack, unpackMantissa_packComponents, unpackExponent_packComponents]
  split_ifs <;> simp_all [UnpackedFloat.isNaN]

/-- A finite float too large for the format is packed as an infinity, and only what is no number is
packed as such. -/
theorem isNaN_unpack_pack (u : UnpackedFloat) :
    (unpack .binary64 (UnpackedFloat.pack .binary64 u)).isNaN = u.isNaN := by
  cases u with
  | notANumber => rfl
  | infinity s => cases s <;> rfl
  | zero s => cases s <;> rfl
  | finite s m e hm =>
    rw [Bool.eq_iff_iff]
    refine iff_of_false ?_ Bool.false_ne_true
    rw [UnpackedFloat.pack]
    split_ifs with hlarge
    · cases s <;> decide
    · rw [isNaN_unpack_packComponents]
      rintro ⟨hones, -⟩
      have hfield := congrArg BitVec.toNat hones
      have hwidth : 2 ^ Format.binary64.exponentBits = 2048 := rfl
      have hlast : (-1#_ : BitVec Format.binary64.exponentBits).toNat = 2047 := rfl
      rw [BitVec.toNat_ofNat, hwidth, hlast] at hfield
      rw [hwidth] at hlarge
      omega
    · rw [isNaN_unpack_packComponents]
      exact fun h => absurd h.1 (by decide)

section Operation
variable (spec : Format)

theorem isNaN_roundWithAccuracy (s : Sign) (m : Nat) (e : Int) (accuracy : Accuracy) :
    (roundWithAccuracy spec s m e accuracy).isNaN = false := by
  simp only [roundWithAccuracy]
  split <;> rfl

theorem isNaN_normalize (m e : Int) (s : Sign) : (normalize spec m e s).isNaN = false := by
  simp only [UnpackedFloat.normalize]
  split
  · exact isNaN_roundWithAccuracy spec _ _ _ _
  · rfl
  · exact isNaN_roundWithAccuracy spec _ _ _ _

variable {u v : UnpackedFloat} (finite : v.isFinite = true)
include finite

theorem isNaN_add : (UnpackedFloat.add spec u v).isNaN = u.isNaN := by
  cases v with
  | notANumber => exact Bool.noConfusion finite
  | infinity s => exact Bool.noConfusion finite
  | zero s =>
    cases u with
    | zero s' => rw [UnpackedFloat.add]; split <;> rfl
    | _ => rfl
  | finite s m e hm =>
    cases u with
    | finite s' m' e' hm' => exact isNaN_normalize spec _ _ _
    | _ => rfl

theorem isNaN_sub : (UnpackedFloat.sub spec u v).isNaN = u.isNaN := by
  cases v with
  | notANumber => exact Bool.noConfusion finite
  | infinity s => exact Bool.noConfusion finite
  | zero s =>
    cases u with
    | zero s' => rw [UnpackedFloat.sub]; split <;> rfl
    | _ => rfl
  | finite s m e hm =>
    cases u with
    | finite s' m' e' hm' => exact isNaN_normalize spec _ _ _
    | _ => rfl

theorem isNaN_mul : (UnpackedFloat.mul spec u v).isNaN =
    (u.isNaN || (u.isInf && v.beq (.zero .positive))) := by
  cases v with
  | notANumber => exact Bool.noConfusion finite
  | infinity s => exact Bool.noConfusion finite
  | zero s => cases u <;> rfl
  | finite s m e hm =>
    cases u with
    | finite s' m' e' hm' => exact isNaN_roundWithAccuracy spec _ _ _ _
    | infinity s' => cases s <;> rfl
    | _ => rfl

theorem isNaN_div (nonzero : v.beq (.zero .positive) = false) :
    (UnpackedFloat.div spec u v).isNaN = u.isNaN := by
  cases v with
  | notANumber => exact Bool.noConfusion finite
  | infinity s => exact Bool.noConfusion finite
  | zero s => exact Bool.noConfusion nonzero
  | finite s m e hm =>
    cases u with
    | finite s' m' e' hm' => exact isNaN_roundWithAccuracy spec _ _ _ _
    | _ => rfl

end Operation

theorem isNaN_of_isFinite {u : UnpackedFloat} (h : u.isFinite = true) : u.isNaN = false := by
  cases u with
  | notANumber => exact Bool.noConfusion h
  | _ => rfl

theorem isFinite_unpack {spec : Format} {b : BitVec spec.numBits} (h : unpackExponent b ≠ -1#_) :
    (unpack spec b).isFinite = true := by
  simp only [unpack, if_neg h]
  split_ifs <;> rfl

/-- The bits of a float that is finite are its own. -/
theorem unpack_pack_unpack {b : BitVec Format.binary64.numBits} (h : unpackExponent b ≠ -1#_) :
    unpack .binary64 (UnpackedFloat.pack .binary64 (unpack .binary64 b)) = unpack .binary64 b := by
  have hnumber : isNaNBits b = false := decide_eq_false fun hnan => h hnan.1
  rw [pack_unpack, hnumber, if_neg Bool.false_ne_true]

end Unpacked

section Finite
variable {a b : Float}

theorem ne_nan_of_isFinite (h : b.isFinite = true) : b ≠ .nan := by
  have hnumber : b.isNaN = false := Unpacked.isNaN_of_isFinite h
  simpa [Float.isNaN_eq_decide_eq_nan] using hnumber

theorem isNaN_add_finite (h : b.isFinite = true) : (a + b).isNaN = a.isNaN :=
  (Unpacked.isNaN_unpack_pack _).trans (Unpacked.isNaN_add _ h)

theorem isNaN_sub_finite (h : b.isFinite = true) : (a - b).isNaN = a.isNaN :=
  (Unpacked.isNaN_unpack_pack _).trans (Unpacked.isNaN_sub _ h)

theorem isNaN_mul_finite (h : b.isFinite = true) :
    (a * b).isNaN = (a.isNaN || (a.isInf && b == 0)) :=
  (Unpacked.isNaN_unpack_pack _).trans (Unpacked.isNaN_mul _ h)

theorem isNaN_div_finite (h : b.isFinite = true) (nonzero : (b == 0) = false) :
    (a / b).isNaN = a.isNaN :=
  (Unpacked.isNaN_unpack_pack _).trans (Unpacked.isNaN_div _ h nonzero)

end Finite

section Bits
open Float.Model.UnpackedFloat

/-- The exponent field of a bit pattern below that of infinity is not filled with ones. -/
theorem isFinite_floatOfBits (negative : Bool) {magnitude : ℕ} (h : magnitude < infinityBits) :
    (floatOfBits negative magnitude).isFinite = true := by
  let bits := UInt64.ofNat ((if negative then signBit else 0) + magnitude)
  have hbits : bits.toBitVec.toNat = (if negative then signBit else 0) + magnitude := by
    refine (UInt64.toNat_ofNat' ..).trans (Nat.mod_eq_of_lt ?_)
    simp only [infinityBits, Ratio.fractionSize] at h
    simp only [signBit]
    split <;> omega
  have hexponent : @unpackExponent .binary64 bits.toBitVec ≠ -1#_ := by
    intro hones
    have hfield := congrArg BitVec.toNat hones
    have hlast : (-1#11).toNat = 2047 := rfl
    rw [unpackExponent_def, BitVec.extractLsb'_toNat, hbits, hlast, Nat.shiftRight_eq_div_pow]
      at hfield
    simp only [infinityBits, Ratio.fractionSize] at h
    simp only [signBit] at hfield
    split at hfield <;> omega
  have hsame := Unpacked.unpack_pack_unpack hexponent
  exact (congrArg isFinite hsame).trans (Unpacked.isFinite_unpack hexponent)

end Bits

theorem Decimal.isFinite_of_toFloat? {d : Decimal} {f : Float} (h : d.toFloat? = some f) :
    f.isFinite = true := by
  rw [toFloat?] at h
  split_ifs at h with hfinite
  rw [← Option.some.inj h]
  exact isFinite_floatOfBits d.negative hfinite

theorem Literal.isFinite_of_float {t : Text} {l : Literal Float} (h : float t = .ok l) :
    l.value.isFinite = true := by
  simp only [float] at h
  split at h
  · exact absurd h (by simp)
  · split at h
    · rename_i f hvalue
      obtain rfl := Except.ok.inj h
      exact Decimal.isFinite_of_toFloat? hvalue
    · exact absurd h (by simp)

end LineScript
