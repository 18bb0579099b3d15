import LineScript.Literal
import LineScript.Proofs.Literal
import LineScript.Value
import Mathlib.Tactic.Ring

/-! Decimal digits. The digits of a natural number denote it, and an integer of 64 bits comes back
from its text whatever stands behind it, as long as that is no further digit. What is written for a
value that is no string has no white space in it. -/

namespace LineScript

namespace Text

theorem isSpace_of_isDigit {b : UInt8} (h : isDigit b = true) : isSpace b = false := by
  have hdigit : (0x30 : UInt8) ≤ b ∧ b ≤ 0x39 := by simpa [isDigit] using h
  simp only [isSpace, Bool.or_eq_false_iff, beq_eq_false_iff_ne, ne_eq, Bool.and_eq_false_imp,
    decide_eq_true_eq, decide_eq_false_iff_not]
  grind

theorem isSpace_of_mem_of_all {t : Text} (h : t.all (!isSpace ·) = true) :
    ∀ b ∈ t, isSpace b = false := by
  simpa using h

theorem isDigit_toUInt8 {c : Char} (h : c.isDigit = true) :
    isDigit c.toNat.toUInt8 = true ∧ digitValue c.toNat.toUInt8 = c.toNat - 48 := by
  have hbounds : 48 ≤ c.toNat ∧ c.toNat ≤ 57 := by
    simp only [Char.isDigit, Bool.and_eq_true, decide_eq_true_eq, UInt32.le_iff_toNat_le] at h
    exact h
  have hbyte : c.toNat.toUInt8.toNat = c.toNat := by
    rw [Nat.toUInt8, UInt8.toNat_ofNat']
    omega
  rw [isDigit, digitValue, hbyte]
  refine ⟨?_, rfl⟩
  rw [Bool.and_eq_true, decide_eq_true_eq, decide_eq_true_eq, UInt8.le_iff_toNat_le,
    UInt8.le_iff_toNat_le, hbyte]
  exact hbounds

theorem isDigit_of_mem_ofNat {n : Nat} {b : UInt8} (h : b ∈ ofNat n) : isDigit b = true := by
  obtain ⟨c, hc, rfl⟩ := List.mem_map.1 h
  exact (isDigit_toUInt8 (Nat.isDigit_of_mem_toDigits (by decide) (by decide) hc)).1

theorem toNat_lt_of_mem_ofNat {n : Nat} {b : UInt8} (h : b ∈ ofNat n) : b.toNat < 0x80 := by
  by_contra hge
  have hdigit := isDigit_of_mem_ofNat h
  rw [isDigit_of_isWhiteByte (isWhiteByte_of_ge (Nat.le_of_not_lt hge))] at hdigit
  exact Bool.noConfusion hdigit

theorem lf_not_mem_ofNat (n : Nat) : lf ∉ ofNat n :=
  fun h => absurd (isDigit_of_mem_ofNat h) (by decide)

theorem ofNat_ne_nil (n : Nat) : ofNat n ≠ [] := by
  rw [ofNat, ne_eq, List.map_eq_nil_iff]
  exact Nat.toDigits_ne_nil

theorem digitsValue_ofNat (n : Nat) : digitsValue (ofNat n) = n := by
  have hfold (l : List Char) (hl : ∀ c ∈ l, c.isDigit = true) (k : Nat) :
      (l.map fun c => c.toNat.toUInt8).foldl (fun n b => 10 * n + digitValue b) k =
        Nat.ofDigitChars 10 l k := by
    induction l generalizing k with
    | nil => rfl
    | cons c l ih =>
      obtain ⟨hc, hl⟩ := List.forall_mem_cons.1 hl
      rw [List.map_cons, List.foldl_cons, (isDigit_toUInt8 hc).2, ih hl, Nat.ofDigitChars_cons]
      rfl
  rw [digitsValue, ofNat, hfold _ (fun c => Nat.isDigit_of_mem_toDigits (by decide) (by decide)),
    Nat.ofDigitChars_ten_toDigits]

theorem length_ofNat_le_iff {n k : Nat} (h : 0 < k) : (ofNat n).length ≤ k ↔ n < 10 ^ k := by
  rw [ofNat, List.length_map]
  exact Nat.length_toDigits_le_iff (by decide) h

theorem digitsValue_append (a b : Text) :
    digitsValue (a ++ b) = digitsValue a * 10 ^ b.length + digitsValue b := by
  have hfold (n : Nat) : b.foldl (fun n b => 10 * n + digitValue b) n =
      n * 10 ^ b.length + digitsValue b := by
    induction b generalizing n with
    | nil => simp [digitsValue]
    | cons d b ih =>
      rw [digitsValue, List.foldl_cons, List.foldl_cons, ih, ih (10 * 0 + digitValue d),
        List.length_cons]
      ring
  rw [digitsValue, List.foldl_append]
  exact hfold _

end Text

namespace Literal

theorem digits_append_of_forall {ds : Text} (h : ∀ b ∈ ds, Text.isDigit b = true) {rest : Text}
    (hrest : ∀ b, rest.head? = some b → Text.isDigit b = false) : digits (ds ++ rest) = ds := by
  have hnone : rest.takeWhile Text.isDigit = [] := by
    cases rest with
    | nil => rfl
    | cons b rest => exact List.takeWhile_cons_of_neg (by simp [hrest b rfl])
  rw [digits, List.takeWhile_append_of_pos h, hnone, List.append_nil]

theorem sign_of_isDigit {b : UInt8} (h : Text.isDigit b = true) (t : Text) :
    sign (b :: t) = [] := by
  have hplus : b ≠ Text.plus := by
    rintro rfl
    exact absurd h (by decide)
  have hminus : b ≠ Text.minus := by
    rintro rfl
    exact absurd h (by decide)
  simp [sign, hplus, hminus]

theorem cappedValue_eq (ds : Text) : cappedValue ds = min (Text.digitsValue ds) integerCap := by
  have hfold (n : Nat) :
      ds.foldl (fun n b => min (10 * n + Text.digitValue b) integerCap) (min n integerCap) =
        min (ds.foldl (fun n b => 10 * n + Text.digitValue b) n) integerCap := by
    induction ds generalizing n with
    | nil => rfl
    | cons b ds ih =>
      -- once the cap is reached, it is reached for good
      have hstep : min (10 * min n integerCap + Text.digitValue b) integerCap =
          min (10 * n + Text.digitValue b) integerCap := by omega
      rw [List.foldl_cons, List.foldl_cons, hstep, ih]
  exact hfold 0

theorem int64?_toInt (i : Int64) : int64? i.toInt = some i := by
  have hle := i.le_toInt
  have hlt := i.toInt_lt
  rw [int64?, if_pos ⟨by simpa using hle, by simpa using hlt⟩, Int64.ofInt_toInt]

theorem int_eq_ok {t s ds : Text} (hsign : sign t = s) (hdigits : digits (t.drop s.length) = ds)
    (hne : ds ≠ []) {i : Int64}
    (hi : int64? (if s = [Text.minus] then -(cappedValue ds : Int) else cappedValue ds) = some i) :
    int t = .ok ⟨i, s.length + ds.length⟩ := by
  simp only [int, hsign, hdigits, if_neg hne, hi]

theorem int_ofInt (i : Int64) {rest : Text}
    (h : ∀ b, rest.head? = some b → Text.isDigit b = false) :
    int (Text.ofInt i.toInt ++ rest) = .ok ⟨i, (Text.ofInt i.toInt).length⟩ := by
  have hi := int64?_toInt i
  have hle := i.le_toInt
  have hlt := i.toInt_lt
  generalize i.toInt = n at hi hle hlt ⊢
  have hdigits (k : Nat) : digits (Text.ofNat k ++ rest) = Text.ofNat k :=
    digits_append_of_forall (fun _ => Text.isDigit_of_mem_ofNat) h
  have hcapped (k : Nat) (hk : k < integerCap) : cappedValue (Text.ofNat k) = k := by
    rw [cappedValue_eq, Text.digitsValue_ofNat]
    exact Nat.min_eq_left hk.le
  cases n with
  | ofNat k =>
    obtain ⟨b, ds, hds⟩ := List.exists_cons_of_ne_nil (Text.ofNat_ne_nil k)
    have hb : Text.isDigit b = true := Text.isDigit_of_mem_ofNat (n := k) (by simp [hds])
    have hsign : sign (Text.ofNat k ++ rest) = [] := by
      rw [hds, List.cons_append, sign_of_isDigit hb]
    have hk : k < integerCap := by
      change (k : Int) < 2 ^ 63 at hlt
      simp only [integerCap]
      omega
    have hvalue : int64? (if ([] : Text) = [Text.minus] then -(cappedValue (Text.ofNat k) : Int)
        else cappedValue (Text.ofNat k)) = some i := by
      rw [if_neg (by simp), hcapped k hk]
      exact hi
    have hread := int_eq_ok hsign (hdigits k) (Text.ofNat_ne_nil k) hvalue
    rwa [List.length_nil, Nat.zero_add] at hread
  | negSucc k =>
    have hk : k + 1 < integerCap := by
      simp only [integerCap]
      omega
    have hvalue : int64? (if ([Text.minus] : Text) = [Text.minus] then
        -(cappedValue (Text.ofNat (k + 1)) : Int) else cappedValue (Text.ofNat (k + 1))) =
        some i := by
      rw [if_pos rfl, hcapped _ hk]
      exact hi
    have hread := int_eq_ok (t := Text.ofInt (.negSucc k) ++ rest) rfl (hdigits (k + 1))
      (Text.ofNat_ne_nil _) hvalue
    rwa [Nat.add_comm] at hread

end Literal

namespace FloatLayout

theorem isSpace_of_mem_zeros {n : Nat} {b : UInt8} (h : b ∈ List.replicate n 0x30) :
    Text.isSpace b = false := by
  rw [(List.mem_replicate.1 h).2]
  decide

theorem isSpace_of_mem_exponentPart (l : FloatLayout) (e : Int) :
    ∀ b ∈ l.exponentPart e, Text.isSpace b = false := by
  have hsign : ∀ b ∈ (if e < 0 then "-" else "+" : Text), Text.isSpace b = false := by
    split <;> exact Text.isSpace_of_mem_of_all rfl
  have hmark : ∀ b ∈ ("e" : Text), Text.isSpace b = false := Text.isSpace_of_mem_of_all rfl
  intro b hb
  simp only [exponentPart, Text.cat, List.flatten_cons, List.flatten_nil, List.append_nil,
    List.mem_append] at hb
  rcases hb with hb | hb | hb | hb
  · exact hmark b hb
  · exact hsign b hb
  · exact isSpace_of_mem_zeros hb
  · exact Text.isSpace_of_isDigit (Text.isDigit_of_mem_ofNat hb)

theorem isSpace_of_mem_pointed (n whole : Nat) :
    ∀ b ∈ pointed (Text.ofNat n) whole, Text.isSpace b = false := by
  have hdigit : ∀ b ∈ Text.ofNat n, Text.isSpace b = false :=
    fun b hb => Text.isSpace_of_isDigit (Text.isDigit_of_mem_ofNat hb)
  have hpoint : ∀ b ∈ ("." : Text), Text.isSpace b = false := Text.isSpace_of_mem_of_all rfl
  intro b hb
  unfold pointed at hb
  split at hb
  · rcases List.mem_append.1 hb with hb | hb
    · exact hdigit b hb
    · exact isSpace_of_mem_zeros hb
  · simp only [Text.cat, List.flatten_cons, List.flatten_nil, List.append_nil,
      List.mem_append] at hb
    rcases hb with hb | hb | hb
    · exact hdigit b (List.mem_of_mem_take hb)
    · exact hpoint b hb
    · exact hdigit b (List.mem_of_mem_drop hb)

theorem isSpace_of_mem_unsigned (l : FloatLayout) (d : Decimal) :
    ∀ b ∈ l.unsigned d, Text.isSpace b = false := by
  have hzero : ∀ b ∈ ("0." : Text), Text.isSpace b = false := Text.isSpace_of_mem_of_all rfl
  intro b hb
  simp only [unsigned] at hb
  split at hb
  · rcases List.mem_append.1 hb with hb | hb
    · exact isSpace_of_mem_pointed _ _ b hb
    · exact isSpace_of_mem_exponentPart _ _ b hb
  · split at hb
    · exact isSpace_of_mem_pointed _ _ b hb
    · simp only [Text.cat, List.flatten_cons, List.flatten_nil, List.append_nil, List.mem_append]
        at hb
      rcases hb with hb | hb | hb
      · exact hzero b hb
      · exact isSpace_of_mem_zeros hb
      · exact Text.isSpace_of_isDigit (Text.isDigit_of_mem_ofNat hb)

theorem isSpace_of_mem_write (f : Float) : ∀ b ∈ standard.write f, Text.isSpace b = false := by
  unfold write
  cases FloatClass.ofFloat f with
  | nan => exact Text.isSpace_of_mem_of_all rfl
  | infinite negative => cases negative <;> exact Text.isSpace_of_mem_of_all rfl
  | finite negative magnitude =>
    have hbody : ∀ b ∈ (if magnitude = 0 then "0"
        else standard.unsigned (.shortest magnitude) : Text), Text.isSpace b = false := by
      split
      · exact Text.isSpace_of_mem_of_all rfl
      · exact isSpace_of_mem_unsigned _ _
    have hminus : Text.isSpace Text.minus = false := by decide
    cases negative with
    | false => exact hbody
    | true => exact List.forall_mem_cons.2 ⟨hminus, hbody⟩

end FloatLayout

theorem Text.isSpace_of_mem_ofInt (n : Int) : ∀ b ∈ ofInt n, isSpace b = false := by
  have hdigit (k : Nat) : ∀ b ∈ ofNat k, isSpace b = false :=
    fun b hb => isSpace_of_isDigit (isDigit_of_mem_ofNat hb)
  cases n with
  | ofNat k => exact hdigit k
  | negSucc k => exact List.forall_mem_cons.2 ⟨by decide, hdigit (k + 1)⟩

/-- The text of a value that is no string has no white space in it. -/
theorem Value.isSpace_of_mem_text {v : Value} (h : ∀ t, v ≠ .string t) :
    ∀ b ∈ v.text, Text.isSpace b = false := by
  cases v with
  | empty => exact fun b hb => absurd hb List.not_mem_nil
  | int i => exact Text.isSpace_of_mem_ofInt _
  | float f => exact FloatLayout.isSpace_of_mem_write f
  | bool b => cases b <;> exact Text.isSpace_of_mem_of_all rfl
  | string t => exact absurd rfl (h t)

end LineScript
