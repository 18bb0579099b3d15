import LineScript.Proofs.Numeral

/-! The grammar of decimal numbers. What is read at the front of a text is the longest number there:
it is a number, every number that the text starts with is a front part of it, and it ends where
nothing continues it. -/

namespace LineScript.Literal

/-- One of the two letters that mark an exponent. -/
def isMark (b : UInt8) : Bool := b == 0x65 || b == 0x45

def IsSign (t : Text) : Prop := t = [] ∨ t = [Text.plus] ∨ t = [Text.minus]

/-- What follows a number in a text, if nothing of it continues the number. -/
def Ends (rest : Text) : Prop :=
  ∀ b, rest.head? = some b → Text.isDigit b = false ∧ b ≠ Text.dot ∧ isMark b = false

theorem ends_nil : Ends [] := fun b hb => absurd hb (by simp)

theorem ne_of_isMark {b : UInt8} (h : isMark b = true) :
    Text.isDigit b = false ∧ b ≠ Text.dot := by
  simp only [isMark, Bool.or_eq_true, beq_iff_eq] at h
  rcases h with rfl | rfl <;> decide

theorem sign_isSign (t : Text) : IsSign (sign t) := by
  cases t with
  | nil => exact Or.inl rfl
  | cons b t =>
    by_cases hplus : b = Text.plus
    · exact Or.inr (Or.inl (by simp [sign, hplus]))
    · by_cases hminus : b = Text.minus
      · exact Or.inr (Or.inr (by simp [sign, hminus]))
      · exact Or.inl (by simp [sign, hplus, hminus])

theorem IsSign.sign_append {s t : Text} (h : IsSign s)
    (ht : ∀ b, t.head? = some b → b ≠ Text.plus ∧ b ≠ Text.minus) : sign (s ++ t) = s := by
  rcases h with rfl | rfl | rfl
  · cases t with
    | nil => rfl
    | cons b t =>
      obtain ⟨hplus, hminus⟩ := ht b rfl
      simp [sign, hplus, hminus]
  · rfl
  · rfl

theorem isDigit_of_mem_digits {t : Text} {b : UInt8} (h : b ∈ digits t) : Text.isDigit b = true :=
  List.mem_takeWhile_imp h

theorem digits_append_digits {ds : Text} (h : ∀ b ∈ ds, Text.isDigit b = true) (rest : Text) :
    digits (ds ++ rest) = ds ++ digits rest := List.takeWhile_append_of_pos h

theorem ne_signs_of_isDigit {b : UInt8} (h : Text.isDigit b = true) :
    b ≠ Text.plus ∧ b ≠ Text.minus := by
  constructor <;> rintro rfl <;> exact absurd h (by decide)

namespace Parts

/-- A point and the digits behind it, or nothing. -/
def IsFraction (t : Text) : Prop :=
  t = [] ∨ ∃ ds, (∀ b ∈ ds, Text.isDigit b = true) ∧ t = Text.dot :: ds

/-- A mark, a sign or none, and digits, or nothing at all. -/
def IsPower (t : Text) : Prop :=
  t = [] ∨ ∃ mark s ds, isMark mark = true ∧ IsSign s ∧ ds ≠ [] ∧
    (∀ b ∈ ds, Text.isDigit b = true) ∧ t = mark :: (s ++ ds)

/-- The parts of a decimal number: a sign or none, digits with at most one point among them, and an
exponent or none. -/
structure IsNumeral (p : Parts) : Prop where
  sign : IsSign p.sign
  whole : ∀ b ∈ p.whole, Text.isDigit b = true
  fraction : IsFraction p.fraction
  mantissa : p.mantissa ≠ []
  exponent : IsPower p.exponent

theorem text_eq (p : Parts) : p.text = p.sign ++ (p.whole ++ (p.fraction ++ p.exponent)) := by
  simp [text, Text.cat]

theorem fractionOf_isFraction (t : Text) : IsFraction (fractionOf t) := by
  cases t with
  | nil => exact Or.inl rfl
  | cons b t =>
    by_cases hdot : b = Text.dot
    · exact Or.inr ⟨digits t, fun _ => isDigit_of_mem_digits, by simp [fractionOf, hdot]⟩
    · exact Or.inl (by simp [fractionOf, hdot])

theorem exponentOf_cons (mark : UInt8) (t : Text) :
    exponentOf (mark :: t) =
      if isMark mark then
        if digits (t.drop (Literal.sign t).length) = [] then []
        else mark :: (Literal.sign t ++ digits (t.drop (Literal.sign t).length))
      else [] := rfl

theorem exponentOf_isPower (t : Text) : IsPower (exponentOf t) := by
  cases t with
  | nil => exact Or.inl rfl
  | cons mark t =>
    rw [exponentOf_cons]
    split_ifs with hmark hnone
    · exact Or.inl rfl
    · exact Or.inr ⟨mark, _, _, hmark, sign_isSign t, hnone, fun _ => isDigit_of_mem_digits, rfl⟩
    · exact Or.inl rfl

/-- What is read at the front of a text is a number, if it has a digit. -/
theorem isNumeral_ofText {t : Text} (h : (ofText t).mantissa ≠ []) : (ofText t).IsNumeral where
  sign := sign_isSign t
  whole := fun _ => isDigit_of_mem_digits
  fraction := fractionOf_isFraction _
  mantissa := h
  exponent := exponentOf_isPower _

theorem IsPower.exponentOf_append {e : Text} (h : IsPower e) (hne : e ≠ []) (rest : Text) :
    exponentOf (e ++ rest) = e ++ digits rest := by
  obtain ⟨mark, s, ds, hmark, hs, hds, hdigits, rfl⟩ := h.resolve_left hne
  have hsign : Literal.sign (s ++ (ds ++ rest)) = s := by
    obtain ⟨d, ds, rfl⟩ := List.exists_cons_of_ne_nil hds
    refine hs.sign_append fun b hb => ne_signs_of_isDigit ?_
    rw [← Option.some.inj hb]
    exact hdigits d List.mem_cons_self
  rw [List.cons_append, List.append_assoc, exponentOf_cons, if_pos hmark, hsign, List.drop_left,
    digits_append_digits hdigits, if_neg (List.append_ne_nil_of_left_ne_nil hds _),
    List.cons_append, List.append_assoc]

theorem exponentOf_eq_nil {rest : Text} (h : ∀ b, rest.head? = some b → isMark b = false) :
    exponentOf rest = [] := by
  cases rest with
  | nil => rfl
  | cons b rest => rw [exponentOf_cons, if_neg (by simp [h b rfl])]

theorem IsPower.head? {e rest : Text} (h : IsPower e) {b : UInt8}
    (hb : (e ++ rest).head? = some b) : isMark b = true ∨ (e = [] ∧ rest.head? = some b) := by
  rcases h with rfl | ⟨mark, s, ds, hmark, -, -, -, rfl⟩
  · exact Or.inr ⟨rfl, hb⟩
  · exact Or.inl (Option.some.inj hb ▸ hmark)

theorem IsFraction.head? {f rest : Text} (h : IsFraction f) {b : UInt8}
    (hb : (f ++ rest).head? = some b) : b = Text.dot ∨ (f = [] ∧ rest.head? = some b) := by
  rcases h with rfl | ⟨ds, -, rfl⟩
  · exact Or.inr ⟨rfl, hb⟩
  · exact Or.inl (Option.some.inj hb).symm

theorem IsFraction.fractionOf_append {f rest : Text} (h : IsFraction f)
    (hrest : ∀ b, rest.head? = some b → Text.isDigit b = false ∧ b ≠ Text.dot) :
    fractionOf (f ++ rest) = f := by
  rcases h with rfl | ⟨ds, hds, rfl⟩
  · cases rest with
    | nil => rfl
    | cons b rest => simp [fractionOf, (hrest b rfl).2]
  · have hdigits : digits (ds ++ rest) = ds :=
      digits_append_of_forall hds fun b hb => (hrest b hb).1
    simp [fractionOf, hdigits]

variable {p : Parts}

/-- The sign is read as such, for the number goes on with a digit or a point. -/
theorem IsNumeral.sign_append (h : p.IsNumeral) (rest : Text) :
    Literal.sign (p.sign ++ (p.whole ++ (p.fraction ++ rest))) = p.sign := by
  refine h.sign.sign_append fun b hb => ?_
  cases hwhole : p.whole with
  | nil =>
    have hfraction : p.fraction ≠ [] := by
      intro hnil
      exact h.mantissa (by simp [Parts.mantissa, hwhole, hnil])
    rw [hwhole, List.nil_append] at hb
    rcases h.fraction.head? hb with rfl | ⟨hnil, -⟩
    · decide
    · exact absurd hnil hfraction
  | cons d ds =>
    rw [hwhole] at hb
    rw [← Option.some.inj hb]
    exact ne_signs_of_isDigit (h.whole d (by simp [hwhole]))

theorem IsNumeral.digits_append (h : p.IsNumeral) {rest : Text}
    (hrest : ∀ b, rest.head? = some b → Text.isDigit b = false ∧ b ≠ Text.dot) :
    digits (p.whole ++ (p.fraction ++ rest)) = p.whole := by
  apply digits_append_of_forall h.whole
  intro b hb
  rcases h.fraction.head? hb with rfl | ⟨-, hb⟩
  · decide
  · exact (hrest b hb).1

/-- A number is read as its parts if the text behind it ends it. -/
theorem IsNumeral.ofText_append (h : p.IsNumeral) {rest : Text} (hrest : Ends rest) :
    ofText (p.text ++ rest) = p := by
  have hexponent : exponentOf (p.exponent ++ rest) = p.exponent := by
    by_cases hnone : p.exponent = []
    · rw [hnone, List.nil_append, exponentOf_eq_nil fun b hb => (hrest b hb).2.2]
    · have hdigits : digits rest = [] := by
        simpa [digits] using digits_append_of_forall (List.forall_mem_nil _)
          fun b hb => (hrest b hb).1
      rw [h.exponent.exponentOf_append hnone, hdigits, List.append_nil]
  have hbehind : ∀ b, (p.exponent ++ rest).head? = some b →
      Text.isDigit b = false ∧ b ≠ Text.dot := by
    intro b hb
    rcases h.exponent.head? hb with hmark | ⟨-, hb⟩
    · exact ne_of_isMark hmark
    · exact ⟨(hrest b hb).1, (hrest b hb).2.1⟩
  rw [text_eq, List.append_assoc, List.append_assoc, List.append_assoc]
  simp only [ofText, h.sign_append, List.drop_left, h.digits_append hbehind,
    h.fraction.fractionOf_append hbehind, hexponent]

/-- No number at the front of a text is longer than what is read there. -/
theorem IsNumeral.length_le (h : p.IsNumeral) (rest : Text) :
    p.text.length ≤ (ofText (p.text ++ rest)).text.length := by
  have hlength (q : Parts) : q.text.length =
      q.sign.length + (q.whole.length + (q.fraction.length + q.exponent.length)) := by
    simp only [text_eq, List.length_append]
  rw [hlength, hlength, text_eq, List.append_assoc, List.append_assoc, List.append_assoc]
  simp only [ofText, h.sign_append, List.drop_left]
  refine Nat.add_le_add_left ?_ _
  by_cases hexponent : p.exponent = []
  · rw [hexponent, List.nil_append]
    rcases h.fraction with hfraction | ⟨ds, hds, hfraction⟩
    · -- only digits so far: further digits, a point or an exponent can follow
      rw [hfraction, List.nil_append, digits_append_digits h.whole, List.length_append]
      simp only [List.length_nil]
      omega
    · have hdigits : digits (p.whole ++ (p.fraction ++ rest)) = p.whole := by
        apply digits_append_of_forall h.whole
        intro b hb
        rw [hfraction] at hb
        obtain rfl := Option.some.inj hb
        decide
      rw [hdigits, List.drop_left, hfraction, List.cons_append, fractionOf, if_pos (by decide),
        digits_append_digits hds]
      simp only [List.length_cons, List.length_append, List.length_nil]
      omega
  · -- an exponent can only get further digits
    have hbehind : ∀ b, (p.exponent ++ rest).head? = some b →
        Text.isDigit b = false ∧ b ≠ Text.dot := fun b hb =>
      ne_of_isMark ((h.exponent.head? hb).resolve_right fun hnone => hexponent hnone.1)
    rw [h.digits_append hbehind, List.drop_left, h.fraction.fractionOf_append hbehind,
      List.drop_left, h.exponent.exponentOf_append hexponent, List.length_append]
    omega

end Parts

/-- The longest number at the front of a text, if there is one, is in range. -/
def LeadsInRange (t : Text) : Prop :=
  ∃ p : Parts, p.IsNumeral ∧ p.text <+: t ∧
    (∀ q : Parts, q.IsNumeral → q.text <+: t → q.text.length ≤ p.text.length) ∧
    p.toFloat?.isSome = true

theorem leadsInRange_of_float {t : Text} {l : Literal Float} (h : float t = .ok l) :
    LeadsInRange t := by
  simp only [float] at h
  split at h
  · exact absurd h (by simp)
  · rename_i hmantissa
    split at h
    · rename_i f hvalue
      refine ⟨Parts.ofText t, Parts.isNumeral_ofText hmantissa, Parts.text_isPrefix t, ?_, ?_⟩
      · rintro q hq ⟨rest, rfl⟩
        exact hq.length_le rest
      · rw [hvalue]
        rfl
    · exact absurd h (by simp)

/-- A number takes up room in the text. -/
theorem length_float_pos {t : Text} {l : Literal Float} (h : float t = .ok l) : 0 < l.length := by
  have hmantissa : (Parts.ofText t).mantissa ≠ [] := by
    intro hnil
    rw [float, if_pos hnil] at h
    exact absurd h (by simp)
  have hlength : l.length = (Parts.ofText t).text.length := by
    rw [float, if_neg hmantissa] at h
    split at h
    · rw [← Except.ok.inj h]
    · exact absurd h (by simp)
  rw [hlength]
  refine List.length_pos_of_ne_nil fun hnil => hmantissa ?_
  rw [Parts.text_eq] at hnil
  simp only [List.append_eq_nil_iff] at hnil
  simp [Parts.mantissa, hnil.2.1, hnil.2.2.1]

theorem float_append_of_ends {p : Parts} (h : p.IsNumeral) {f : Float}
    (hvalue : p.toFloat? = some f) {rest : Text} (hrest : Ends rest) :
    float (p.text ++ rest) = .ok ⟨f, p.text.length⟩ := by
  simp only [float, h.ofText_append hrest, if_neg h.mantissa, hvalue]

end LineScript.Literal
