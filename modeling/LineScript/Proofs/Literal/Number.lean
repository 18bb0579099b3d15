import LineScript.Proofs.Literal.Forms
import LineScript.Proofs.Resolution

/-! Number literals. The longest number at the front of a text is handed to a reader of whole texts,
which goes over it byte by byte. It never objects to the form of what it is handed, so that a literal
with digits is refused for its size only. -/

namespace LineScript

namespace Literal

/-- Why a whole text is not read as a float. -/
inductive FloatError where
  | malformed
  | overflow
  deriving DecidableEq

/-- What is left of a text behind digits with at most one point among them, if there is a digit. The
flags tell whether a point and whether a digit has been passed. -/
def behindMantissa (pointed seen : Bool) : Text → Option Text
  | [] => if seen then some [] else none
  | b :: rest =>
    if b = Text.dot ∧ pointed = false then behindMantissa true seen rest
    else if Text.isDigit b then behindMantissa pointed true rest
    else if seen then some (b :: rest) else none

/-- What is left of a text behind an exponent, if there is one. A mark must have digits. -/
def behindPower : Text → Option Text
  | [] => some []
  | b :: rest =>
    if isMark b then
      match rest.drop (sign rest).length with
      | [] => none
      | d :: more => if Text.isDigit d then some (more.dropWhile Text.isDigit) else none
    else some (b :: rest)

/-- Whether nothing is left of a text behind a sign or none, a mantissa and an exponent or none. -/
def isWholeNumber (t : Text) : Bool :=
  (behindMantissa false false (t.drop (sign t).length)).bind behindPower = some []

/-- Reads a whole text as a decimal number. -/
def readFloat (t : Text) : Except FloatError Float :=
  if isWholeNumber t then
    match (Parts.ofText t).toFloat? with
    | some f => .ok f
    | none => .error .overflow
  else .error .malformed

section Accepts
variable {pointed seen : Bool} {ds rest : Text}

theorem behindMantissa_digits (h : ∀ b ∈ ds, Text.isDigit b = true) :
    behindMantissa pointed seen (ds ++ rest) =
      behindMantissa pointed (seen || decide (ds ≠ [])) rest := by
  induction ds generalizing seen with
  | nil => simp
  | cons d ds ih =>
    obtain ⟨hd, hds⟩ := List.forall_mem_cons.1 h
    have hdot : ¬ (d = Text.dot ∧ pointed = false) := by
      rintro ⟨rfl, -⟩
      exact absurd hd (by decide)
    rw [List.cons_append, behindMantissa, if_neg hdot, if_pos hd, ih hds]
    simp

theorem behindMantissa_end
    (h : ∀ b, rest.head? = some b → Text.isDigit b = false ∧ b ≠ Text.dot) :
    behindMantissa pointed true rest = some rest := by
  cases rest with
  | nil => rfl
  | cons b rest =>
    obtain ⟨hdigit, hdot⟩ := h b rfl
    rw [behindMantissa, if_neg fun hb => hdot hb.1, if_neg (by simp [hdigit]), if_pos rfl]

theorem behindMantissa_fraction {whole fraction : Text}
    (hwhole : ∀ b ∈ whole, Text.isDigit b = true) (hfraction : Parts.IsFraction fraction)
    (hne : whole ++ fraction.drop 1 ≠ [])
    (hrest : ∀ b, rest.head? = some b → Text.isDigit b = false ∧ b ≠ Text.dot) :
    behindMantissa false false (whole ++ (fraction ++ rest)) = some rest := by
  rw [behindMantissa_digits hwhole]
  rcases hfraction with rfl | ⟨ds, hds, rfl⟩
  · have hsome : whole ≠ [] := by simpa using hne
    rw [List.nil_append, decide_eq_true hsome]
    exact behindMantissa_end hrest
  · have hsome : (decide (whole ≠ []) || decide (ds ≠ [])) = true := by
      rw [List.drop_one, List.tail_cons, ne_eq, List.append_eq_nil_iff, not_and_or] at hne
      simpa using hne
    rw [List.cons_append, behindMantissa, if_pos ⟨rfl, rfl⟩, behindMantissa_digits hds,
      Bool.false_or, hsome]
    exact behindMantissa_end hrest

theorem behindPower_eq {e : Text} (h : Parts.IsPower e) : behindPower e = some [] := by
  rcases h with rfl | ⟨mark, s, ds, hmark, hs, hne, hds, rfl⟩
  · rfl
  · obtain ⟨d, ds, rfl⟩ := List.exists_cons_of_ne_nil hne
    obtain ⟨hd, hall⟩ := List.forall_mem_cons.1 hds
    have hsign : sign (s ++ d :: ds) = s :=
      hs.sign_append fun b hb => ne_signs_of_isDigit (Option.some.inj hb ▸ hd)
    have hnone : ds.dropWhile Text.isDigit = [] := List.dropWhile_eq_nil_iff.2 hall
    simp only [behindPower, hmark, if_true, hsign, List.drop_left, hd, hnone]

theorem isWholeNumber_text {p : Parts} (h : p.IsNumeral) : isWholeNumber p.text = true := by
  have hsign : sign p.text = p.sign := by
    have hsign := h.sign_append p.exponent
    rwa [← Parts.text_eq] at hsign
  have hbehind : ∀ b, p.exponent.head? = some b → Text.isDigit b = false ∧ b ≠ Text.dot := by
    intro b hb
    rw [← List.append_nil p.exponent] at hb
    rcases h.exponent.head? hb with hmark | ⟨-, hnone⟩
    · exact ne_of_isMark hmark
    · exact absurd hnone (by simp)
  have hmantissa := behindMantissa_fraction h.whole h.fraction h.mantissa hbehind
  rw [isWholeNumber, hsign, Parts.text_eq, List.drop_left, hmantissa, Option.bind_some,
    behindPower_eq h.exponent, decide_eq_true rfl]

end Accepts

section Accepted
variable {t rest : Text}

/-- Behind a point only digits are passed. -/
theorem exists_digits_of_behindMantissa {seen : Bool} (h : behindMantissa true seen t = some rest) :
    ∃ ds, (∀ b ∈ ds, Text.isDigit b = true) ∧ (seen = false → ds ≠ []) ∧ t = ds ++ rest := by
  induction t generalizing seen with
  | nil =>
    cases seen with
    | false => exact absurd h (by simp [behindMantissa])
    | true => exact ⟨[], List.forall_mem_nil _, by simp, Option.some.inj h⟩
  | cons b t ih =>
    rw [behindMantissa, if_neg (by simp)] at h
    split at h
    · rename_i hb
      obtain ⟨ds, hds, -, rfl⟩ := ih h
      exact ⟨b :: ds, List.forall_mem_cons.2 ⟨hb, hds⟩, by simp, rfl⟩
    · split at h
      · rename_i hseen
        exact ⟨[], List.forall_mem_nil _, by simp [hseen], Option.some.inj h⟩
      · exact absurd h (by simp)

theorem exists_mantissa_of_behindMantissa {seen : Bool}
    (h : behindMantissa false seen t = some rest) :
    ∃ whole fraction, (∀ b ∈ whole, Text.isDigit b = true) ∧ Parts.IsFraction fraction ∧
      (seen = false → whole ++ fraction.drop 1 ≠ []) ∧ t = whole ++ (fraction ++ rest) := by
  induction t generalizing seen with
  | nil =>
    cases seen with
    | false => exact absurd h (by simp [behindMantissa])
    | true => exact ⟨[], [], List.forall_mem_nil _, Or.inl rfl, by simp, Option.some.inj h⟩
  | cons b t ih =>
    rw [behindMantissa] at h
    split at h
    · rename_i hdot
      obtain ⟨rfl, -⟩ := hdot
      obtain ⟨ds, hds, hne, rfl⟩ := exists_digits_of_behindMantissa h
      exact ⟨[], Text.dot :: ds, List.forall_mem_nil _, Or.inr ⟨ds, hds, rfl⟩, hne, rfl⟩
    · split at h
      · rename_i hb
        obtain ⟨whole, fraction, hwhole, hfraction, -, rfl⟩ := ih h
        exact ⟨b :: whole, fraction, List.forall_mem_cons.2 ⟨hb, hwhole⟩, hfraction, by simp, rfl⟩
      · split at h
        · rename_i hseen
          exact ⟨[], [], List.forall_mem_nil _, Or.inl rfl, by simp [hseen], Option.some.inj h⟩
        · exact absurd h (by simp)

theorem isPower_of_behindPower (h : behindPower t = some []) : Parts.IsPower t := by
  cases t with
  | nil => exact Or.inl rfl
  | cons mark t =>
    rw [behindPower] at h
    split at h
    · rename_i hmark
      obtain ⟨s, hs⟩ : ∃ s, s = t.drop (sign t).length := ⟨_, rfl⟩
      rw [← hs] at h
      cases s with
      | nil => exact absurd h (by simp)
      | cons d more =>
        dsimp only at h
        split at h
        · rename_i hd
          have hmore := List.dropWhile_eq_nil_iff.1 (Option.some.inj h)
          refine Or.inr ⟨mark, sign t, d :: more, hmark, sign_isSign t, List.cons_ne_nil d more,
            List.forall_mem_cons.2 ⟨hd, hmore⟩, ?_⟩
          rw [hs, List.prefix_iff_eq_append.1 (sign_isPrefix t)]
        · exact absurd h (by simp)
    · exact absurd h (by simp)

end Accepted

/-- The texts that have the form of a number are those that are gone over without objection. -/
theorem isWholeNumber_iff {t : Text} : isWholeNumber t = true ↔ t ∈ Form.number.matches' := by
  rw [Form.mem_number]
  constructor
  · intro h
    obtain ⟨rest, hmantissa, hpower⟩ := Option.bind_eq_some_iff.1 (of_decide_eq_true h)
    obtain ⟨whole, fraction, hwhole, hfraction, hne, hdrop⟩ :=
      exists_mantissa_of_behindMantissa hmantissa
    refine ⟨⟨sign t, whole, fraction, rest⟩,
      ⟨sign_isSign t, hwhole, hfraction, hne rfl, isPower_of_behindPower hpower⟩, ?_⟩
    rw [Parts.text_eq, ← hdrop, List.prefix_iff_eq_append.1 (sign_isPrefix t)]
  · rintro ⟨p, hp, rfl⟩
    exact isWholeNumber_text hp

theorem readFloat_text {p : Parts} (h : p.IsNumeral) :
    readFloat p.text = match p.toFloat? with
      | some f => .ok f
      | none => .error .overflow := by
  have hparts : Parts.ofText p.text = p := by simpa using h.ofText_append ends_nil
  rw [readFloat, if_pos (isWholeNumber_text h), hparts]

/-- The longest front part that has the form of a number is the text of the longest number. -/
theorem isLongest_number_iff {t p : Text} : t.IsLongest Form.number p ↔
    ∃ q : Parts, q.Leads t ∧ q.text = p := by
  constructor
  · intro h
    obtain ⟨q, hq, rfl⟩ := Form.mem_number.1 h.matching
    refine ⟨q, ⟨hq, h.front, fun r hr hfront => ?_⟩, rfl⟩
    exact h.longest _ hfront (Form.mem_number.2 ⟨r, hr, rfl⟩)
  · rintro ⟨q, hq, rfl⟩
    refine ⟨hq.front, Form.mem_number.2 ⟨q, hq.numeral, rfl⟩, fun r hfront hform => ?_⟩
    obtain ⟨r, hr, rfl⟩ := Form.mem_number.1 hform
    exact hq.longest r hr hfront

theorem mantissa_ofText_eq_nil_iff_forall {t : Text} :
    (Parts.ofText t).mantissa = [] ↔ ∀ p, p <+: t → p ∉ Form.number.matches' := by
  constructor
  · intro hnone p hfront hform
    obtain ⟨q, hq, rfl⟩ := Form.mem_number.1 hform
    obtain ⟨rest, rfl⟩ := hfront
    exact hq.mantissa_ofText rest hnone
  · intro hall
    by_contra hne
    have hlongest := isLongest_number_iff.2 ⟨_, Parts.leads_ofText hne, rfl⟩
    exact hall _ hlongest.front hlongest.matching

/-- A number literal is what the reader of whole texts makes of the longest number at the front. -/
theorem float_of_isLongest {t p : Text} (h : t.IsLongest Form.number p) :
    float t = match readFloat p with
      | .ok f => .ok ⟨f, p.length⟩
      | .error _ => .error .floatOutOfRange := by
  obtain ⟨q, hq, rfl⟩ := isLongest_number_iff.1 h
  obtain ⟨hne, hparts⟩ := hq.eq_ofText
  rw [float, ← hparts, readFloat_text hq.numeral]
  rw [← hparts] at hne
  simp only [if_neg hne]
  cases q.toFloat? <;> rfl

theorem readFloat_ne_malformed {p : Text} (h : p ∈ Form.number.matches') :
    readFloat p ≠ .error .malformed := by
  rw [readFloat, if_pos (isWholeNumber_iff.2 h)]
  cases (Parts.ofText p).toFloat? <;> simp

/-- A number literal is the longest front part of a text that has the form of a number. There is no
literal exactly if the text has no such front part. Otherwise that part is read as a whole, and the
literal has its value and its length; it is out of range exactly if the reader of whole texts finds
it too great, which is the only thing that reader can find. -/
theorem float_longest (t : Text) :
    (FailsWith (float t) "expected digits" ↔ ∀ p, p <+: t → p ∉ Form.number.matches') ∧
    (FailsWith (float t) "float out of range" ↔
      ∃ p, t.IsLongest Form.number p ∧ readFloat p = .error .overflow) ∧
    (∀ l, float t = .ok l ↔
      ∃ p, t.IsLongest Form.number p ∧ readFloat p = .ok l.value ∧ l.length = p.length) ∧
    ∀ p, p <+: t → p ∈ Form.number.matches' → readFloat p ≠ .error .malformed := by
  have hnone : float t = .error .expectedDigits ↔ ∀ p, p <+: t → p ∉ Form.number.matches' :=
    (float_eq_expectedDigits_iff t).trans mantissa_ofText_eq_nil_iff_forall
  have hgreat : float t = .error .floatOutOfRange ↔
      ∃ p, t.IsLongest Form.number p ∧ readFloat p = .error .overflow := by
    constructor
    · intro h
      obtain ⟨q, hq, hvalue⟩ := (float_eq_floatOutOfRange_iff t).1 h
      refine ⟨q.text, isLongest_number_iff.2 ⟨q, hq, rfl⟩, ?_⟩
      rw [readFloat_text hq.numeral, hvalue]
    · rintro ⟨p, hp, hread⟩
      rw [float_of_isLongest hp, hread]
  refine ⟨failsWith_message_iff.trans hnone, failsWith_message_iff.trans hgreat, fun l => ?_,
    fun p _ => readFloat_ne_malformed⟩
  constructor
  · intro h
    have hne : (Parts.ofText t).mantissa ≠ [] := by
      intro hnil
      rw [(float_eq_expectedDigits_iff t).2 hnil] at h
      exact absurd h (by simp)
    have hlongest := isLongest_number_iff.2 ⟨_, Parts.leads_ofText hne, rfl⟩
    rw [float_of_isLongest hlongest] at h
    split at h
    · rename_i f hread
      obtain rfl := Except.ok.inj h
      exact ⟨_, hlongest, hread, rfl⟩
    · exact absurd h (by simp)
  · rintro ⟨p, hp, hread, hlength⟩
    rw [float_of_isLongest hp, hread, ← hlength]

/-- An exponent without digits is given back, and a second point ends a number. -/
theorem float_longest_given_back :
    float "-1.50e+x" = .ok ⟨-1.5, 5⟩ ∧ readFloat "-1.50" = .ok (-1.5) ∧
      FailsWith (float "+.e5") "expected digits" ∧
      FailsWith (float "1e309.5") "float out of range" := by
  have hlongest {t p : Text} (hne : (Parts.ofText t).mantissa ≠ [])
      (hp : (Parts.ofText t).text = p) : t.IsLongest Form.number p :=
    isLongest_number_iff.2 ⟨_, Parts.leads_ofText hne, hp⟩
  have hread : readFloat "-1.50" = .ok (-1.5) := by decide +kernel
  refine ⟨?_, hread, ?_, ?_⟩
  · refine (float_longest _).2.2.1 _ |>.2 ⟨"-1.50", ?_, hread, by decide +kernel⟩
    exact hlongest (by decide +kernel) (by decide +kernel)
  · refine (float_longest _).1.2 (mantissa_ofText_eq_nil_iff_forall.1 ?_)
    decide +kernel
  · refine (float_longest _).2.1.2 ⟨"1e309", ?_, by decide +kernel⟩
    exact hlongest (by decide +kernel) (by decide +kernel)

end Literal

end LineScript
