import LineScript.Text
import Mathlib.Data.List.DropRight

/-! Trimming at the ends of a text. What is cut off on the right consists of the bytes asked for,
and cutting on the left first or on the right first makes no difference as long as the right cuts
off at least what the left does. -/

namespace LineScript.Text

variable {p q : UInt8 → Bool}

theorem trimRightBy_eq_rdropWhile (p : UInt8 → Bool) (t : Text) :
    trimRightBy p t = t.rdropWhile p := rfl

theorem exists_trimRightBy_append (p : UInt8 → Bool) (t : Text) :
    ∃ rest, (∀ b ∈ rest, p b = true) ∧ t = trimRightBy p t ++ rest :=
  ⟨t.rtakeWhile p, fun _ hb => List.mem_rtakeWhile_imp hb, List.rdropWhile_append_rtakeWhile.symm⟩

theorem trimRightBy_append_of_forall (t : Text) {rest : Text} (h : ∀ b ∈ rest, p b = true) :
    trimRightBy p (t ++ rest) = trimRightBy p t := by
  unfold trimRightBy
  rw [List.reverse_append, List.dropWhile_append_of_pos (by simpa using h)]

theorem trimRightBy_cons (p : UInt8 → Bool) (b : UInt8) (t : Text) :
    trimRightBy p (b :: t) =
      if trimRightBy p t = [] ∧ p b = true then [] else b :: trimRightBy p t := by
  unfold trimRightBy
  rw [List.reverse_cons, List.dropWhile_append]
  by_cases ht : (t.reverse.dropWhile p) = []
  · by_cases hb : p b = true <;> simp [ht, hb]
  · simp [ht]

theorem trimRightBy_append {word : Text} (h : ∀ b ∈ word, p b = false) (t : Text) :
    trimRightBy p (word ++ t) = word ++ trimRightBy p t := by
  induction word with
  | nil => rfl
  | cons b word ih =>
    obtain ⟨hb, hword⟩ := List.forall_mem_cons.1 h
    rw [List.cons_append, trimRightBy_cons, ih hword, if_neg (by simp [hb]), List.cons_append]

theorem dropWhile_trimRightBy (h : ∀ b, p b = true → q b = true) (t : Text) :
    (trimRightBy q t).dropWhile p = trimRightBy q (t.dropWhile p) := by
  induction t with
  | nil => rfl
  | cons b t ih =>
    by_cases hb : p b = true
    · rw [List.dropWhile_cons_of_pos hb, ← ih, trimRightBy_cons]
      by_cases ht : trimRightBy q t = []
      · rw [if_pos ⟨ht, h b hb⟩, ht]
      · rw [if_neg fun hn => ht hn.1, List.dropWhile_cons_of_pos hb]
    · rw [List.dropWhile_cons_of_neg hb, trimRightBy_cons]
      split
      · rfl
      · rw [List.dropWhile_cons_of_neg hb]

theorem trim_trim (t : Text) : t.trim.trim = t.trim := by
  unfold trim trimBy
  rw [dropWhile_trimRightBy fun _ hb => hb, List.dropWhile_idempotent, trimRightBy_eq_rdropWhile,
    trimRightBy_eq_rdropWhile, List.rdropWhile_idempotent]

theorem head?_trim {t : Text} {b : UInt8} (h : t.trim.head? = some b) : isBlank b = false := by
  unfold trim trimBy at h
  rw [← dropWhile_trimRightBy fun _ hb => hb] at h
  have hnot := List.head?_dropWhile_not isBlank (trimRightBy isBlank t)
  rw [h] at hnot
  simpa using hnot

theorem getLast?_trimRightBy {t : Text} {b : UInt8} (h : (trimRightBy p t).getLast? = some b) :
    p b = false := by
  obtain ⟨hne, rfl⟩ := List.mem_getLast?_eq_getLast h
  rw [Bool.eq_false_iff]
  exact List.rdropWhile_last_not p t hne

theorem trimRightBy_eq_self {t : Text} (h : ∀ b, t.getLast? = some b → p b = false) :
    trimRightBy p t = t := by
  rw [trimRightBy_eq_rdropWhile, List.rdropWhile_eq_self_iff]
  intro hne
  simp [h _ (List.getLast?_eq_some_getLast hne)]

theorem trim_eq_self {t : Text} (hhead : ∀ b, t.head? = some b → isBlank b = false)
    (hlast : ∀ b, t.getLast? = some b → isBlank b = false) : t.trim = t := by
  have hdrop : t.dropWhile isBlank = t := by
    cases t with
    | nil => rfl
    | cons b t => exact List.dropWhile_cons_of_neg (by simp [hhead b rfl])
  rw [trim, trimBy, hdrop, trimRightBy_eq_self hlast]

theorem trim_append {u v : Text} (hu : ∀ b ∈ u, isBlank b = true) (t : Text)
    (hv : ∀ b ∈ v, isBlank b = true) : (u ++ t ++ v).trim = t.trim := by
  unfold trim trimBy
  rw [← dropWhile_trimRightBy fun _ hb => hb, trimRightBy_append_of_forall _ hv,
    dropWhile_trimRightBy fun _ hb => hb, List.dropWhile_append_of_pos hu]

theorem trim_append_of_forall {word : Text} (hne : word ≠ []) (h : ∀ b ∈ word, isBlank b = false)
    (t : Text) : (word ++ t).trim = word ++ trimRightBy isBlank t := by
  obtain ⟨b, rest, rfl⟩ := List.exists_cons_of_ne_nil hne
  have hb := h b List.mem_cons_self
  rw [trim, trimBy, List.cons_append, List.dropWhile_cons_of_neg (by simp [hb]), ← List.cons_append,
    trimRightBy_append h]

/-- A text is its indent, what trimming leaves and blanks behind it. -/
theorem exists_indent_append (t : Text) : ∃ u v, (∀ b ∈ u, isBlank b = true) ∧
    (∀ b ∈ v, isBlank b = true) ∧ u.length = t.indent ∧ t = u ++ t.trim ++ v := by
  obtain ⟨v, hv, hcut⟩ := exists_trimRightBy_append isBlank (t.dropWhile isBlank)
  refine ⟨t.takeWhile isBlank, v, fun b hb => List.mem_takeWhile_imp hb, hv, rfl, ?_⟩
  rw [trim, trimBy, List.append_assoc, ← hcut, List.takeWhile_append_dropWhile]

theorem exists_trim_append (t : Text) : ∃ u v, (∀ b ∈ u, isBlank b = true) ∧
    (∀ b ∈ v, isBlank b = true) ∧ t = u ++ t.trim ++ v := by
  obtain ⟨u, v, hu, hv, -, ht⟩ := exists_indent_append t
  exact ⟨u, v, hu, hv, ht⟩

theorem trim_isInfix (t : Text) : t.trim <:+: t :=
  (List.rdropWhile_prefix isBlank _).isInfix.trans (List.dropWhile_suffix isBlank).isInfix

theorem length_trim_le (t : Text) : t.trim.length ≤ t.length := (trim_isInfix t).length_le

theorem isSpace_of_isBlank {b : UInt8} (h : isBlank b = true) : isSpace b = true := by
  simp only [isBlank, Bool.or_eq_true, beq_iff_eq] at h
  rcases h with rfl | rfl <;> rfl

theorem dropLastByte_of_not_mem {c : UInt8} {t : Text} (h : c ∉ t) : dropLastByte c t = t :=
  if_neg fun hc => h (List.mem_of_getLast? hc)

theorem dropLastByte_isPrefix (c : UInt8) (t : Text) : dropLastByte c t <+: t := by
  unfold dropLastByte
  split
  · exact List.dropLast_prefix t
  · exact List.prefix_rfl

theorem dropLastByte_cons_of_ne {b c : UInt8} (h : b ≠ c) (t : Text) :
    dropLastByte c (b :: t) = b :: dropLastByte c t := by
  cases t with
  | nil => simp [dropLastByte, h]
  | cons d t =>
    unfold dropLastByte
    rw [List.getLast?_cons_cons]
    split <;> rfl

theorem trimRightBy_dropLastByte (c : UInt8) (t : Text) :
    trimRightBy (· == c) (dropLastByte c t) = trimRightBy (· == c) t := by
  unfold dropLastByte
  split
  · rename_i hc
    obtain ⟨rest, rfl⟩ := List.getLast?_eq_some_iff.1 hc
    rw [List.dropLast_concat, trimRightBy_append_of_forall rest (by simp)]
  · rfl

end LineScript.Text
