import LineScript.Lines
import LineScript.Proofs.Fields

/-! The lines that the readers of a script take. Without stray carriage returns all readers see the
same lines, up to blank ones at the end. In every text the lines of a run and those of the linter
agree up to the carriage returns at their ends. -/

namespace LineScript.Lines

/-- Every carriage return stands directly before a line feed. -/
def PairedReturns : Text → Prop
  | [] => True
  | b :: rest => (b = Text.cr → rest.head? = some Text.lf) ∧ PairedReturns rest

instance decidablePairedReturns : (t : Text) → Decidable (PairedReturns t)
  | [] => inferInstanceAs (Decidable True)
  | b :: rest =>
    have := decidablePairedReturns rest
    inferInstanceAs (Decidable ((b = Text.cr → rest.head? = some Text.lf) ∧ PairedReturns rest))

/-- A text without the carriage returns at its end. -/
def withoutReturns (t : Text) : Text := Text.trimRightBy (· == Text.cr) t

theorem joinCrLf_cons (b : UInt8) (rest : Text) :
    joinCrLf (b :: rest) =
      if b = Text.cr ∧ rest.head? = some Text.lf then joinCrLf rest else b :: joinCrLf rest := by
  have hnext : (rest.foldr
      (fun b (rest : Text × Option UInt8) =>
        (if b = Text.cr ∧ rest.2 = some Text.lf then rest.1 else b :: rest.1, some b))
      ([], none)).2 = rest.head? := by
    cases rest <;> rfl
  unfold joinCrLf
  rw [List.foldr_cons, hnext]

theorem cr_not_mem_joinCrLf {t : Text} (h : PairedReturns t) : Text.cr ∉ joinCrLf t := by
  induction t with
  | nil => exact List.not_mem_nil
  | cons b rest ih =>
    rw [joinCrLf_cons]
    split
    · exact ih h.2
    · rename_i hkeep
      rw [List.mem_cons, not_or]
      exact ⟨fun hb => hkeep ⟨hb.symm, h.1 hb.symm⟩, ih h.2⟩

theorem map_returns_of_not_mem {t : Text} (h : Text.cr ∉ t) :
    t.map (fun b => if b = Text.cr then Text.lf else b) = t := by
  refine (List.map_congr_left fun b hb => ?_).trans (List.map_id _)
  have hcr : b ≠ Text.cr := fun hcr => h (hcr ▸ hb)
  simp only [if_neg hcr, id]

theorem universal_eq_divided {t : Text} (h : PairedReturns t) : universal t = divided t := by
  rw [universal, map_returns_of_not_mem (cr_not_mem_joinCrLf h), divided]

theorem not_mem_of_mem_splitOn {t line : Text} {b : UInt8} (h : line ∈ t.splitOn b) : b ∉ line := by
  intro hb
  simpa using eq_false_of_mem_splitOnP h hb

theorem lf_not_mem_of_mem_divided {t line : Text} (h : line ∈ divided t) : Text.lf ∉ line :=
  not_mem_of_mem_splitOn h

theorem infix_of_mem_splitOn {t line : Text} {b : UInt8} (h : line ∈ t.splitOn b) :
    line <:+: t := by
  have key : ∀ lines : List Text, line ∈ lines → line <:+: [b].intercalate lines := by
    intro lines
    induction lines with
    | nil => exact fun hmem => absurd hmem List.not_mem_nil
    | cons first others ih =>
      intro hmem
      cases others with
      | nil =>
        rw [List.mem_singleton.1 hmem]
        exact ⟨[], [], by simp⟩
      | cons second others =>
        rw [List.intercalate_cons_cons]
        rcases List.mem_cons.1 hmem with rfl | hmem
        · rw [List.append_assoc]
          exact (List.prefix_append line _).isInfix
        · exact (ih hmem).trans (List.suffix_append _ _).isInfix
  have hjoin := key (t.splitOn b) h
  rwa [List.intercalate_splitOn] at hjoin

theorem cr_not_mem_of_mem_divided {t line : Text} (h : PairedReturns t) (hline : line ∈ divided t) :
    Text.cr ∉ line :=
  fun hcr => cr_not_mem_joinCrLf h ((infix_of_mem_splitOn hline).subset hcr)

theorem strip_nil : strip [] = [] := rfl

theorem strip_cons_of_ne {b : UInt8} (h : b ≠ Text.cr) (t : Text) :
    strip (b :: t) = b :: strip t := by
  rw [strip, strip, Text.dropLastByte_cons_of_ne h, Text.dropLastByte_cons_of_ne h]

theorem strip_of_not_mem {t : Text} (h : Text.cr ∉ t) : strip t = t := by
  rw [strip, Text.dropLastByte_of_not_mem h, Text.dropLastByte_of_not_mem h]

theorem strip_isPrefix (t : Text) : strip t <+: t :=
  (Text.dropLastByte_isPrefix _ _).trans (Text.dropLastByte_isPrefix _ _)

theorem withoutReturns_strip (t : Text) : withoutReturns (strip t) = withoutReturns t := by
  rw [withoutReturns, strip, Text.trimRightBy_dropLastByte, Text.trimRightBy_dropLastByte,
    withoutReturns]

theorem splitOn_lf_cons (b : UInt8) (rest : Text) :
    (b :: rest).splitOn Text.lf =
      if b = Text.lf then [] :: rest.splitOn Text.lf
      else (rest.splitOn Text.lf).modifyHead (b :: ·) := by
  rw [List.splitOn_cons_eq_if_modifyHead]
  simp only [beq_iff_eq]

theorem map_strip_splitOn {t : Text} (h : PairedReturns t) :
    (t.splitOn Text.lf).map strip = divided t := by
  induction t with
  | nil => rfl
  | cons b rest ih =>
    have ih := ih h.2
    unfold divided at ih ⊢
    rw [joinCrLf_cons]
    -- a carriage return is cut off by both readers, at the line feed behind it or at the line's end
    by_cases hcr : b = Text.cr
    · obtain ⟨rest, rfl⟩ := List.head?_eq_some_iff.1 (h.1 hcr)
      rw [if_pos ⟨hcr, rfl⟩, ← ih, hcr, splitOn_lf_cons, splitOn_lf_cons]
      rfl
    · rw [if_neg fun hn => hcr hn.1, splitOn_lf_cons, splitOn_lf_cons, ← ih]
      split
      · rfl
      · obtain ⟨first, others, hsplit⟩ :=
          List.exists_cons_of_ne_nil (List.splitOn_ne_nil Text.lf rest)
        rw [hsplit, List.modifyHead_cons, List.map_cons, List.map_cons, List.modifyHead_cons,
          strip_cons_of_ne hcr]

/-- The linter's lines and those that line feeds divide differ in carriage returns at their ends
only. -/
theorem map_withoutReturns_divided (t : Text) :
    (divided t).map withoutReturns = (t.splitOn Text.lf).map withoutReturns := by
  induction t with
  | nil => rfl
  | cons b rest ih =>
    unfold divided at ih ⊢
    rw [joinCrLf_cons]
    split
    · rename_i hpair
      obtain ⟨rest, rfl⟩ := List.head?_eq_some_iff.1 hpair.2
      rw [ih, hpair.1, splitOn_lf_cons, splitOn_lf_cons]
      rfl
    · rw [splitOn_lf_cons, splitOn_lf_cons]
      split
      · rw [List.map_cons, ih, List.map_cons]
      · obtain ⟨first, others, hsplit⟩ :=
          List.exists_cons_of_ne_nil (List.splitOn_ne_nil Text.lf rest)
        obtain ⟨first', others', hsplit'⟩ :=
          List.exists_cons_of_ne_nil (List.splitOn_ne_nil Text.lf (joinCrLf rest))
        rw [hsplit, hsplit'] at ih
        rw [hsplit, hsplit']
        -- the byte joins the first line on both sides, and the other lines stay as they are
        obtain ⟨hfirst, hothers⟩ := List.cons.inj ih
        unfold withoutReturns at hfirst
        rw [List.modifyHead_cons, List.modifyHead_cons, List.map_cons, List.map_cons, hothers,
          withoutReturns, withoutReturns, Text.trimRightBy_cons, Text.trimRightBy_cons, hfirst]

theorem map_withoutReturns_strip (t : Text) :
    ((t.splitOn Text.lf).map strip).map withoutReturns = (divided t).map withoutReturns := by
  rw [map_withoutReturns_divided, List.map_map]
  exact List.map_congr_left fun line _ => withoutReturns_strip line

theorem exists_terminated_append (t : Text) :
    ∃ k, t.splitOn Text.lf = terminated t ++ List.replicate k [] := by
  unfold terminated
  by_cases h : (t.splitOn Text.lf).getLast? = some []
  · refine ⟨1, ?_⟩
    obtain ⟨lines, hlines⟩ := List.getLast?_eq_some_iff.1 h
    rw [if_pos h, hlines, List.dropLast_concat]
    rfl
  · exact ⟨0, by rw [if_neg h, List.replicate_zero, List.append_nil]⟩

theorem exists_map_strip_append (t : Text) :
    ∃ k, (t.splitOn Text.lf).map strip = (terminated t).map strip ++ List.replicate k [] := by
  obtain ⟨k, hk⟩ := exists_terminated_append t
  exact ⟨k, by rw [hk, List.map_append, List.map_replicate, strip_nil]⟩

/-- Without stray carriage returns, a run executes the lines of the linter but for a blank last
one. -/
theorem exists_divided_eq_append {t : Text} (h : PairedReturns t) :
    ∃ k, divided t = (terminated t).map strip ++ List.replicate k [] := by
  rw [← map_strip_splitOn h]
  exact exists_map_strip_append t

theorem splitOn_append_replicate (b : UInt8) (t : Text) (k : Nat) :
    (t ++ List.replicate k b).splitOn b = t.splitOn b ++ List.replicate k [] := by
  induction k with
  | zero => rw [List.replicate_zero, List.append_nil, List.replicate_zero, List.append_nil]
  | succ k ih =>
    rw [List.replicate_succ', ← List.append_assoc, List.splitOn_append_cons_self, ih,
      List.append_assoc, List.replicate_succ']
    rfl

theorem terminated_append_lf (t : Text) : terminated (t ++ [Text.lf]) = t.splitOn Text.lf := by
  have hsplit : (t ++ [Text.lf]).splitOn Text.lf = t.splitOn Text.lf ++ [[]] :=
    splitOn_append_replicate Text.lf t 1
  unfold terminated
  rw [hsplit, if_pos (List.getLast?_concat ..), List.dropLast_concat]

theorem length_lt_of_mem_divided {limit : Nat} {t line : Text} (hpos : 0 < limit)
    (hshort : ∀ line ∈ terminated t, line.length < limit) (h : PairedReturns t)
    (hline : line ∈ divided t) : line.length < limit := by
  obtain ⟨k, hk⟩ := exists_divided_eq_append h
  rw [hk, List.mem_append] at hline
  rcases hline with hline | hblank
  · obtain ⟨raw, hraw, rfl⟩ := List.mem_map.1 hline
    exact (strip_isPrefix raw).length_le.trans_lt (hshort raw hraw)
  · rw [List.eq_of_mem_replicate hblank]
    exact hpos

theorem read_eq {limit : Nat} {t : Text} (h : ∀ line ∈ terminated t, line.length < limit) :
    read limit t = ⟨(terminated t).map strip, false⟩ := by
  have hall : (terminated t).takeWhile (·.length < limit) = terminated t := by
    rw [List.takeWhile_eq_self_iff]
    intro line hline
    simpa using h line hline
  have hany : (terminated t).any (limit ≤ ·.length) = false := by
    rw [List.any_eq_false]
    intro line hline
    simpa using h line hline
  rw [read, hall, hany]

/-- A text that is empty or ends in a line feed. -/
def Ended (t : Text) : Prop := t = [] ∨ t.getLast? = some Text.lf

instance (t : Text) : Decidable (Ended t) := inferInstanceAs (Decidable (_ ∨ _))

theorem terminated_append {a : Text} (h : Ended a) (b : Text) :
    terminated (a ++ b) = terminated a ++ terminated b := by
  rcases h with rfl | hlast
  · rfl
  · obtain ⟨front, rfl⟩ := List.getLast?_eq_some_iff.1 hlast
    have hsplit : (front ++ [Text.lf] ++ b).splitOn Text.lf =
        front.splitOn Text.lf ++ b.splitOn Text.lf := by
      rw [List.append_assoc, List.singleton_append, List.splitOn_append_cons_self]
    have hne := List.splitOn_ne_nil Text.lf b
    rw [terminated_append_lf, terminated, terminated, hsplit,
      List.getLast?_append_of_ne_nil _ hne, List.dropLast_append_of_ne_nil hne]
    split <;> rfl

theorem overlong_read (limit : Nat) (t : Text) :
    (read limit t).overlong = true ↔ ∃ line ∈ terminated t, limit ≤ line.length := by
  simp [read]

theorem forall_length_lt {limit : Nat} {t : Text} (h : (read limit t).overlong = false) :
    ∀ line ∈ terminated t, line.length < limit := by
  intro line hline
  by_contra hlong
  rw [Bool.eq_false_iff, Ne, overlong_read] at h
  exact h ⟨line, hline, Nat.not_lt.1 hlong⟩

theorem read_append_of_overlong {limit : Nat} {a : Text} (h : Ended a)
    (hlong : (read limit a).overlong = true) (b : Text) : read limit (a ++ b) = read limit a := by
  obtain ⟨line, hline, hlength⟩ := (overlong_read limit a).1 hlong
  have hstops : ¬ ((terminated a).takeWhile (·.length < limit)).length = (terminated a).length := by
    intro hall
    have hself := (List.takeWhile_prefix _).eq_of_length hall
    have hlt := List.takeWhile_eq_self_iff.1 hself line hline
    exact Nat.not_le.2 (by simpa using hlt) hlength
  have hany : (terminated a).any (limit ≤ ·.length) = true := hlong
  rw [read, read, terminated_append h, List.takeWhile_append, if_neg hstops, List.any_append, hany,
    Bool.true_or]

theorem read_append_of_short {limit : Nat} {a : Text} (h : Ended a)
    (hshort : (read limit a).overlong = false) (b : Text) :
    read limit (a ++ b) =
      ⟨(read limit a).lines ++ (read limit b).lines, (read limit b).overlong⟩ := by
  have hlines := forall_length_lt hshort
  have hall : ∀ line ∈ terminated a, decide (line.length < limit) = true := by
    simpa using hlines
  have hany : (terminated a).any (limit ≤ ·.length) = false := by
    rw [List.any_eq_false]
    simpa using hlines
  rw [read_eq hlines, read, read, terminated_append h, List.takeWhile_append_of_pos hall,
    List.map_append, List.any_append, hany, Bool.false_or]

/-- The first lines of a text, each ended by a line feed. -/
def firstLines (k : Nat) (t : Text) : Text := ((terminated t).take k).flatMap (· ++ [Text.lf])

theorem lf_not_mem_of_mem_terminated {t line : Text} (h : line ∈ terminated t) :
    Text.lf ∉ line := by
  obtain ⟨k, hk⟩ := exists_terminated_append t
  exact not_mem_of_mem_splitOn (hk ▸ List.mem_append_left _ h)

theorem terminated_flatMap {lines : List Text} (h : ∀ line ∈ lines, Text.lf ∉ line) :
    terminated (lines.flatMap (· ++ [Text.lf])) = lines := by
  induction lines with
  | nil => rfl
  | cons line lines ih =>
    obtain ⟨hline, hlines⟩ := List.forall_mem_cons.1 h
    have hended : Ended (line ++ [Text.lf]) := Or.inr (List.getLast?_concat ..)
    rw [List.flatMap_cons, terminated_append hended, terminated_append_lf,
      List.splitOn_eq_singleton hline, ih hlines, List.singleton_append]

theorem terminated_firstLines (k : Nat) (t : Text) :
    terminated (firstLines k t) = (terminated t).take k :=
  terminated_flatMap fun _ hline => lf_not_mem_of_mem_terminated (List.mem_of_mem_take hline)

/-- A reader that takes the first lines of a text takes them first of the whole text. -/
theorem read_firstLines_isPrefix {limit k : Nat} {t : Text}
    (h : (read limit (firstLines k t)).overlong = false) :
    (read limit (firstLines k t)).lines <+: (read limit t).lines := by
  have hshort := forall_length_lt h
  have hread := read_eq hshort
  rw [terminated_firstLines] at hshort hread
  have hall : ∀ line ∈ (terminated t).take k, decide (line.length < limit) = true := by
    simpa using hshort
  refine ⟨(((terminated t).drop k).takeWhile (·.length < limit)).map strip, ?_⟩
  rw [hread, ← List.map_append, ← List.takeWhile_append_of_pos hall, List.take_append_drop]
  rfl

end LineScript.Lines
