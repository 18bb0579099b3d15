import LineScript.Declaration
import LineScript.Proofs.Text.Trim

/-! The fields of a line are the nonempty pieces between its white space, each with the offset at
which it stands. They come back from words that are joined by single blanks, and a declaration means
what its fields say. -/

namespace LineScript

section Pieces
variable {p : UInt8 → Bool}

theorem eq_false_of_mem_splitOnP {t piece : Text} (h : piece ∈ t.splitOnP p) {b : UInt8}
    (hb : b ∈ piece) : p b = false := by
  induction t generalizing piece with
  | nil => simp_all
  | cons c t ih =>
    obtain ⟨first, others, hsplit⟩ := List.exists_cons_of_ne_nil (List.splitOnP_ne_nil p t)
    rw [List.splitOnP_cons_eq_if_modifyHead, hsplit] at h
    rw [hsplit] at ih
    by_cases hc : p c = true
    · rw [if_pos hc] at h
      rcases List.mem_cons.1 h with rfl | h
      · exact absurd hb List.not_mem_nil
      · exact ih h hb
    · rw [if_neg hc, List.modifyHead_cons] at h
      rcases List.mem_cons.1 h with rfl | h
      · rcases List.mem_cons.1 hb with rfl | hb
        · simpa using hc
        · exact ih List.mem_cons_self hb
      · exact ih (List.mem_cons_of_mem first h) hb

theorem subset_of_mem_splitOnP {t piece : Text} (h : piece ∈ t.splitOnP p) : piece ⊆ t := by
  induction t generalizing piece with
  | nil => simp_all
  | cons c t ih =>
    obtain ⟨first, others, hsplit⟩ := List.exists_cons_of_ne_nil (List.splitOnP_ne_nil p t)
    rw [List.splitOnP_cons_eq_if_modifyHead, hsplit] at h
    rw [hsplit] at ih
    split at h
    · rcases List.mem_cons.1 h with rfl | h
      · exact List.nil_subset _
      · exact List.subset_cons_of_subset c (ih h)
    · rcases List.mem_cons.1 h with rfl | h
      · exact List.cons_subset_cons c (ih List.mem_cons_self)
      · exact List.subset_cons_of_subset c (ih (List.mem_cons_of_mem first h))

theorem splitOnP_append_of_forall {t : Text} (h : ∀ b ∈ t, p b = false) (rest : Text) :
    (t ++ rest).splitOnP p = (rest.splitOnP p).modifyHead (t ++ ·) := by
  obtain ⟨first, others, hsplit⟩ := List.exists_cons_of_ne_nil (List.splitOnP_ne_nil p rest)
  rw [hsplit]
  induction t with
  | nil => exact hsplit
  | cons c t ih =>
    obtain ⟨hc, ht⟩ := List.forall_mem_cons.1 h
    rw [List.cons_append, List.splitOnP_cons_eq_if_modifyHead, ih ht, hc]
    rfl

theorem joinWith_singleton (separator w : Text) : Text.joinWith separator [w] = w :=
  List.intercalate_singleton

theorem joinWith_cons_cons (separator : UInt8) (w w' : Text) (words : List Text) :
    Text.joinWith [separator] (w :: w' :: words) =
      w ++ separator :: Text.joinWith [separator] (w' :: words) := by
  rw [Text.joinWith, List.intercalate_cons_cons, List.append_assoc]
  rfl

theorem mem_joinWith {separator b : UInt8} {words : List Text}
    (h : b ∈ Text.joinWith [separator] words) : b = separator ∨ ∃ w ∈ words, b ∈ w := by
  induction words with
  | nil => exact absurd h List.not_mem_nil
  | cons w words ih =>
    cases words with
    | nil => exact Or.inr ⟨w, List.mem_singleton_self w, joinWith_singleton _ w ▸ h⟩
    | cons w' words =>
      rw [joinWith_cons_cons, List.mem_append, List.mem_cons] at h
      rcases h with hw | hs | hrest
      · exact Or.inr ⟨w, List.mem_cons_self, hw⟩
      · exact Or.inl hs
      · rcases ih hrest with hb | ⟨v, hv, hb⟩
        · exact Or.inl hb
        · exact Or.inr ⟨v, List.mem_cons_of_mem w hv, hb⟩

theorem splitOnP_joinWith {separator : UInt8} (hs : p separator = true) {words : List Text}
    (hw : ∀ w ∈ words, ∀ b ∈ w, p b = false) (hne : words ≠ []) :
    (Text.joinWith [separator] words).splitOnP p = words := by
  induction words with
  | nil => exact absurd rfl hne
  | cons w words ih =>
    obtain ⟨hfirst, hothers⟩ := List.forall_mem_cons.1 hw
    cases words with
    | nil =>
      rw [joinWith_singleton]
      exact List.splitOnP_eq_singleton hfirst
    | cons w' words =>
      rw [joinWith_cons_cons, List.splitOnP_append_cons_of_forall_mem hfirst separator hs,
        ih hothers (List.cons_ne_nil _ _)]

/-- The room that words take up, each with a separator after it. -/
def Text.room : List Text → Nat
  | [] => 0
  | w :: words => w.length + 1 + room words

theorem room_splitOnP (p : UInt8 → Bool) (t : Text) : Text.room (t.splitOnP p) = t.length + 1 := by
  induction t with
  | nil => rfl
  | cons c t ih =>
    rw [List.splitOnP_cons_eq_if_modifyHead]
    split
    · rw [Text.room, ih, List.length_cons, List.length_nil]
      omega
    · obtain ⟨first, others, hsplit⟩ := List.exists_cons_of_ne_nil (List.splitOnP_ne_nil p t)
      rw [hsplit, Text.room] at ih
      rw [hsplit, List.modifyHead_cons, Text.room, List.length_cons, List.length_cons]
      omega

theorem length_joinWith_le (separator : UInt8) (words : List Text) :
    (Text.joinWith [separator] words).length ≤ Text.room words - 1 := by
  induction words with
  | nil => exact Nat.zero_le _
  | cons w words ih =>
    cases words with
    | nil => simp [joinWith_singleton, Text.room]
    | cons w' words =>
      rw [joinWith_cons_cons, List.length_append, List.length_cons]
      simp only [Text.room] at ih ⊢
      omega

theorem room_filter_le (words : List Text) :
    Text.room (words.filter (· ≠ [])) ≤ Text.room words := by
  induction words with
  | nil => exact Nat.le_refl _
  | cons w words ih =>
    rw [List.filter_cons]
    split <;> simp only [Text.room] <;> omega

end Pieces

/-- Text that can be a field of a line. -/
structure Text.IsWord (t : Text) : Prop where
  ne_nil : t ≠ []
  isSpace : ∀ b ∈ t, Text.isSpace b = false

instance (t : Text) : Decidable t.IsWord :=
  decidable_of_iff (t ≠ [] ∧ t.all (!Text.isSpace ·) = true)
    ⟨fun h => ⟨h.1, by simpa using h.2⟩, fun h => ⟨h.ne_nil, by simpa using h.isSpace⟩⟩

theorem Text.IsWord.trim {t : Text} (h : t.IsWord) : t.trim = t := by
  have hblank : ∀ b ∈ t, isBlank b = false := by
    intro b hb
    by_contra hnot
    have hspace := isSpace_of_isBlank (by simpa using hnot)
    exact absurd (hspace.symm.trans (h.isSpace b hb)) (by simp)
  exact trim_eq_self (fun b hb => hblank b (List.mem_of_head? hb))
    (fun b hb => hblank b (List.mem_of_getLast? hb))

/-- Goes through a text from each white-space byte of it to the next. -/
theorem Text.space_induction {motive : Text → Prop}
    (piece : ∀ t, (∀ b ∈ t, isSpace b = false) → motive t)
    (cut : ∀ t b rest, (∀ c ∈ t, isSpace c = false) → isSpace b = true → motive rest →
      motive (t ++ b :: rest)) (t : Text) : motive t := by
  induction hn : t.length using Nat.strongRecOn generalizing t with
  | ind n ih =>
    have hsplit : t = t.takeWhile (!isSpace ·) ++ t.dropWhile (!isSpace ·) :=
      List.takeWhile_append_dropWhile.symm
    have hfront : ∀ b ∈ t.takeWhile (!isSpace ·), isSpace b = false := by
      intro b hb
      simpa using List.mem_takeWhile_imp hb
    cases hrest : t.dropWhile (!isSpace ·) with
    | nil =>
      rw [hrest, List.append_nil] at hsplit
      rw [hsplit]
      exact piece _ hfront
    | cons b rest =>
      have hb : isSpace b = true := by
        have hnot := List.head?_dropWhile_not (!isSpace ·) t
        rw [hrest] at hnot
        simpa using hnot
      have hlength := congrArg List.length hsplit
      rw [hrest, List.length_append, List.length_cons] at hlength
      rw [hsplit, hrest]
      exact cut _ b rest hfront hb (ih rest.length (by omega) rest rfl)

namespace Line

theorem isSpace_of_mem_echoKeyword {b : UInt8} (h : b ∈ echoKeyword) : Text.isSpace b = false := by
  have hall : echoKeyword.all (fun b => !Text.isSpace b) = true := by decide
  simpa using List.all_eq_true.1 hall b h

theorem isSpace_of_mem_keyword {word : Text} (h : word ∈ declarationKeywords) :
    ∀ b ∈ word, Text.isSpace b = false := by
  have hall : declarationKeywords.all (·.all fun b => !Text.isSpace b) = true := by decide
  intro b hb
  simpa using List.all_eq_true.1 (List.all_eq_true.1 hall word h) b hb

theorem map_text_locateFrom (start : Nat) (seen : List Field) (pieces : List Text) :
    (locateFrom start seen pieces).map (·.text) = (seen.map (·.text)).reverse ++ pieces := by
  induction pieces generalizing start seen with
  | nil => simp [locateFrom]
  | cons piece rest ih =>
    rw [locateFrom, ih]
    simp

/-- A field of a line as a field of a longer one. -/
def Field.shift (n : Nat) (f : Field) : Field := ⟨n + f.start, f.text⟩

theorem Field.shift_zero : Field.shift 0 = id := by
  funext f
  rw [shift, Nat.zero_add, id]

theorem Field.shift_shift (m n : Nat) (f : Field) : (f.shift n).shift m = f.shift (m + n) := by
  simp only [shift, Nat.add_assoc]

theorem locateFrom_eq (start : Nat) (seen : List Field) (pieces : List Text) :
    locateFrom start seen pieces =
      seen.reverse ++ (locateFrom 0 [] pieces).map (Field.shift start) := by
  induction pieces generalizing start seen with
  | nil => simp [locateFrom]
  | cons piece rest ih =>
    rw [locateFrom, ih, locateFrom, ih (0 + piece.length + 1)]
    simp [Field.shift, Function.comp_def, Nat.add_assoc]

theorem locateFrom_append (start : Nat) (seen : List Field) (pieces more : List Text) :
    locateFrom start seen (pieces ++ more) =
      locateFrom (start + Text.room pieces) (locateFrom start seen pieces).reverse more := by
  induction pieces generalizing start seen with
  | nil => simp [locateFrom, Text.room]
  | cons piece rest ih =>
    rw [List.cons_append, locateFrom, locateFrom, ih, Text.room]
    congr 1
    omega

theorem fields_append_cons (t rest : Text) {b : UInt8} (h : Text.isSpace b = true) :
    fields (t ++ b :: rest) = fields t ++ (fields rest).map (Field.shift (t.length + 1)) := by
  rw [fields, List.splitOnP_append_cons t rest h, locateFrom_append, locateFrom_eq,
    List.reverse_reverse, room_splitOnP, Nat.zero_add, List.filter_append, List.filter_map]
  rfl

theorem fields_append_spaces (t : Text) {rest : Text} (h : ∀ b ∈ rest, Text.isSpace b = true) :
    fields (t ++ rest) = fields t := by
  induction rest generalizing t with
  | nil => rw [List.append_nil]
  | cons b rest ih =>
    obtain ⟨hb, hrest⟩ := List.forall_mem_cons.1 h
    have hnil : fields rest = [] := ih [] hrest
    rw [fields_append_cons t rest hb, hnil, List.map_nil, List.append_nil]

theorem fields_spaces_append {front : Text} (h : ∀ b ∈ front, Text.isSpace b = true) (t : Text) :
    fields (front ++ t) = (fields t).map (Field.shift front.length) := by
  induction front with
  | nil => rw [List.nil_append, List.length_nil, Field.shift_zero, List.map_id]
  | cons b front ih =>
    obtain ⟨hb, hfront⟩ := List.forall_mem_cons.1 h
    have hnil : fields [] = [] := rfl
    have hcut := fields_append_cons [] (front ++ t) hb
    rw [List.nil_append, hnil, List.nil_append, ih hfront, List.map_map] at hcut
    rw [List.cons_append, hcut, List.length_cons, Nat.add_comm front.length]
    exact List.map_congr_left fun f _ => Field.shift_shift ..

theorem fields_trim (raw : Text) :
    fields raw = (fields raw.trim).map (Field.shift raw.indent) := by
  obtain ⟨u, v, hu, hv, hindent, hraw⟩ := Text.exists_indent_append raw
  have hspaces := fields_append_spaces (u ++ raw.trim) fun b hb => Text.isSpace_of_isBlank (hv b hb)
  rw [← hraw, fields_spaces_append fun b hb => Text.isSpace_of_isBlank (hu b hb)] at hspaces
  rw [hspaces, hindent]

theorem fields_of_forall {t : Text} (h : ∀ b ∈ t, Text.isSpace b = false) {f : Field}
    (hf : f ∈ fields t) : f = ⟨0, t⟩ := by
  rw [fields, List.splitOnP_eq_singleton h, List.mem_filter] at hf
  simpa [locateFrom] using hf.1

theorem fields_of_isWord {word : Text} (h : word.IsWord) : fields word = [⟨0, word⟩] := by
  rw [fields, List.splitOnP_eq_singleton h.isSpace]
  simp [locateFrom, h.ne_nil]

/-- A field stands in its line where it starts, and reaches from white space to white space. -/
theorem exists_of_mem_fields {line : Text} {f : Field} (h : f ∈ fields line) :
    ∃ before after, line = before ++ f.text ++ after ∧ before.length = f.start ∧
      (∀ b, before.getLast? = some b → Text.isSpace b = true) ∧
      ∀ b, after.head? = some b → Text.isSpace b = true := by
  induction line using Text.space_induction generalizing f with
  | piece t hword =>
    obtain rfl := fields_of_forall hword h
    exact ⟨[], [], by simp, rfl, by simp, by simp⟩
  | cut t b rest hword hb ih =>
    rw [fields_append_cons t rest hb, List.mem_append, List.mem_map] at h
    rcases h with h | ⟨g, hg, rfl⟩
    · obtain rfl := fields_of_forall hword h
      exact ⟨[], b :: rest, rfl, rfl, by simp, by simpa using hb⟩
    · obtain ⟨before, after, rfl, hstart, hbefore, hafter⟩ := ih hg
      refine ⟨t ++ b :: before, after, by simp [Field.shift], ?_, fun c hc => ?_, hafter⟩
      · simp only [Field.shift, List.length_append, List.length_cons]
        omega
      · rw [List.getLast?_append_cons] at hc
        cases before with
        | nil => exact Option.some.inj hc ▸ hb
        | cons a before => exact hbefore c ((List.getLast?_cons_cons).symm.trans hc)

theorem isPrefix_drop_of_mem_fields {line : Text} {f : Field} (h : f ∈ fields line) :
    f.text <+: line.drop f.start := by
  obtain ⟨before, after, hline, hstart, -⟩ := exists_of_mem_fields h
  refine ⟨after, ?_⟩
  rw [hline, List.append_assoc, List.drop_left' hstart]

theorem fieldTexts_eq (line : Text) :
    fieldTexts line = (line.splitOnP Text.isSpace).filter (· ≠ []) := by
  have h : (fun f : Field => decide (f.text ≠ [])) =
      (fun t : Text => decide (t ≠ [])) ∘ (·.text) := rfl
  rw [fieldTexts, fields, h, ← List.filter_map, map_text_locateFrom]
  rfl

theorem ne_nil_of_mem_fieldTexts {line word : Text} (h : word ∈ fieldTexts line) : word ≠ [] := by
  rw [fieldTexts_eq, List.mem_filter] at h
  simpa using h.2

theorem isSpace_of_mem_fieldTexts {line word : Text} (h : word ∈ fieldTexts line) {b : UInt8}
    (hb : b ∈ word) : Text.isSpace b = false := by
  rw [fieldTexts_eq, List.mem_filter] at h
  exact eq_false_of_mem_splitOnP h.1 hb

theorem isWord_of_mem_fieldTexts {line word : Text} (h : word ∈ fieldTexts line) : word.IsWord :=
  ⟨ne_nil_of_mem_fieldTexts h, fun _ hb => isSpace_of_mem_fieldTexts h hb⟩

theorem subset_of_mem_fieldTexts {line word : Text} (h : word ∈ fieldTexts line) : word ⊆ line := by
  rw [fieldTexts_eq, List.mem_filter] at h
  exact subset_of_mem_splitOnP h.1

/-- A word at the start of a line is at the start of its first field. -/
theorem exists_fieldTexts_eq_cons {word : Text} (hne : word ≠ [])
    (h : ∀ b ∈ word, Text.isSpace b = false) (rest : Text) :
    ∃ more others, fieldTexts (word ++ rest) = (word ++ more) :: others := by
  obtain ⟨first, others, hsplit⟩ :=
    List.exists_cons_of_ne_nil (List.splitOnP_ne_nil Text.isSpace rest)
  refine ⟨first, others.filter (· ≠ []), ?_⟩
  rw [fieldTexts_eq, splitOnP_append_of_forall h, hsplit, List.modifyHead_cons,
    List.filter_cons_of_pos (by simp [hne])]

theorem fieldTexts_trim (raw : Text) : fieldTexts raw.trim = fieldTexts raw := by
  rw [fieldTexts, fieldTexts, fields_trim raw, List.map_map]
  rfl

theorem fieldTexts_append_spaces (t : Text) {rest : Text}
    (h : ∀ b ∈ rest, Text.isSpace b = true) : fieldTexts (t ++ rest) = fieldTexts t := by
  rw [fieldTexts, fields_append_spaces t h, fieldTexts]

/-- Words come back from the text in which they are one blank apart. -/
theorem fieldTexts_joinWith {words : List Text} (hne : ∀ w ∈ words, w ≠ [])
    (hw : ∀ w ∈ words, ∀ b ∈ w, Text.isSpace b = false) :
    fieldTexts (Text.joinWith [0x20] words) = words := by
  by_cases h : words = []
  · subst h
    rfl
  · rw [fieldTexts_eq, splitOnP_joinWith (by decide) hw h, List.filter_eq_self]
    intro w hmem
    simpa using hne w hmem

theorem fieldTexts_of_isWord {word : Text} (h : word.IsWord) : fieldTexts word = [word] := by
  rw [fieldTexts, fields_of_isWord h]
  rfl

theorem length_joinWith_fieldTexts_le (line : Text) :
    (Text.joinWith [0x20] (fieldTexts line)).length ≤ line.length := by
  have hjoin := length_joinWith_le 0x20 (fieldTexts line)
  have hfilter : Text.room (fieldTexts line) ≤ line.length + 1 := by
    rw [fieldTexts_eq, ← room_splitOnP Text.isSpace line]
    exact room_filter_le _
  omega

end Line

namespace Declaration

theorem keyword_ofLine (line : Text) :
    (ofLine line).keyword = (Line.fieldTexts line)[0]?.getD [] := by
  simp [ofLine, Line.fieldTexts]

theorem type_ofLine (line : Text) : (ofLine line).type = (Line.fieldTexts line)[1]?.getD [] := by
  simp [ofLine, Line.fieldTexts]

theorem identifier_ofLine (line : Text) :
    (ofLine line).identifier = (Line.fieldTexts line)[2]?.getD [] := by
  simp [ofLine, Line.fieldTexts]

theorem equals_ofLine (line : Text) :
    (ofLine line).equals = (Line.fieldTexts line)[3]?.getD [] := by
  simp [ofLine, Line.fieldTexts]

theorem value_ofLine (line : Text) : (ofLine line).value = (Line.fieldTexts line)[4]?.getD [] := by
  simp [ofLine, Line.fieldTexts]

end Declaration

/-- What a declaration does depends on its fields alone, not on what stands between them. -/
theorem Store.assign_congr (s : Store) {line line' : Text}
    (h : Line.fieldTexts line = Line.fieldTexts line') : s.assign line = s.assign line' := by
  simp only [Store.assign, Declaration.run, Declaration.effect?, Declaration.keyword_ofLine,
    Declaration.type_ofLine, Declaration.identifier_ofLine, Declaration.value_ofLine, h]

end LineScript
