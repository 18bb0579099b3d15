import LineScript.Proofs.Fields
import Mathlib.Data.List.Pairwise

/-! How a line is cut into fields. Its fields are its maximal words: they stand in order with white
space between each two, and leave no byte over but white space. There is one way only to cut a line
like that. So words come back from any line in which they are set out with white space, and a
declaration has the first five of them as its parts. -/

namespace LineScript

theorem getElem?_append_cons_right (t : Text) (b : UInt8) (rest : Text) (i : Nat) :
    (t ++ b :: rest)[t.length + 1 + i]? = rest[i]? := by
  rw [List.getElem?_append_right (by omega)]
  have hindex : t.length + 1 + i - t.length = i + 1 := by omega
  rw [hindex, List.getElem?_cons_succ]

/-- The white space between fields: tab, line feed, vertical tab, form feed, carriage return and
space. -/
theorem Text.isSpace_iff {b : UInt8} :
    isSpace b = true ↔ b ∈ ([0x09, 0x0a, 0x0b, 0x0c, 0x0d, 0x20] : Text) := by
  simp only [isSpace, Bool.or_eq_true, Bool.and_eq_true, beq_iff_eq, decide_eq_true_eq,
    UInt8.le_iff_toNat_le, List.mem_cons, List.not_mem_nil, or_false, ← UInt8.toNat_inj,
    UInt8.reduceToNat]
  omega

namespace Line

theorem Field.shift_comp (m n : Nat) : Field.shift m ∘ Field.shift n = Field.shift (m + n) := by
  funext f
  exact Field.shift_shift m n f

/-- A word is a field where white space, or nothing, stands before it and behind it. -/
theorem fields_append_word_append {before word after : Text} (hword : word.IsWord)
    (hbefore : ∀ b, before.getLast? = some b → Text.isSpace b = true)
    (hafter : ∀ b, after.head? = some b → Text.isSpace b = true) :
    fields (before ++ word ++ after) = fields before ++
      ⟨before.length, word⟩ :: (fields after).map (Field.shift (before.length + word.length)) := by
  have hright : fields (word ++ after) =
      ⟨0, word⟩ :: (fields after).map (Field.shift word.length) := by
    cases after with
    | nil => rw [List.append_nil, fields_of_isWord hword]; rfl
    | cons b after =>
      have hb : Text.isSpace b = true := hafter b rfl
      have hspace := fields_spaces_append (List.forall_mem_singleton.2 hb) after
      rw [List.singleton_append, List.length_singleton] at hspace
      rw [fields_append_cons word after hb, fields_of_isWord hword, hspace, List.map_map,
        Field.shift_comp, List.singleton_append]
  rw [List.append_assoc]
  rcases List.eq_nil_or_concat' before with rfl | ⟨front, b, rfl⟩
  · rw [List.nil_append, hright, List.length_nil, Nat.zero_add]
    rfl
  · have hb : Text.isSpace b = true := hbefore b (by simp)
    rw [fields_append_spaces front (List.forall_mem_singleton.2 hb), List.append_assoc,
      List.singleton_append, fields_append_cons front _ hb, hright, List.map_cons, List.map_map,
      Field.shift_comp, List.length_append, List.length_singleton]
    rfl

/-- Where a field ends: the offset of the byte behind it. -/
def Field.stop (f : Field) : Nat := f.start + f.text.length

theorem Field.start_le_stop (f : Field) : f.start ≤ f.stop := Nat.le_add_right ..

theorem Field.stop_shift (f : Field) (n : Nat) : (f.shift n).stop = n + f.stop := Nat.add_assoc ..

/-- A field is a word of the line that cannot be made longer. -/
structure Field.IsMaximal (line : Text) (f : Field) : Prop where
  isWord : f.text.IsWord
  stands : ∃ before after, line = before ++ f.text ++ after ∧ before.length = f.start ∧
    (∀ b, before.getLast? = some b → Text.isSpace b = true) ∧
    ∀ b, after.head? = some b → Text.isSpace b = true

theorem mem_fields_iff {line : Text} {f : Field} : f ∈ fields line ↔ f.IsMaximal line := by
  constructor
  · intro h
    exact ⟨isWord_of_mem_fieldTexts (List.mem_map_of_mem h), exists_of_mem_fields h⟩
  · rintro ⟨hword, before, after, rfl, hstart, hbefore, hafter⟩
    have hfield : f = ⟨before.length, f.text⟩ := by rw [hstart]
    rw [fields_append_word_append hword hbefore hafter]
    exact List.mem_append_right _ (hfield ▸ List.mem_cons_self)

/-- White space of the text stands behind one field and before another. -/
def Parted (t : Text) (f g : Field) : Prop :=
  ∃ i b, f.stop ≤ i ∧ i < g.start ∧ t[i]? = some b ∧ Text.isSpace b = true

section Parted
variable {t : Text} {f g : Field}

theorem Parted.stop_lt (h : Parted t f g) : f.stop < g.start := by
  obtain ⟨i, b, hstop, hstart, -⟩ := h
  exact Nat.lt_of_le_of_lt hstop hstart

theorem Parted.ne (h : Parted t f g) : f ≠ g := by
  rintro rfl
  exact absurd h.stop_lt (Nat.not_lt.2 f.start_le_stop)

theorem Parted.shift (h : Parted t f g) (front : Text) (b : UInt8) :
    Parted (front ++ b :: t) (f.shift (front.length + 1)) (g.shift (front.length + 1)) := by
  obtain ⟨i, c, hstop, hstart, hc, hspace⟩ := h
  refine ⟨front.length + 1 + i, c, ?_, Nat.add_lt_add_left hstart _, ?_, hspace⟩
  · rw [Field.stop_shift]
    exact Nat.add_le_add_left hstop _
  · rw [getElem?_append_cons_right, hc]

end Parted

/-- Fields cut a text: each is a word that stands in it, white space is between each two of them,
which are in order, and every byte that is no white space belongs to one of them. -/
structure Cuts (t : Text) (fs : List Field) : Prop where
  stands : ∀ f ∈ fs, t.extract f.start f.stop = f.text
  isWord : ∀ f ∈ fs, f.text.IsWord
  parted : fs.Pairwise (Parted t)
  covered : ∀ i b, t[i]? = some b → Text.isSpace b = false →
    ∃ f ∈ fs, f.start ≤ i ∧ i < f.stop

theorem extract_of_mem_fields {line : Text} {f : Field} (h : f ∈ fields line) :
    line.extract f.start f.stop = f.text := by
  rw [List.extract, Field.stop, Nat.add_sub_cancel_left]
  exact (List.prefix_iff_eq_take.1 (isPrefix_drop_of_mem_fields h)).symm

theorem pairwise_parted_piece {t : Text} (h : ∀ b ∈ t, Text.isSpace b = false) (line : Text) :
    (fields t).Pairwise (Parted line) := by
  rcases eq_or_ne t [] with rfl | hne
  · exact List.Pairwise.nil
  · rw [fields_of_isWord ⟨hne, h⟩]
    exact List.pairwise_singleton _ _

theorem pairwise_parted_fields (line : Text) : (fields line).Pairwise (Parted line) := by
  induction line using Text.space_induction with
  | piece t h => exact pairwise_parted_piece h t
  | cut t b rest h hb ih =>
    rw [fields_append_cons t rest hb]
    refine List.pairwise_append.2 ⟨pairwise_parted_piece h _, ?_, ?_⟩
    · exact List.pairwise_map.2 (ih.imp fun hparted => hparted.shift t b)
    · -- the white space after the first piece parts it from all that follows
      intro f hf g hg
      obtain ⟨g, -, rfl⟩ := List.mem_map.1 hg
      obtain rfl := fields_of_forall h hf
      refine ⟨t.length, b, Nat.le_of_eq (Nat.zero_add _), ?_, by simp, hb⟩
      exact Nat.lt_of_lt_of_le (Nat.lt_succ_self _) (Nat.le_add_right ..)

theorem covered_piece {t : Text} (h : ∀ b ∈ t, Text.isSpace b = false) {i : Nat}
    (hi : i < t.length) : ∃ f ∈ fields t, f.start ≤ i ∧ i < f.stop := by
  have hne : t ≠ [] := List.ne_nil_of_length_pos (Nat.zero_lt_of_lt hi)
  rw [fields_of_isWord ⟨hne, h⟩]
  refine ⟨⟨0, t⟩, List.mem_singleton_self _, Nat.zero_le i, ?_⟩
  rwa [Field.stop, Nat.zero_add]

theorem covered_fields {t : Text} {i : Nat} {b : UInt8} (hi : t[i]? = some b)
    (hb : Text.isSpace b = false) : ∃ f ∈ fields t, f.start ≤ i ∧ i < f.stop := by
  induction t using Text.space_induction generalizing i with
  | piece front h => exact covered_piece h (List.getElem?_eq_some_iff.1 hi).1
  | cut front c rest h hc ih =>
    rw [fields_append_cons front rest hc]
    rcases Nat.lt_trichotomy i front.length with hlt | rfl | hgt
    · obtain ⟨f, hf, hcovers⟩ := covered_piece h hlt
      exact ⟨f, List.mem_append_left _ hf, hcovers⟩
    · have hsame : some c = some b := by simpa using hi
      rw [Option.some_inj.1 hsame, hb] at hc
      exact Bool.noConfusion hc
    · obtain ⟨j, rfl⟩ := Nat.exists_eq_add_of_le hgt
      rw [getElem?_append_cons_right] at hi
      obtain ⟨f, hf, hstart, hstop⟩ := ih hi
      refine ⟨f.shift (front.length + 1), List.mem_append_right _ (List.mem_map_of_mem hf), ?_, ?_⟩
      · exact Nat.add_le_add_left hstart _
      · rw [Field.stop_shift]
        exact Nat.add_lt_add_left hstop _

theorem cuts_fields (line : Text) : Cuts line (fields line) where
  stands _ hf := extract_of_mem_fields hf
  isWord _ hf := isWord_of_mem_fieldTexts (List.mem_map_of_mem hf)
  parted := pairwise_parted_fields line
  covered _ _ := covered_fields

/-- There is something between two fields, whichever comes first. -/
def Apart (f g : Field) : Prop := f.stop < g.start ∨ g.stop < f.start

instance : Std.Symm Apart := ⟨fun _ _ => Or.symm⟩

namespace Cuts
variable {t : Text} {fs : List Field} {f g : Field}

theorem apart (h : Cuts t fs) (hf : f ∈ fs) (hg : g ∈ fs) (hne : f ≠ g) : Apart f g := by
  have hapart : fs.Pairwise Apart := h.parted.imp fun hparted => Or.inl hparted.stop_lt
  exact hapart.forall hf hg hne

/-- What stands next to a field is no part of a field, so that it is white space. -/
theorem isSpace_beside (h : Cuts t fs) (hf : f ∈ fs) {i : Nat} {b : UInt8}
    (hi : i + 1 = f.start ∨ i = f.stop) (hb : t[i]? = some b) : Text.isSpace b = true := by
  by_contra hspace
  obtain ⟨g, hg, hstart, hstop⟩ := h.covered i b hb (by simpa using hspace)
  have hle := f.start_le_stop
  rcases eq_or_ne f g with rfl | hne
  · omega
  · rcases h.apart hf hg hne with hbefore | hbehind <;> omega

theorem isMaximal (h : Cuts t fs) (hf : f ∈ fs) : f.IsMaximal t := by
  have hstands : (t.drop f.start).take (f.stop - f.start) = f.text := h.stands f hf
  have hstart : (t.take f.start).length = f.start := by
    rw [List.length_take, Nat.min_eq_left]
    by_contra hlong
    rw [List.drop_eq_nil_of_le (by omega), List.take_nil] at hstands
    exact (h.isWord f hf).ne_nil hstands.symm
  refine ⟨h.isWord f hf, t.take f.start, t.drop f.stop, ?_, hstart, ?_, ?_⟩
  · rw [← hstands, List.append_assoc]
    have hdrop : t.drop f.stop = (t.drop f.start).drop (f.stop - f.start) := by
      rw [List.drop_drop, Nat.add_sub_cancel' f.start_le_stop]
    rw [hdrop, List.take_append_drop, List.take_append_drop]
  · intro b hb
    have hpos : 0 < f.start := by
      rw [← hstart]
      exact List.length_pos_of_mem (List.mem_of_getLast? hb)
    rw [List.getLast?_eq_getElem?, hstart, List.getElem?_take_of_lt (by omega)] at hb
    exact h.isSpace_beside hf (Or.inl (Nat.sub_add_cancel hpos)) hb
  · intro b hb
    rw [List.head?_drop] at hb
    exact h.isSpace_beside hf (Or.inr rfl) hb

theorem nodup (h : Cuts t fs) : fs.Nodup := h.parted.imp Parted.ne

/-- The fields are all of the maximal words: one left out would leave its bytes over. -/
theorem mem_iff (h : Cuts t fs) : f ∈ fs ↔ f ∈ fields t := by
  refine ⟨fun hf => mem_fields_iff.2 (h.isMaximal hf), fun hf => ?_⟩
  obtain ⟨hword, before, after, rfl, hstart, -⟩ := mem_fields_iff.1 hf
  obtain ⟨b, rest, hcons⟩ := List.exists_cons_of_ne_nil hword.ne_nil
  have hb : Text.isSpace b = false := hword.isSpace b (by simp [hcons])
  have hfirst : (before ++ f.text ++ after)[f.start]? = some b := by simp [← hstart, hcons]
  obtain ⟨g, hg, hle, hlt⟩ := h.covered f.start b hfirst hb
  have hpos : 0 < f.text.length := List.length_pos_of_ne_nil hword.ne_nil
  rcases eq_or_ne f g with rfl | hne
  · exact hg
  · have hapart := (cuts_fields _).apart hf (mem_fields_iff.2 (h.isMaximal hg)) hne
    rcases hapart with hbefore | hbehind
    · rw [Field.stop] at hbefore
      omega
    · omega

theorem eq_fields (h : Cuts t fs) : fs = fields t := by
  have hperm : fs.Perm (fields t) :=
    (List.perm_ext_iff_of_nodup h.nodup (cuts_fields t).nodup).2 fun _ => h.mem_iff
  refine hperm.eq_of_pairwise (fun f g _ _ hfg hgf => ?_) h.parted (pairwise_parted_fields t)
  have hlt := hfg.stop_lt
  have hlt' := hgf.stop_lt
  have hle := f.start_le_stop
  have hle' := g.start_le_stop
  omega

end Cuts

theorem cuts_iff {line : Text} {fs : List Field} : Cuts line fs ↔ fs = fields line :=
  ⟨Cuts.eq_fields, fun h => h ▸ cuts_fields line⟩

end Line

def Text.IsGap (t : Text) : Prop := ∀ b ∈ t, isSpace b = true

/-- A text sets out words: it consists of them in order, each with the white space behind it, which
may only be missing behind the last. -/
inductive Text.SetsOut : List Text → Text → Prop
  | nil : SetsOut [] []
  | cons {word gap rest : Text} {words : List Text} : word.IsWord → gap.IsGap →
      (words ≠ [] → gap ≠ []) → SetsOut words rest → SetsOut (word :: words) (word ++ gap ++ rest)

namespace Line

theorem fieldTexts_gap_append {gap : Text} (h : gap.IsGap) (t : Text) :
    fieldTexts (gap ++ t) = fieldTexts t := by
  rw [fieldTexts, fields_spaces_append h, List.map_map]
  rfl

theorem fieldTexts_word_append {word after : Text} (hword : word.IsWord)
    (hafter : ∀ b, after.head? = some b → Text.isSpace b = true) :
    fieldTexts (word ++ after) = word :: fieldTexts after := by
  have hnone : ∀ b, ([] : Text).getLast? = some b → Text.isSpace b = true := by simp
  have hfields := fields_append_word_append hword hnone hafter
  rw [List.nil_append] at hfields
  rw [fieldTexts, hfields, List.map_append, List.map_cons, List.map_map]
  rfl

theorem fieldTexts_of_setsOut {words : List Text} {t : Text} (h : Text.SetsOut words t) :
    fieldTexts t = words := by
  induction h with
  | nil => rfl
  | @cons word gap rest words hword hgap hne h ih =>
    have hafter : ∀ b, (gap ++ rest).head? = some b → Text.isSpace b = true := by
      intro b hb
      cases gap with
      | nil =>
        obtain rfl : words = [] := by
          by_contra hmore
          exact hne hmore rfl
        cases h
        exact absurd hb (by simp)
      | cons c gap => exact hgap b (by simp_all)
    rw [List.append_assoc, fieldTexts_word_append hword hafter, fieldTexts_gap_append hgap, ih]

/-- Every line sets out its fields, behind white space or nothing. -/
theorem exists_setsOut (line : Text) :
    ∃ lead body, line = lead ++ body ∧ lead.IsGap ∧ Text.SetsOut (fieldTexts line) body := by
  have hnil : Text.IsGap [] := List.forall_mem_nil _
  induction line using Text.space_induction with
  | piece t h =>
    rcases eq_or_ne t [] with rfl | hne
    · exact ⟨[], [], rfl, hnil, .nil⟩
    · refine ⟨[], t, rfl, hnil, ?_⟩
      rw [fieldTexts_of_isWord ⟨hne, h⟩]
      simpa using Text.SetsOut.cons ⟨hne, h⟩ hnil (absurd rfl) .nil
  | cut t b rest h hb ih =>
    obtain ⟨lead, body, rfl, hlead, hbody⟩ := ih
    have hgap : Text.IsGap (b :: lead) := List.forall_mem_cons.2 ⟨hb, hlead⟩
    have hrest : fieldTexts (b :: (lead ++ body)) = fieldTexts (lead ++ body) := by
      rw [← List.cons_append, fieldTexts_gap_append hgap, fieldTexts_gap_append hlead]
    rcases eq_or_ne t [] with rfl | hne
    · refine ⟨b :: lead, body, rfl, hgap, ?_⟩
      rwa [List.nil_append, hrest]
    · have hword : t.IsWord := ⟨hne, h⟩
      refine ⟨[], t ++ (b :: lead) ++ body, by simp, hnil, ?_⟩
      rw [fieldTexts_word_append hword (by simpa using hb), hrest]
      exact .cons hword hgap (fun _ => List.cons_ne_nil _ _) hbody

theorem fieldTexts_eq_iff {line : Text} {words : List Text} :
    fieldTexts line = words ↔
      ∃ lead body, line = lead ++ body ∧ lead.IsGap ∧ Text.SetsOut words body := by
  constructor
  · rintro rfl
    exact exists_setsOut line
  · rintro ⟨lead, body, rfl, hlead, hbody⟩
    rw [fieldTexts_gap_append hlead, fieldTexts_of_setsOut hbody]

/-- What stands before a field has just the fields before it. -/
theorem fields_take_start {line : Text} {n : Nat} {f : Field} (h : (fields line)[n]? = some f) :
    fields (line.take f.start) = (fields line).take n := by
  obtain ⟨hword, before, after, hline, hstart, hbefore, hafter⟩ :=
    mem_fields_iff.1 (List.mem_of_getElem? h)
  have hfields := fields_append_word_append hword hbefore hafter
  rw [← hline] at hfields
  have hfront : (fields line).take (fields before).length = fields before := by
    rw [hfields, List.take_left]
  have hat : (fields line)[(fields before).length]? = some f := by
    rw [hfields, List.getElem?_append_right (Nat.le_refl _), Nat.sub_self, List.getElem?_cons_zero,
      hstart]
  have hlt := (List.getElem?_eq_some_iff.1 h).1
  have hn : n = (fields before).length :=
    (List.getElem?_inj hlt (cuts_fields line).nodup).1 (h.trans hat.symm)
  have htake : line.take f.start = before := by
    rw [hline, List.append_assoc, List.take_left' hstart]
  rw [htake, hn, hfront]

end Line

namespace Declaration

def parts (d : Declaration) : List Text := [d.keyword, d.type, d.identifier, d.equals, d.value]

/-- The parts are the first five fields of the line, and empty where it has no more. -/
theorem parts_ofLine (line : Text) :
    (ofLine line).parts = ((Line.fieldTexts line).take 5).rightpad 5 [] := by
  rw [parts, keyword_ofLine, type_ofLine, identifier_ofLine, equals_ofLine, value_ofLine]
  match Line.fieldTexts line with
  | [] | [_] | [_, _] | [_, _, _] | [_, _, _, _] => rfl
  | a :: b :: c :: d :: e :: _ => rfl

/-- The value stands at its offset, and just four fields stand before it. A line without a value
has its fields before the offset, too. -/
theorem value_at_valueOffset (line : Text) :
    (ofLine line).valueOffset ≤ line.length ∧
      (ofLine line).value <+: line.drop (ofLine line).valueOffset ∧
      Line.fieldTexts (line.take (ofLine line).valueOffset) = (Line.fieldTexts line).take 4 := by
  cases hfield : (Line.fields line)[4]? with
  | none =>
    have hoffset : (ofLine line).valueOffset = line.length := by simp [ofLine, hfield]
    have hvalue : (ofLine line).value = [] := by simp [ofLine, hfield]
    have hfew : (Line.fieldTexts line).length ≤ 4 := by
      rw [Line.fieldTexts, List.length_map]
      exact List.getElem?_eq_none_iff.1 hfield
    rw [hoffset, hvalue, List.take_length, List.take_of_length_le hfew]
    exact ⟨Nat.le_refl _, List.nil_prefix, rfl⟩
  | some f =>
    have hoffset : (ofLine line).valueOffset = f.start := by simp [ofLine, hfield]
    have hvalue : (ofLine line).value = f.text := by simp [ofLine, hfield]
    obtain ⟨before, after, hline, hstart, -⟩ :=
      Line.exists_of_mem_fields (List.mem_of_getElem? hfield)
    refine ⟨?_, ?_, ?_⟩
    · rw [hoffset, hline, ← hstart]
      simp
    · rw [hoffset, hvalue]
      exact Line.isPrefix_drop_of_mem_fields (List.mem_of_getElem? hfield)
    · rw [hoffset, Line.fieldTexts, Line.fields_take_start hfield, Line.fieldTexts, List.map_take]

example : (ofLine "const  string greeting = hi there").valueOffset = 25 := by decide

end Declaration

/-- The fields of a line are its maximal words, and nothing else cuts it. They are the words that
the line sets out, and a declaration has the first five as its parts. -/
theorem fields_exact (line : Text) :
    (∀ b, Text.isSpace b = true ↔ b ∈ ([0x09, 0x0a, 0x0b, 0x0c, 0x0d, 0x20] : Text)) ∧
      (∀ f, f ∈ Line.fields line ↔ f.IsMaximal line) ∧
      (∀ fs, Line.Cuts line fs ↔ fs = Line.fields line) ∧
      (∀ words, Line.fieldTexts line = words ↔
        ∃ lead body, line = lead ++ body ∧ lead.IsGap ∧ Text.SetsOut words body) ∧
      (Declaration.ofLine line).parts = ((Line.fieldTexts line).take 5).rightpad 5 [] ∧
      (Declaration.ofLine line).valueOffset ≤ line.length ∧
      (Declaration.ofLine line).value <+: line.drop (Declaration.ofLine line).valueOffset ∧
      Line.fieldTexts (line.take (Declaration.ofLine line).valueOffset) =
        (Line.fieldTexts line).take 4 :=
  ⟨fun _ => Text.isSpace_iff, fun _ => Line.mem_fields_iff, fun _ => Line.cuts_iff,
    fun _ => Line.fieldTexts_eq_iff, Declaration.parts_ofLine line,
    Declaration.value_at_valueOffset line⟩

end LineScript
