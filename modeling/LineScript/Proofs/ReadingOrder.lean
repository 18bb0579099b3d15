import LineScript.Proofs.Place
import LineScript.Proofs.Replay
import Mathlib.Data.Prod.Lex

/-! The order of warnings. The warnings about a script come in reading order, and each points into
its line or behind its end. For the columns to follow the offsets, no offset may part the bytes of a
symbol: an echo is noted at braces and behind them, and a declaration where a field or the end of the
line is, so none does. -/

namespace LineScript

namespace Text

/-- An offset in a text, its end included, that parts no symbol. -/
def HasCut (t : Text) (o : Nat) : Prop := o ≤ t.length ∧ t.IsBoundary o

/-- The first place at which a part stands in a text. -/
def StandsFirstAt (t part : Text) (o : Nat) : Prop :=
  part <+: t.drop o ∧ ∀ i < o, ¬ part <+: t.drop i

theorem trim_standsFirstAt {t : Text} (h : t.trim ≠ []) : t.StandsFirstAt t.trim t.indent := by
  obtain ⟨u, v, hu, -, hindent, ht⟩ := exists_indent_append t
  have hdrop (i : Nat) (hi : i ≤ u.length) : t.drop i = u.drop i ++ (t.trim ++ v) := by
    conv_lhs => rw [ht, List.append_assoc, List.drop_append_of_le_length hi]
  rw [StandsFirstAt, ← hindent]
  refine ⟨?_, fun i hi hstands => ?_⟩
  · rw [hdrop _ le_rfl, List.drop_length]
    exact List.prefix_append _ _
  · -- earlier than that the line goes on with a blank
    obtain ⟨b, rest, htrim⟩ := List.exists_cons_of_ne_nil h
    obtain ⟨a, blanks, hblanks⟩ := List.exists_cons_of_ne_nil
      (List.ne_nil_of_length_pos (by rw [List.length_drop]; omega : 0 < (u.drop i).length))
    rw [hdrop i hi.le, hblanks, htrim, List.cons_append, List.cons_prefix_cons] at hstands
    have ha : a ∈ u := List.mem_of_mem_drop (hblanks ▸ List.mem_cons_self)
    have hb := head?_trim (congrArg List.head? htrim)
    rw [hstands.1, hu a ha] at hb
    exact absurd hb (by simp)

namespace HasCut

variable {t : Text} {o o' : Nat}

theorem columnAt_le (h : t.HasCut o) : columnAt t o ≤ symbolCount t + 1 :=
  Nat.succ_le_succ h.2.symbolCount_take_le

theorem columnAt_lt_columnAt (h : t.HasCut o) (h' : t.HasCut o') (hlt : o < o') :
    columnAt t o < columnAt t o' :=
  Nat.succ_lt_succ (h.2.symbolCount_take_lt h'.2 hlt h'.1)

theorem columnAt_le_columnAt (h : t.HasCut o) (h' : t.HasCut o') (hle : o ≤ o') :
    columnAt t o ≤ columnAt t o' := by
  rcases hle.eq_or_lt with rfl | hlt
  · exact le_rfl
  · exact (h.columnAt_lt_columnAt h' hlt).le

end HasCut

theorem hasCut_indent (t : Text) : t.HasCut t.indent := by
  obtain ⟨u, v, hu, -, hindent, ht⟩ := exists_indent_append t
  rw [List.append_assoc] at ht
  refine ⟨?_, ?_⟩
  · have hlength := congrArg List.length ht
    rw [List.length_append] at hlength
    omega
  · rw [← hindent]
    conv => arg 1; rw [ht]
    exact isBoundary_of_forall_lt (fun b hb => toNat_lt_of_isSpace (isSpace_of_isBlank (hu b hb))) _

end Text

theorem length_unparse_append_cons (before : List Segment) (seg : Segment)
    (after : List Segment) : (unparse ((before ++ seg :: after).map (·.piece))).length =
      (unparse (before.map (·.piece))).length + seg.piece.unparse.length +
        (unparse (after.map (·.piece))).length := by
  rw [List.map_append, List.map_cons, unparse_append, ← List.singleton_append, unparse_append,
    unparse_singleton, List.length_append, List.length_append, Nat.add_assoc]

namespace Segmentation

/-- A segment ends where a later one starts, or before. -/
theorem Placed.pairwise {segs : List Segment} (h : Placed segs) :
    segs.Pairwise fun a b => a.offset + a.piece.unparse.length ≤ b.offset := by
  rw [List.pairwise_iff_forall_sublist]
  intro a b hsublist
  obtain ⟨upTo, behind, rfl, ha, hb⟩ := List.cons_sublist_iff.1 hsublist
  obtain ⟨before, between, rfl⟩ := List.append_of_mem ha
  obtain ⟨between', after, rfl⟩ := List.append_of_mem (List.singleton_sublist.1 hb)
  have hplace := h before a (between ++ (between' ++ b :: after)) (by simp)
  have hplace' := h (before ++ a :: (between ++ between')) b after (by simp)
  rw [hplace, hplace', length_unparse_append_cons]
  exact Nat.le_add_right ..

end Segmentation

/-- What is left open starts with its brace, where the last segment ends. -/
theorem exists_brace_of_error_segments {t : Text} {e : EvalError}
    (h : (segments t).error = some e) : ∃ o, e.offset = some o ∧ t[o]? = some Text.openBrace ∧
      ∀ seg ∈ (segments t).segments, seg.offset + seg.piece.unparse.length ≤ o := by
  obtain ⟨front, source, hfront, ht, -, rfl⟩ := exists_open_of_error_segments h
  refine ⟨front.length, rfl, ?_, fun seg hseg => ?_⟩
  · rw [ht, List.getElem?_append_right le_rfl, Nat.sub_self]
    rfl
  · obtain ⟨before, after, hsplit⟩ := List.append_of_mem hseg
    rw [(segments_placed t).1 before seg after hsplit, ← hfront, Segmentation.pieces, hsplit,
      length_unparse_append_cons]
    exact Nat.le_add_right ..

namespace Lint

theorem pairwise_echoNotes (s : Store) (base : Nat) (t : Text) :
    (echoNotes s base t).Pairwise (·.offset < ·.offset) := by
  -- a span takes up two bytes at least, and what follows it starts behind both
  have hspan {seg : Segment} {n : Note} (h : segmentNote? s base seg = some n) :
      n.offset = base + seg.offset + 1 ∧ 2 ≤ seg.piece.unparse.length := by
    obtain ⟨hoffset, source, hpiece, -⟩ := exists_span_of_segmentNote h
    rw [hpiece, Piece.unparse_span, List.length_append, List.length_cons, List.length_singleton]
    exact ⟨hoffset, by omega⟩
  rw [echoNotes, List.pairwise_append]
  refine ⟨?_, ?_, fun n hn m hm => ?_⟩
  · refine (segments_placed t).1.pairwise.filterMap _ fun a b hab n hn m hm => ?_
    obtain ⟨hn, hlength⟩ := hspan hn
    obtain ⟨hm, -⟩ := hspan hm
    omega
  · cases (segments t).error
    · exact .nil
    · exact List.pairwise_singleton _ _
  · obtain ⟨seg, hseg, hnote⟩ := List.mem_filterMap.1 hn
    obtain ⟨e, he, rfl⟩ := Option.map_eq_some_iff.1 (Option.mem_toList.1 hm)
    obtain ⟨o, ho, -, hbehind⟩ := exists_brace_of_error_segments he
    obtain ⟨hn, hlength⟩ := hspan hnote
    have hle := hbehind seg hseg
    simp only [ho, Option.getD_some]
    omega

theorem hasCut_of_mem_echoNotes {s : Store} {raw : Text}
    (kind : Line.classify raw.trim = .echo) {n : Note}
    (h : n ∈ echoNotes s (Line.echoStart raw) (Line.echoText raw.trim)) :
    raw.HasCut n.offset := by
  rw [echoNotes, List.mem_append] at h
  rcases h with h | h
  · obtain ⟨⟨piece, o⟩, hseg, hnote⟩ := List.mem_filterMap.1 h
    obtain ⟨hoffset, source, rfl, -⟩ := exists_span_of_segmentNote hnote
    obtain ⟨before, after, hsplit⟩ := List.append_of_mem hseg
    obtain ⟨hinside, -, hbehind⟩ := Line.isBoundary_of_brace kind (getElem?_of_segments hsplit)
    rw [hoffset]
    exact ⟨hinside, hbehind⟩
  · obtain ⟨e, he, rfl⟩ := Option.map_eq_some_iff.1 (Option.mem_toList.1 h)
    obtain ⟨o, ho, hbrace, -⟩ := exists_brace_of_error_segments he
    obtain ⟨hinside, hboundary, -⟩ := Line.isBoundary_of_brace kind hbrace
    simp only [ho, Option.getD_some]
    exact ⟨by omega, hboundary⟩

/-- The notes on the form of a declaration point at its start, and then at its value. -/
theorem exists_formNotes_eq_append (d : Declaration) (indent fieldCount : Nat) :
    ∃ front back, formNotes d indent fieldCount = front ++ back ∧
      (∀ n ∈ front, n.offset = indent) ∧ ∀ n ∈ back, n.offset = indent + d.valueOffset := by
  refine ⟨_, _, rfl, fun n hn => ?_, fun n hn => ?_⟩
  · rw [List.mem_append, List.mem_append] at hn
    rcases hn with (hn | hn) | hn
    all_goals rw [eq_of_mem_check hn]
  · rw [← ite_not] at hn
    rw [eq_of_mem_check hn]

theorem exists_declarationNotes_eq_append (s : Store) (indent : Nat) (line : Text) :
    ∃ front back, (declarationNotes s indent line).1 = front ++ back ∧
      (∀ n ∈ front, n.offset = indent) ∧
      ∀ n ∈ back, n.offset = indent + (Declaration.ofLine line).valueOffset := by
  simp only [declarationNotes]
  cases ignoredRemark? (Declaration.ofLine line) with
  | some r => exact ⟨[⟨indent, r⟩], [], rfl, by simp, by simp⟩
  | none =>
    obtain ⟨front, back, hform, hfront, hback⟩ :=
      exists_formNotes_eq_append (Declaration.ofLine line) indent (Line.fields line).length
    dsimp only
    rw [hform]
    cases s.assign line with
    | ok s' => exact ⟨front, back, rfl, hfront, hback⟩
    | error e =>
      refine ⟨front, back ++ [⟨_, .aborts e⟩], List.append_assoc .., hfront, fun n hn => ?_⟩
      rcases List.mem_append.1 hn with hn | hn
      · exact hback n hn
      · rw [List.mem_singleton.1 hn]

theorem pairwise_declarationNotes (s : Store) (indent : Nat) (line : Text) :
    (declarationNotes s indent line).1.Pairwise (·.offset ≤ ·.offset) := by
  obtain ⟨front, back, hnotes, hfront, hback⟩ := exists_declarationNotes_eq_append s indent line
  rw [hnotes, List.pairwise_append]
  refine ⟨?_, ?_, fun n hn m hm => ?_⟩
  · exact List.pairwise_of_forall_mem_list fun n hn m hm => by rw [hfront n hn, hfront m hm]
  · exact List.pairwise_of_forall_mem_list fun n hn m hm => by rw [hback n hn, hback m hm]
  · rw [hfront n hn, hback m hm]
    exact Nat.le_add_right ..

theorem hasCut_of_mem_declarationNotes {s : Store} {raw : Text} {n : Note}
    (h : n ∈ (declarationNotes s raw.indent raw.trim).1) : raw.HasCut n.offset := by
  obtain ⟨front, back, hnotes, hfront, hback⟩ :=
    exists_declarationNotes_eq_append s raw.indent raw.trim
  rw [hnotes] at h
  rcases List.mem_append.1 h with h | h
  · rw [hfront n h]
    exact raw.hasCut_indent
  · rw [hback n h]
    exact (Line.valueAt raw).isBoundary

theorem hasCut_of_mem_lineNotes {s : Store} {raw : Text} {n : Note}
    (h : n ∈ (lineNotes s raw).1) : raw.HasCut n.offset := by
  simp only [lineNotes] at h
  split at h
  · exact absurd h List.not_mem_nil
  · cases kind : Line.classify raw.trim with
    | ignored =>
      rw [kind] at h
      rw [List.mem_singleton.1 h]
      exact raw.hasCut_indent
    | echo =>
      rw [kind] at h
      exact hasCut_of_mem_echoNotes kind h
    | declaration =>
      rw [kind] at h
      exact hasCut_of_mem_declarationNotes h

theorem pairwise_lineNotes_of_echo {raw : Text} (kind : Line.classify raw.trim = .echo)
    (s : Store) : (lineNotes s raw).1.Pairwise (·.offset < ·.offset) := by
  simp only [lineNotes, kind]
  split
  · exact .nil
  · exact pairwise_echoNotes ..

theorem pairwise_lineNotes (s : Store) (raw : Text) :
    (lineNotes s raw).1.Pairwise (·.offset ≤ ·.offset) := by
  cases kind : Line.classify raw.trim with
  | ignored =>
    simp only [lineNotes, kind]
    split
    · exact .nil
    · exact List.pairwise_singleton _ _
  | echo => exact (pairwise_lineNotes_of_echo kind s).imp Nat.le_of_lt
  | declaration =>
    simp only [lineNotes, kind]
    split
    · exact .nil
    · exact pairwise_declarationNotes ..

theorem exists_of_mem_warningsFrom {number : Nat} {s : Store} {lines : List Text} {w : Warning}
    (h : w ∈ warningsFrom number s [] lines) : ∃ i raw s', lines[i]? = some raw ∧
      ∃ n ∈ (lineNotes s' raw).1, w = n.toWarning (number + i) raw := by
  induction lines generalizing number s with
  | nil => exact absurd h List.not_mem_nil
  | cons first rest ih =>
    rw [warningsFrom_cons, List.mem_append] at h
    rcases h with h | h
    · obtain ⟨n, hn, rfl⟩ := List.mem_map.1 h
      exact ⟨0, first, s, rfl, n, hn, rfl⟩
    · obtain ⟨i, raw, s', hraw, n, hn, rfl⟩ := ih h
      exact ⟨i + 1, raw, s', hraw, n, hn, by rw [Nat.add_right_comm, Nat.add_assoc]⟩

theorem pairwise_warningsFrom (number : Nat) (s : Store) (lines : List Text) :
    (warningsFrom number s [] lines).Pairwise fun v w => toLex v.position ≤ toLex w.position := by
  induction lines generalizing number s with
  | nil => exact .nil
  | cons raw rest ih =>
    rw [warningsFrom_cons, List.pairwise_append]
    refine ⟨?_, ih .., fun v hv w hw => ?_⟩
    · refine List.pairwise_map.2 ((pairwise_lineNotes s raw).imp_of_mem fun hn hm hle => ?_)
      exact Prod.Lex.toLex_le_toLex.2 (Or.inr ⟨rfl, (hasCut_of_mem_lineNotes hn).columnAt_le_columnAt
        (hasCut_of_mem_lineNotes hm) hle⟩)
    · obtain ⟨n, -, rfl⟩ := List.mem_map.1 hv
      exact Prod.Lex.toLex_le_toLex.2 (Or.inl (le_line_of_mem_warningsFrom hw))

end Lint

/-- The warnings about a script come in the order of their lines and columns. Each names a line of
the script and a symbol of that line or its end. On an echo they have columns of their own. What a
warning points at is an offset in the line that parts no symbol, counted from where the line without
its blanks first stands in the raw one. -/
theorem warnings_in_reading_order (globals : Store) (source : Text) :
    let lines := Lines.divided source
    let warnings := lint globals source
    (warnings.Pairwise fun v w => toLex v.position ≤ toLex w.position) ∧
    (∀ w ∈ warnings, 1 ≤ w.line ∧ w.line ≤ lines.length ∧
      ∃ raw, lines[w.line - 1]? = some raw ∧ 1 ≤ w.column ∧
        w.column ≤ Text.symbolCount raw + 1) ∧
    (∀ i raw, lines[i]? = some raw → Line.classify raw.trim = .echo →
      (warnings.filter (·.line = i + 1)).Pairwise (·.column < ·.column)) ∧
    ∀ raw, (raw.trim ≠ [] → raw.StandsFirstAt raw.trim raw.indent) ∧
      ∀ s, ∀ n ∈ (Lint.lineNotes s raw).1, raw.HasCut n.offset := by
  intro lines warnings
  refine ⟨Lint.pairwise_warningsFrom 1 globals lines, fun w hw => ?_, fun i raw hraw kind => ?_,
    fun raw => ⟨Text.trim_standsFirstAt, fun s n => Lint.hasCut_of_mem_lineNotes⟩⟩
  · obtain ⟨i, raw, s, hraw, n, hn, rfl⟩ := Lint.exists_of_mem_warningsFrom hw
    have hi : i < lines.length := (List.getElem?_eq_some_iff.1 hraw).1
    have hline : (n.toWarning (1 + i) raw).line = i + 1 := Nat.add_comm 1 i
    rw [hline]
    exact ⟨Nat.le_add_left .., hi, raw, hraw, Nat.le_add_left ..,
      (Lint.hasCut_of_mem_lineNotes hn).columnAt_le⟩
  · have hnotes : warnings.filter (·.line = 1 + i) = _ := Lint.filter_line_warningsFrom hraw
    rw [Nat.add_comm i, hnotes]
    refine List.pairwise_map.2 ((Lint.pairwise_lineNotes_of_echo kind _).imp_of_mem ?_)
    exact fun hn hm hlt => (Lint.hasCut_of_mem_lineNotes hn).columnAt_lt_columnAt
      (Lint.hasCut_of_mem_lineNotes hm) hlt

/-- An echo with a long symbol before its spans, an indented line and a declaration with three
warnings. -/
theorem warnings_in_reading_order_accented :
    let echo : Text := "echo é\x7by\x7d \x7b1/0\x7d\x7bz"
    let indented : Text := "\tletter int x = 9"
    let source : Text := echo ++ [Text.lf] ++ indented ++ "\nlet boolean true = yes no"
    let warnings := lint .empty source
    warnings.map (·.position) = [(1, 8), (1, 12), (1, 16), (2, 2), (3, 1), (3, 1), (3, 20)] ∧
      (warnings.Pairwise fun v w => toLex v.position ≤ toLex w.position) ∧
      (∃ raw, (Lines.divided source)[0]? = some raw ∧ 1 ≤ 16 ∧ 16 ≤ Text.symbolCount raw + 1) ∧
      (warnings.filter (·.line = 0 + 1)).Pairwise (·.column < ·.column) ∧
      indented.StandsFirstAt indented.trim indented.indent ∧ indented.HasCut 1 := by
  intro echo indented source warnings
  obtain ⟨hordered, hinside, hstrict, hcuts⟩ := warnings_in_reading_order .empty source
  obtain ⟨hfirst, hcut⟩ := hcuts indented
  obtain ⟨-, -, hcolumn⟩ := hinside ⟨1, 16, .unterminatedSpan⟩ (by decide +kernel)
  exact ⟨by decide +kernel, hordered, hcolumn, hstrict 0 echo (by decide +kernel) (by decide),
    hfirst (by decide), hcut .empty ⟨1, .unknownKeyword "letter"⟩ (by decide +kernel)⟩

end LineScript
