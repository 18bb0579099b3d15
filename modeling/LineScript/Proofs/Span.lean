import LineScript.Span
import Mathlib.Data.List.Basic

/-! Reading segments. The segments read so far, what is being read and the text to come always make
up the whole text, so that every span stands in it between its braces. What follows a text without
braces of its own adds no span. -/

namespace LineScript

namespace Segmentation

/-- The bytes from which the piece in progress has been read. -/
def State.text : State → Text
  | .literal _ seen => (Piece.literal seen.reverse).unparse
  | .span _ seen => Text.openBrace :: seen.reverse

/-- The sources of the spans. -/
def spans (r : Segmentation) : List Text :=
  r.segments.filterMap fun seg =>
    match seg.piece with
    | .literal _ => none
    | .span source => some source

end Segmentation

theorem unparse_append (a b : List Piece) : unparse (a ++ b) = unparse a ++ unparse b :=
  List.flatMap_append

theorem unparse_singleton (p : Piece) : unparse [p] = p.unparse := List.flatMap_singleton ..

theorem Piece.unparse_literal_concat (t : Text) {b : UInt8} (h : b ≠ Text.openBrace) :
    (Piece.literal (t ++ [b])).unparse = (Piece.literal t).unparse ++ [b] := by
  simp [Piece.unparse, h]

theorem Piece.unparse_literal_concat_openBrace (t : Text) :
    (Piece.literal (t ++ [Text.openBrace])).unparse =
      (Piece.literal t).unparse ++ [Text.backslash, Text.openBrace] := by
  simp [Piece.unparse]

namespace Segmentation

theorem unparse_flush (start : Nat) (seen : Text) (done : List Segment) :
    unparse ((flush start seen done).reverse.map (·.piece)) =
      unparse (done.reverse.map (·.piece)) ++ (Piece.literal seen.reverse).unparse := by
  unfold flush
  split
  · rename_i hseen
    rw [hseen]
    exact (List.append_nil _).symm
  · rw [List.reverse_cons, List.map_append, unparse_append]
    exact congrArg _ (unparse_singleton _)

theorem unparse_scan (position : Nat) (st : State) (done : List Segment) (t : Text) :
    unparse ((scan position st done t).segments.map (·.piece)) ++
        ((scan position st done t).error.map (·.source)).getD [] =
      unparse (done.reverse.map (·.piece)) ++ st.text ++ t := by
  fun_induction scan position st done t with
  | case1 position start seen done =>
    rw [unparse_flush]
    rfl
  | case2 position start seen done => exact (List.append_nil _).symm
  | case3 position start seen done rest ih =>
    rw [ih, List.reverse_cons, List.map_append, unparse_append]
    simp [unparse, State.text, Piece.unparse, Text.cat]
  | case4 position start seen done b rest hb ih =>
    rw [ih]
    simp [State.text]
  | case5 position start seen done rest ih =>
    rw [ih, unparse_flush]
    simp [State.text]
  | case6 position start seen done b hb start' ih =>
    rw [ih, State.text, List.reverse_cons, Piece.unparse_literal_concat _ hb]
    simp [State.text]
  | case7 position start seen done b hb start' c rest hescape ih =>
    obtain ⟨rfl, rfl⟩ := hescape
    rw [ih, State.text, List.reverse_cons, Piece.unparse_literal_concat_openBrace]
    simp [State.text]
  | case8 position start seen done b hb start' c rest hescape ih =>
    rw [ih, State.text, List.reverse_cons, Piece.unparse_literal_concat _ hb]
    simp [State.text]

theorem spans_flush (start : Nat) (seen : Text) (done : List Segment) (error : Option EvalError) :
    spans ⟨(flush start seen done).reverse, error⟩ = spans ⟨done.reverse, error⟩ := by
  unfold flush
  split
  · rfl
  · simp [spans]

/-- The spans of a reading and whether the last one is unterminated. -/
def outline (r : Segmentation) : List Text × Bool := (r.spans, r.error.isSome)

theorem outline_literal (position start : Nat) (seen : Text) (done : List Segment) {t : Text}
    (h : Text.openBrace ∉ t) :
    (scan position (.literal start seen) done t).outline = (spans ⟨done.reverse, none⟩, false) := by
  induction t generalizing position start seen with
  | nil =>
    rw [scan, outline, spans_flush]
    rfl
  | cons b rest ih =>
    rw [List.mem_cons, not_or] at h
    rw [scan, if_neg (Ne.symm h.1)]
    cases rest with
    | nil => exact ih _ _ _ h.2
    | cons c rest =>
      have hc : c ≠ Text.openBrace := fun hc => h.2 (hc ▸ List.mem_cons_self)
      dsimp only
      rw [if_neg fun hescape => hc hescape.2]
      exact ih _ _ _ h.2

theorem outline_span (position start : Nat) (seen : Text) (done : List Segment) {t : Text}
    (h : Text.closeBrace ∉ t) :
    (scan position (.span start seen) done t).outline = (spans ⟨done.reverse, none⟩, true) := by
  induction t generalizing position seen with
  | nil => rfl
  | cons b rest ih =>
    rw [List.mem_cons, not_or] at h
    rw [scan, if_neg (Ne.symm h.1), ih _ _ h.2]

/-- Text without braces after a text changes neither its spans nor how the reading ends. -/
theorem outline_scan_append (position : Nat) (st : State) (done : List Segment) (t : Text)
    {rest : Text} (hopen : Text.openBrace ∉ rest) (hclose : Text.closeBrace ∉ rest) :
    (scan position st done (t ++ rest)).outline = (scan position st done t).outline := by
  fun_induction scan position st done t with
  | case1 position start seen done =>
    rw [List.nil_append, outline_literal _ _ _ _ hopen, outline, spans_flush]
    rfl
  | case2 position start seen done =>
    rw [List.nil_append, outline_span _ _ _ _ hclose]
    rfl
  | case3 position start seen done after ih =>
    rw [List.cons_append, scan, if_pos rfl, ih]
  | case4 position start seen done b after hb ih =>
    rw [List.cons_append, scan, if_neg hb, ih]
  | case5 position start seen done after ih =>
    rw [List.cons_append, scan, if_pos rfl, ih]
  -- the byte is the last of the text, and an escape could only start with it
  | case6 position start seen done b hb start' ih =>
    rw [List.nil_append] at ih
    rw [List.cons_append, List.nil_append, ← ih, scan, if_neg hb]
    cases rest with
    | nil => rfl
    | cons c rest =>
      have hc : c ≠ Text.openBrace := fun hc => hopen (hc ▸ List.mem_cons_self)
      dsimp only
      rw [if_neg fun hescape => hc hescape.2]
  | case7 position start seen done b hb start' c after hescape ih =>
    rw [← ih, List.cons_append, List.cons_append, scan, if_neg hb]
    dsimp only
    rw [if_pos hescape]
  | case8 position start seen done b hb start' c after hescape ih =>
    rw [← ih, List.cons_append, List.cons_append, scan, if_neg hb]
    dsimp only
    rw [if_neg hescape]

end Segmentation

/-- The segments and what follows them make up the text they are read from. -/
theorem unparse_segments (t : Text) :
    unparse ((segments t).segments.map (·.piece)) ++
      ((segments t).error.map (·.source)).getD [] = t := by
  rw [segments, Segmentation.unparse_scan]
  rfl

theorem unparse_isInfix {p : Piece} {pieces : List Piece} (h : p ∈ pieces) :
    p.unparse <:+: unparse pieces := by
  obtain ⟨before, after, rfl⟩ := List.append_of_mem h
  refine ⟨unparse before, unparse after, ?_⟩
  rw [unparse_append, ← List.singleton_append, unparse_append, unparse_singleton,
    List.append_assoc]

/-- A span stands in the text between its braces. -/
theorem braced_of_mem_spans {t source : Text} (h : source ∈ (segments t).spans) :
    Text.openBrace :: source ++ [Text.closeBrace] <:+: t := by
  obtain ⟨⟨piece, offset⟩, hseg, hpiece⟩ := List.mem_filterMap.1 h
  cases piece with
  | literal text => exact absurd hpiece (by simp)
  | span text =>
    obtain rfl := Option.some.inj hpiece
    have hmem := List.mem_map_of_mem (f := (·.piece)) hseg
    have hstands : _ <:+: t :=
      (unparse_isInfix hmem).trans ⟨[], _, unparse_segments t⟩
    simpa [Piece.unparse, Text.cat] using hstands

end LineScript
