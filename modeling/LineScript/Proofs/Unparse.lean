import LineScript.Proofs.Span

/-! Segments and the text they are read from determine each other. The segments of a text stand in
it one after the other, up to the brace that is left open if there is one. Pieces that can stand side
by side come back from the text they are written as. -/

namespace LineScript

theorem Piece.unparse_span (source : Text) :
    (Piece.span source).unparse = Text.openBrace :: source ++ [Text.closeBrace] := by
  simp [Piece.unparse, Text.cat]

theorem Piece.unparse_literal_cons (b : UInt8) (text : Text) :
    (Piece.literal (b :: text)).unparse =
      (if b = Text.openBrace then [Text.backslash, b] else [b]) ++
        (Piece.literal text).unparse :=
  List.flatMap_cons

namespace Segmentation

def pieces (r : Segmentation) : List Piece := r.segments.map (·.piece)

/-- Every segment starts where the text of those before it ends. -/
def Placed (segs : List Segment) : Prop :=
  ∀ before seg after, segs = before ++ seg :: after →
    seg.offset = (unparse (before.map (·.piece))).length

theorem placed_nil : Placed [] := by
  intro before seg after h
  exact absurd h.symm (by simp)

theorem Placed.concat {segs : List Segment} (h : Placed segs) {seg : Segment}
    (hseg : seg.offset = (unparse (segs.map (·.piece))).length) : Placed (segs ++ [seg]) := by
  intro before seg' after heq
  -- the segment in question is the new one or one of those before it
  rcases List.eq_nil_or_concat after with rfl | ⟨after, last, rfl⟩
  · obtain ⟨rfl, hlast⟩ := List.append_inj' heq rfl
    obtain rfl := List.singleton_inj.1 hlast
    exact hseg
  · have hinit : segs ++ [seg] = (before ++ seg' :: after) ++ [last] := by
      rw [heq, List.append_assoc, List.cons_append, List.concat_eq_append]
    exact h before seg' after (List.append_inj' hinit rfl).1

/-- The piece in progress starts at the given place, and a span in progress is still open. -/
def State.StartsAt (place : Nat) : State → Prop
  | .literal start seen => seen ≠ [] → start = place
  | .span start seen => start = place ∧ Text.closeBrace ∉ seen

/-- What holds at every byte that is read. -/
structure Reads (position : Nat) (st : State) (done : List Segment) : Prop where
  placed : Placed done.reverse
  starts : st.StartsAt (unparse (done.reverse.map (·.piece))).length
  reached : position = (unparse (done.reverse.map (·.piece)) ++ st.text).length

theorem Reads.placed_flush {position start : Nat} {seen : Text} {done : List Segment}
    (h : Reads position (.literal start seen) done) : Placed (flush start seen done).reverse := by
  unfold flush
  split
  · exact h.placed
  · rename_i hseen
    rw [List.reverse_cons]
    exact h.placed.concat (h.starts hseen)

theorem Reads.literal {position start : Nat} {seen : Text} {done : List Segment}
    (h : Reads position (.literal start seen) done) {seen' : Text} {width : Nat}
    (hwidth : (Piece.literal seen'.reverse).unparse.length =
      (Piece.literal seen.reverse).unparse.length + width) :
    Reads (position + width) (.literal (literalStart start position seen) seen') done := by
  refine ⟨h.placed, fun _ => ?_, ?_⟩
  · unfold literalStart
    split
    · rename_i hseen
      rw [h.reached, hseen]
      simp [State.text, Piece.unparse]
    · rename_i hseen
      exact h.starts hseen
  · have hreached := h.reached
    simp only [State.text, List.length_append] at hreached ⊢
    omega

theorem Reads.byte {position start : Nat} {seen : Text} {done : List Segment}
    (h : Reads position (.literal start seen) done) {b : UInt8} (hb : b ≠ Text.openBrace) :
    Reads (position + 1) (.literal (literalStart start position seen) (b :: seen)) done := by
  apply h.literal
  rw [List.reverse_cons, Piece.unparse_literal_concat _ hb, List.length_append]
  rfl

theorem Reads.escape {position start : Nat} {seen : Text} {done : List Segment}
    (h : Reads position (.literal start seen) done) :
    Reads (position + 2) (.literal (literalStart start position seen) (Text.openBrace :: seen))
      done := by
  apply h.literal
  rw [List.reverse_cons, Piece.unparse_literal_concat_openBrace, List.length_append]
  rfl

theorem Reads.openSpan {position start : Nat} {seen : Text} {done : List Segment}
    (h : Reads position (.literal start seen) done) :
    Reads (position + 1) (.span position []) (flush start seen done) := by
  have hreached : position = (unparse ((flush start seen done).reverse.map (·.piece))).length := by
    rw [unparse_flush]
    exact h.reached
  refine ⟨h.placed_flush, ⟨hreached, List.not_mem_nil⟩, ?_⟩
  rw [List.length_append, ← hreached]
  rfl

theorem Reads.inSpan {position start : Nat} {seen : Text} {done : List Segment}
    (h : Reads position (.span start seen) done) {b : UInt8} (hb : b ≠ Text.closeBrace) :
    Reads (position + 1) (.span start (b :: seen)) done := by
  obtain ⟨hstart, hopen⟩ := h.starts
  refine ⟨h.placed, ⟨hstart, ?_⟩, ?_⟩
  · rw [List.mem_cons, not_or]
    exact ⟨Ne.symm hb, hopen⟩
  · have hreached := h.reached
    simp only [State.text, List.length_append, List.length_cons, List.length_reverse]
      at hreached ⊢
    omega

theorem Reads.closeSpan {position start : Nat} {seen : Text} {done : List Segment}
    (h : Reads position (.span start seen) done) :
    Reads (position + 1) (.literal (position + 1) []) (⟨.span seen.reverse, start⟩ :: done) := by
  have hplaced : Placed (⟨.span seen.reverse, start⟩ :: done).reverse := by
    rw [List.reverse_cons]
    exact h.placed.concat h.starts.1
  refine ⟨hplaced, fun hne => absurd rfl hne, ?_⟩
  have hspan : unparse ((⟨.span seen.reverse, start⟩ :: done).reverse.map (·.piece)) =
      unparse (done.reverse.map (·.piece)) ++ State.text (.span start seen) ++
        [Text.closeBrace] := by
    rw [List.reverse_cons, List.map_append, unparse_append, List.append_assoc]
    exact congrArg _ ((unparse_singleton _).trans (Piece.unparse_span _))
  have htext : State.text (.literal (position + 1) []) = [] := rfl
  rw [htext, List.append_nil, hspan, List.length_append, ← h.reached]
  rfl

theorem scan_placed {position : Nat} {st : State} {done : List Segment} (t : Text)
    (h : Reads position st done) :
    Placed (scan position st done t).segments ∧
      ∀ e, (scan position st done t).error = some e →
        e.offset = some (unparse (scan position st done t).pieces).length ∧
        ∃ source, e.source = Text.openBrace :: source ∧ Text.closeBrace ∉ source := by
  fun_induction scan position st done t with
  | case1 position start seen done =>
    refine ⟨h.placed_flush, fun e he => ?_⟩
    exact absurd he (by simp)
  | case2 position start seen done =>
    refine ⟨h.placed, fun e he => ?_⟩
    obtain rfl := Option.some.inj he
    obtain ⟨hstart, hopen⟩ := h.starts
    refine ⟨congrArg some hstart, seen.reverse, rfl, ?_⟩
    rwa [List.mem_reverse]
  | case3 position start seen done rest ih => exact ih h.closeSpan
  | case4 position start seen done b rest hb ih => exact ih (h.inSpan hb)
  | case5 position start seen done rest ih => exact ih h.openSpan
  | case6 position start seen done b hb start' ih => exact ih (h.byte hb)
  | case7 position start seen done b hb start' c rest hescape ih =>
    obtain ⟨rfl, rfl⟩ := hescape
    exact ih h.escape
  | case8 position start seen done b hb start' c rest hescape ih => exact ih (h.byte hb)

end Segmentation

theorem segments_placed (t : Text) :
    Segmentation.Placed (segments t).segments ∧
      ∀ e, (segments t).error = some e →
        e.offset = some (unparse (segments t).pieces).length ∧
        ∃ source, e.source = Text.openBrace :: source ∧ Text.closeBrace ∉ source :=
  Segmentation.scan_placed t ⟨Segmentation.placed_nil, fun hne => absurd rfl hne, rfl⟩

/-- A literal that is not empty, or a span without a closing brace in it. -/
def Piece.IsReadable : Piece → Prop
  | .literal text => text ≠ []
  | .span source => Text.closeBrace ∉ source

/-- Whether the first piece ends where the second starts: literals would run together, and a
backslash would take the brace of a span. -/
def Piece.EndsBefore : Piece → Piece → Prop
  | .literal _, .literal _ => False
  | .literal text, .span _ => text.getLast? ≠ some Text.backslash
  | .span _, _ => True

/-- Pieces that can be read back. -/
structure Readable (pieces : List Piece) : Prop where
  each : ∀ p ∈ pieces, p.IsReadable
  chain : pieces.IsChain Piece.EndsBefore

instance : DecidablePred Piece.IsReadable
  | .literal text => inferInstanceAs (Decidable (text ≠ []))
  | .span source => inferInstanceAs (Decidable (Text.closeBrace ∉ source))

instance : DecidableRel Piece.EndsBefore
  | .literal _, .literal _ => inferInstanceAs (Decidable False)
  | .literal text, .span _ =>
    inferInstanceAs (Decidable (text.getLast? ≠ some Text.backslash))
  | .span _, _ => inferInstanceAs (Decidable True)

instance (pieces : List Piece) : Decidable (Readable pieces) :=
  decidable_of_iff ((∀ p ∈ pieces, p.IsReadable) ∧ pieces.IsChain Piece.EndsBefore)
    ⟨fun h => ⟨h.1, h.2⟩, fun h => ⟨h.each, h.chain⟩⟩

theorem Readable.tail {p : Piece} {pieces : List Piece} (h : Readable (p :: pieces)) :
    Readable pieces := by
  refine ⟨(List.forall_mem_cons.1 h.each).2, ?_⟩
  cases pieces with
  | nil => exact .nil
  | cons q pieces => exact (List.isChain_cons_cons.1 h.chain).2

theorem Readable.not_literal {text : Text} {pieces : List Piece}
    (h : Readable (.literal text :: pieces)) (text' : Text) :
    pieces.head? ≠ some (.literal text') := by
  intro hhead
  obtain ⟨rest, rfl⟩ := List.head?_eq_some_iff.1 hhead
  exact (List.isChain_cons_cons.1 h.chain).1

theorem Readable.getLast?_ne {text : Text} {pieces : List Piece}
    (h : Readable (.literal text :: pieces))
    (hopen : (unparse pieces).head? = some Text.openBrace) :
    text.getLast? ≠ some Text.backslash := by
  cases pieces with
  | nil => exact absurd hopen (by simp [unparse])
  | cons p pieces =>
    cases p with
    | literal text' => exact absurd rfl (h.not_literal text')
    | span source => exact (List.isChain_cons_cons.1 h.chain).1

namespace Segmentation

theorem head?_unparse_literal_append {text rest : Text}
    (h : ((Piece.literal text).unparse ++ rest).head? = some Text.openBrace) :
    text = [] ∧ rest.head? = some Text.openBrace := by
  cases text with
  | nil => exact ⟨rfl, h⟩
  | cons b text =>
    rw [Piece.unparse_literal_cons] at h
    split at h
    · exact absurd h (by simp [Text.backslash, Text.openBrace])
    · rename_i hb
      exact absurd (Option.some.inj h) hb

theorem scan_literal_cons (position start : Nat) (seen : Text) (done : List Segment) {b : UInt8}
    {rest : Text} (hb : b ≠ Text.openBrace)
    (hescape : b = Text.backslash → rest.head? ≠ some Text.openBrace) :
    scan position (.literal start seen) done (b :: rest) =
      scan (position + 1) (.literal (literalStart start position seen) (b :: seen)) done rest := by
  rw [scan, if_neg hb]
  cases rest with
  | nil => rfl
  | cons c rest =>
    have hnot : ¬ (b = Text.backslash ∧ c = Text.openBrace) := by
      rintro ⟨hb, rfl⟩
      exact hescape hb rfl
    exact if_neg hnot

/-- A literal is read byte by byte, unless its last byte makes an escape with what follows. -/
theorem exists_scan_literal (position start : Nat) (seen : Text) (done : List Segment)
    {text rest : Text}
    (h : rest.head? = some Text.openBrace → text.getLast? ≠ some Text.backslash) :
    ∃ start', scan position (.literal start seen) done ((Piece.literal text).unparse ++ rest) =
      scan (position + (Piece.literal text).unparse.length)
        (.literal start' (text.reverse ++ seen)) done rest := by
  induction text generalizing position start seen with
  | nil => exact ⟨start, rfl⟩
  | cons b text ih =>
    have htext : rest.head? = some Text.openBrace → text.getLast? ≠ some Text.backslash := by
      intro hrest hlast
      apply h hrest
      rw [List.getLast?_cons, hlast]
      rfl
    rw [Piece.unparse_literal_cons]
    by_cases hb : b = Text.openBrace
    · obtain ⟨start', hscan⟩ :=
        ih (position + 2) (literalStart start position seen) (b :: seen) htext
      refine ⟨start', ?_⟩
      rw [if_pos hb, List.length_append, ← Nat.add_assoc, List.reverse_cons, List.append_assoc,
        List.append_assoc, List.singleton_append]
      refine Eq.trans ?_ hscan
      rw [List.cons_append, List.singleton_append, scan, if_neg (by decide)]
      exact if_pos ⟨rfl, hb⟩
    · obtain ⟨start', hscan⟩ :=
        ih (position + 1) (literalStart start position seen) (b :: seen) htext
      refine ⟨start', ?_⟩
      rw [if_neg hb, List.length_append, ← Nat.add_assoc, List.reverse_cons, List.append_assoc,
        List.append_assoc, List.singleton_append, List.singleton_append]
      refine Eq.trans ?_ hscan
      apply scan_literal_cons _ _ _ _ hb
      intro hslash hhead
      obtain ⟨rfl, hrest⟩ := head?_unparse_literal_append hhead
      exact h hrest (by rw [hslash]; rfl)

theorem scan_span (position start : Nat) (seen : Text) (done : List Segment) {source : Text}
    (h : Text.closeBrace ∉ source) (rest : Text) :
    scan position (.span start seen) done (source ++ Text.closeBrace :: rest) =
      scan (position + source.length + 1) (.literal (position + source.length + 1) [])
        (⟨.span (seen.reverse ++ source), start⟩ :: done) rest := by
  induction source generalizing position seen with
  | nil => rw [List.nil_append, scan, if_pos rfl, List.append_nil, List.length_nil]
  | cons b source ih =>
    rw [List.mem_cons, not_or] at h
    rw [List.cons_append, scan, if_neg (Ne.symm h.1), ih _ _ h.2, List.reverse_cons,
      List.append_assoc, List.singleton_append, List.length_cons, Nat.add_assoc position 1,
      Nat.add_comm 1]

theorem flush_of_ne_nil {seen : Text} (h : seen ≠ []) (start : Nat) (done : List Segment) :
    flush start seen done = ⟨.literal seen.reverse, start⟩ :: done :=
  if_neg h

/-- Written pieces are read back, after the literal in progress unless they would continue it. -/
theorem scan_unparse {pieces : List Piece} (h : Readable pieces) (position start : Nat)
    (seen : Text) (hseen : seen = [] ∨ ∀ text, pieces.head? ≠ some (.literal text))
    (done : List Segment) :
    (scan position (.literal start seen) done (unparse pieces)).error = none ∧
      (scan position (.literal start seen) done (unparse pieces)).pieces =
        (flush start seen done).reverse.map (·.piece) ++ pieces := by
  induction pieces generalizing position start seen done with
  | nil => exact ⟨rfl, (List.append_nil _).symm⟩
  | cons p pieces ih =>
    have hread := h.each p List.mem_cons_self
    have hunparse : unparse (p :: pieces) = p.unparse ++ unparse pieces := List.flatMap_cons
    rw [hunparse]
    cases p with
    | literal text =>
      obtain rfl : seen = [] := hseen.resolve_right fun hne => hne text rfl
      obtain ⟨start', hscan⟩ := exists_scan_literal position start [] done h.getLast?_ne
      have hne : text.reverse ≠ [] := fun hnil => hread (List.reverse_eq_nil_iff.1 hnil)
      obtain ⟨herror, hpieces⟩ :=
        ih h.tail _ start' text.reverse (Or.inr h.not_literal) done
      rw [hscan, List.append_nil, hpieces, flush_of_ne_nil hne, List.reverse_cons,
        List.reverse_reverse, List.map_append, List.append_assoc]
      exact ⟨herror, rfl⟩
    | span source =>
      obtain ⟨herror, hpieces⟩ := ih h.tail (position + 1 + source.length + 1) _ [] (Or.inl rfl)
        (⟨.span source, position⟩ :: flush start seen done)
      rw [Piece.unparse_span, List.append_assoc, List.cons_append, List.singleton_append, scan,
        if_pos rfl, scan_span _ _ _ _ hread, List.reverse_nil, List.nil_append]
      refine ⟨herror, hpieces.trans ?_⟩
      rw [flush, if_pos rfl, List.reverse_cons, List.map_append, List.append_assoc]
      rfl

end Segmentation

theorem segments_unparse {pieces : List Piece} (h : Readable pieces) :
    (segments (unparse pieces)).error = none ∧ (segments (unparse pieces)).pieces = pieces :=
  Segmentation.scan_unparse h 0 0 [] (Or.inl rfl) []

/-- Reading segments loses nothing. On success the segments are written as the text; on failure they
are written as the text before a brace that is not closed, and the error holds the rest. Every
segment starts where those before it end. Readable pieces come back from what they are written as. -/
theorem segments_lossless :
    (∀ t : Text,
      ((segments t).error = none → unparse (segments t).pieces = t) ∧
      (∀ e, (segments t).error = some e → ∃ o, e.offset = some o ∧
        unparse (segments t).pieces = t.take o ∧ t[o]? = some Text.openBrace ∧
        Text.closeBrace ∉ t.drop (o + 1) ∧ e.source = t.drop o) ∧
      ∀ before seg after, (segments t).segments = before ++ seg :: after →
        seg.offset = (unparse (before.map (·.piece))).length) ∧
    ∀ pieces : List Piece, Readable pieces →
      (segments (unparse pieces)).error = none ∧ (segments (unparse pieces)).pieces = pieces := by
  refine ⟨fun t => ?_, fun pieces => segments_unparse⟩
  obtain ⟨hplaced, hfailure⟩ := segments_placed t
  have hwhole := unparse_segments t
  refine ⟨fun hnone => ?_, fun e he => ?_, hplaced⟩
  · rw [hnone] at hwhole
    exact (List.append_nil _).symm.trans hwhole
  · obtain ⟨hoffset, source, hsource, hopen⟩ := hfailure e he
    rw [he] at hwhole
    change unparse (segments t).pieces ++ e.source = t at hwhole
    generalize unparse (segments t).pieces = front at hoffset hwhole
    rw [hsource] at hwhole
    refine ⟨front.length, hoffset, ?_, ?_, ?_, ?_⟩
    · rw [← hwhole, List.take_left' rfl]
    · rw [← hwhole, List.getElem?_append_right (Nat.le_refl _), Nat.sub_self]
      rfl
    · rwa [← hwhole, ← List.drop_drop, List.drop_left' rfl]
    · rw [← hwhole, List.drop_left' rfl, hsource]

/-- Backslashes and escaped braces before a span that holds a brace of its own, and a brace that is
left open behind an escaped one. -/
theorem segments_lossless_escaped :
    let pieces : List Piece := [.literal "\\\x7b\\\x7b.", .span " \x7bx \\", .literal "\\"]
    let opened : Text := "a\\\x7b\x7bb"
    Readable pieces ∧ unparse pieces = "\\\\\x7b\\\\\x7b.\x7b \x7bx \\\x7d\\" ∧
      (segments (unparse pieces)).pieces = pieces ∧
      (segments opened).error = some ⟨.unterminatedSpan, "\x7bb", some 3⟩ ∧
      unparse (segments opened).pieces = opened.take 3 := by
  intro pieces opened
  have readable : Readable pieces := by decide
  have herror : (segments opened).error = some ⟨.unterminatedSpan, "\x7bb", some 3⟩ := by decide
  obtain ⟨hread, hback⟩ := segments_lossless
  obtain ⟨o, ho, hfront, _⟩ := (hread opened).2.1 _ herror
  obtain rfl := Option.some.inj ho
  exact ⟨readable, by decide, (hback pieces readable).2, herror, hfront⟩

end LineScript
