import LineScript.Interpolate
import LineScript.Proofs.Unparse

/-! The expansion of a text, piece by piece. Literal bytes, escaped braces and spans are expanded one
after the other, each independently of what stands before it, so that the expansion of two texts one
behind the other is made of their own expansions, unless the seam makes an escaped brace. -/

namespace LineScript

/-- The same failure in text that stands further on. -/
def EvalError.shift (n : Nat) (e : EvalError) : EvalError :=
  { e with offset := e.offset.map (n + ·) }

namespace Expansion

def shift (n : Nat) (x : Expansion) : Expansion := ⟨x.output, x.error.map (·.shift n)⟩

/-- An expansion and, unless it failed, another one behind it. -/
def andThen (x y : Expansion) : Expansion :=
  match x.error with
  | none => ⟨x.output ++ y.output, y.error⟩
  | some _ => x

theorem andThen_ok (t : Text) (y : Expansion) :
    andThen ⟨t, none⟩ y = ⟨t ++ y.output, y.error⟩ := rfl

theorem andThen_nil (x : Expansion) : x.andThen ⟨[], none⟩ = x := by
  obtain ⟨output, error⟩ := x
  cases error with
  | none => rw [andThen_ok, List.append_nil]
  | some e => rfl

theorem andThen_assoc (x y z : Expansion) : (x.andThen y).andThen z = x.andThen (y.andThen z) := by
  obtain ⟨output, error⟩ := x
  cases error with
  | some e => rfl
  | none =>
    obtain ⟨output', error'⟩ := y
    cases error' with
    | none => simp only [andThen_ok, List.append_assoc]
    | some e => rfl

theorem shift_andThen (n : Nat) (x y : Expansion) :
    (x.andThen y).shift n = (x.shift n).andThen (y.shift n) := by
  obtain ⟨output, error⟩ := x
  cases error <;> rfl

theorem shift_shift (m n : Nat) (x : Expansion) : (x.shift n).shift m = x.shift (m + n) := by
  obtain ⟨output, error⟩ := x
  cases error with
  | none => rfl
  | some e => cases h : e.offset <;> simp [shift, EvalError.shift, h, Nat.add_assoc]

theorem shift_zero (x : Expansion) : x.shift 0 = x := by
  obtain ⟨output, error⟩ := x
  cases error with
  | none => rfl
  | some e =>
    obtain ⟨cause, source, offset⟩ := e
    cases offset <;> simp [shift, EvalError.shift]

theorem error_andThen_eq_none {x y : Expansion} (h : (x.andThen y).error = none) :
    x.error = none ∧ y.error = none := by
  obtain ⟨output, error⟩ := x
  cases error with
  | none => exact ⟨rfl, h⟩
  | some e => exact absurd h (by simp [andThen])

theorem output_andThen {x : Expansion} (h : x.error = none) (y : Expansion) :
    (x.andThen y).output = x.output ++ y.output := by rw [andThen, h]

theorem error_shift_eq_none {n : Nat} {x : Expansion} : (x.shift n).error = none ↔ x.error = none :=
  Option.map_eq_none_iff

end Expansion

open Expansion

/-- What a piece expands to where it starts the text. -/
def Piece.expansion (s : Store) : Piece → Expansion
  | .literal t => ⟨t, none⟩
  | .span source =>
    match s.evaluate source with
    | .ok v => ⟨v.text, none⟩
    | .error e => ⟨[], some { e with offset := some 1 }⟩

theorem Piece.offset_of_error {s : Store} {p : Piece} {e : EvalError}
    (h : (p.expansion s).error = some e) : e.offset = some 1 := by
  cases p with
  | literal t => exact absurd h (by simp [expansion])
  | span source =>
    rw [expansion] at h
    split at h
    · exact absurd h (by simp)
    · exact Option.some.inj h ▸ rfl

def Segment.expansion (s : Store) (seg : Segment) : Expansion :=
  (seg.piece.expansion s).shift seg.offset

/-- The failure at a brace that starts the text and is left open. -/
def unterminated (source : Text) : EvalError := ⟨.unterminatedSpan, Text.openBrace :: source, some 0⟩

/-- A backslash at the end of one text makes an escape with a brace at the start of the other. -/
def Text.Escapes (a b : Text) : Prop := a.getLast? = some backslash ∧ b.head? = some openBrace

instance (a b : Text) : Decidable (a.Escapes b) := inferInstanceAs (Decidable (_ ∧ _))

namespace Text

theorem Escapes.append_left {a b : Text} (h : a.Escapes b) (front : Text) :
    (front ++ a).Escapes b := by
  refine ⟨?_, h.2⟩
  rw [List.getLast?_append, h.1]
  rfl

theorem Escapes.of_append_left {front a b : Text} (h : (front ++ a).Escapes b) (ha : a ≠ []) :
    a.Escapes b := by
  obtain ⟨hlast, hhead⟩ := h
  rw [List.getLast?_append_of_ne_nil _ ha] at hlast
  exact ⟨hlast, hhead⟩

/-- Only the first byte behind a seam matters to it. -/
theorem escapes_append_right {a b : Text} (hb : b ≠ []) (more : Text) :
    a.Escapes (b ++ more) ↔ a.Escapes b := by
  rw [Escapes, Escapes, List.head?_append_of_ne_nil _ hb]

end Text

/-- The last byte of a literal is the last byte it is written with. -/
theorem Piece.getLast?_unparse_literal (text : Text) :
    (Piece.literal text).unparse.getLast? = text.getLast? := by
  rcases List.eq_nil_or_concat text with rfl | ⟨front, b, rfl⟩
  · rfl
  · by_cases hb : b = Text.openBrace
    · rw [List.concat_eq_append, hb, Piece.unparse_literal_concat_openBrace]
      simp
    · rw [List.concat_eq_append, Piece.unparse_literal_concat _ hb]
      simp

theorem Piece.unparse_ne_nil {p : Piece} (h : p.IsReadable) : p.unparse ≠ [] := by
  cases p with
  | span source => rw [Piece.unparse_span]; exact List.cons_ne_nil _ _
  | literal text =>
    intro hnil
    have hlast := Piece.getLast?_unparse_literal text
    rw [hnil] at hlast
    exact h (List.getLast?_eq_none_iff.1 hlast.symm)

namespace Segmentation

theorem scan_span_open (position start : Nat) (seen : Text) (done : List Segment) {source : Text}
    (h : Text.closeBrace ∉ source) :
    scan position (.span start seen) done source =
      ⟨done.reverse, some ⟨.unterminatedSpan, Text.openBrace :: (seen.reverse ++ source),
        some start⟩⟩ := by
  induction source generalizing position seen with
  | nil => rw [scan, List.append_nil]
  | cons b source ih =>
    rw [List.mem_cons, not_or] at h
    rw [scan, if_neg (Ne.symm h.1), ih _ _ h.2, List.reverse_cons, List.append_assoc,
      List.singleton_append]

/-- Induction along the pieces of a text, up to a brace that is left open. -/
theorem piece_induction {motive : Text → Prop} (nil : motive [])
    (piece : ∀ (p : Piece) rest, p.IsReadable → ¬ p.unparse.Escapes rest → motive rest →
      motive (p.unparse ++ rest))
    (opened : ∀ source, Text.closeBrace ∉ source → motive (Text.openBrace :: source))
    (t : Text) : motive t := by
  induction hn : t.length using Nat.strongRecOn generalizing t with
  | ind n ih =>
    -- a piece in front takes up some of the text, so that the rest is shorter
    have step (p : Piece) (rest : Text) (hp : p.IsReadable) (hseam : ¬ p.unparse.Escapes rest)
        (ht : t = p.unparse ++ rest) : motive t := by
      have hlength := List.length_pos_of_ne_nil (Piece.unparse_ne_nil hp)
      rw [ht, List.length_append] at hn
      rw [ht]
      exact piece p rest hp hseam (ih rest.length (by omega) rest rfl)
    cases t with
    | nil => exact nil
    | cons b rest =>
      by_cases hbrace : b = Text.openBrace
      · subst hbrace
        by_cases hclose : Text.closeBrace ∈ rest
        · obtain ⟨source, more, rfl, hsource⟩ := List.eq_append_cons_of_mem hclose
          refine step (.span source) more hsource ?_ (by simp [Piece.unparse_span])
          rintro ⟨hlast, -⟩
          rw [Piece.unparse_span, List.getLast?_concat] at hlast
          exact absurd hlast (by decide)
        · exact opened rest hclose
      · by_cases hescape : b = Text.backslash ∧ rest.head? = some Text.openBrace
        · obtain ⟨rfl, hhead⟩ := hescape
          obtain ⟨more, rfl⟩ := List.head?_eq_some_iff.1 hhead
          refine step (.literal [Text.openBrace]) more (List.cons_ne_nil _ _) ?_ rfl
          exact fun hseam => absurd hseam.1 (by decide)
        · have hunparse : (Piece.literal [b]).unparse = [b] := by simp [Piece.unparse, hbrace]
          refine step (.literal [b]) rest (List.cons_ne_nil _ _) ?_ (by rw [hunparse]; rfl)
          rw [hunparse]
          exact fun hseam => hescape ⟨Option.some.inj hseam.1, hseam.2⟩

end Segmentation

namespace Store

open Segmentation

variable (s : Store)

theorem expandFrom_eq (atEnd : Option EvalError) (seen : List Text) (segs : List Segment) :
    s.expandFrom atEnd seen segs =
      andThen ⟨seen.reverse.flatten, none⟩ (s.expandFrom atEnd [] segs) := by
  induction segs generalizing seen with
  | nil => simp [expandFrom, andThen_ok]
  | cons seg segs ih =>
    obtain ⟨piece, offset⟩ := seg
    cases piece with
    | literal t =>
      rw [expandFrom, expandFrom, ih, ih [t]]
      simp [andThen_ok]
    | span source =>
      cases hv : s.evaluate source with
      | ok v =>
        simp only [expandFrom, hv]
        rw [ih, ih [v.text]]
        simp [andThen_ok]
      | error e => simp [expandFrom, hv, andThen_ok]

theorem expandFrom_cons (atEnd : Option EvalError) (seg : Segment) (segs : List Segment) :
    s.expandFrom atEnd [] (seg :: segs) =
      (seg.expansion s).andThen (s.expandFrom atEnd [] segs) := by
  obtain ⟨piece, offset⟩ := seg
  cases piece with
  | literal t =>
    rw [expandFrom, expandFrom_eq, List.reverse_singleton, List.flatten_singleton]
    rfl
  | span source =>
    cases hv : s.evaluate source with
    | ok v =>
      simp only [expandFrom, Segment.expansion, Piece.expansion, hv]
      rw [expandFrom_eq, List.reverse_singleton, List.flatten_singleton]
      rfl
    | error e =>
      simp [expandFrom, Segment.expansion, Piece.expansion, hv, andThen, shift, EvalError.shift]

theorem expandFrom_append (atEnd : Option EvalError) (segs more : List Segment) :
    s.expandFrom atEnd [] (segs ++ more) =
      (s.expandFrom none [] segs).andThen (s.expandFrom atEnd [] more) := by
  induction segs with
  | nil => rfl
  | cons seg segs ih => rw [List.cons_append, expandFrom_cons, expandFrom_cons, ih, andThen_assoc]

theorem expandFrom_atEnd (atEnd : Option EvalError) (segs : List Segment) :
    s.expandFrom atEnd [] segs = (s.expandFrom none [] segs).andThen ⟨[], atEnd⟩ := by
  have happend := s.expandFrom_append atEnd segs []
  rwa [List.append_nil] at happend

theorem expandFrom_concat (seg : Segment) (done : List Segment) :
    s.expandFrom none [] (seg :: done).reverse =
      (s.expandFrom none [] done.reverse).andThen (seg.expansion s) := by
  rw [List.reverse_cons, expandFrom_append, expandFrom_cons]
  exact congrArg _ (andThen_nil _)

theorem expandFrom_flush (start : Nat) (seen : Text) (done : List Segment) :
    s.expandFrom none [] (flush start seen done).reverse =
      (s.expandFrom none [] done.reverse).andThen ⟨seen.reverse, none⟩ := by
  unfold flush
  split
  · rename_i hseen
    rw [hseen, List.reverse_nil, andThen_nil]
  · exact s.expandFrom_concat _ done

/-- The expansion of what a reading has found. -/
def expandReading (r : Segmentation) : Expansion := s.expandFrom r.error [] r.segments

/-- A piece is read from wherever the reading is, and adds its own expansion. -/
theorem exists_scan_piece {p : Piece} {rest : Text} (hp : p.IsReadable)
    (hseam : ¬ p.unparse.Escapes rest) (position start : Nat) (seen : Text)
    (done : List Segment) :
    ∃ start' seen' done', scan position (.literal start seen) done (p.unparse ++ rest) =
        scan (position + p.unparse.length) (.literal start' seen') done' rest ∧
      s.expandFrom none [] (flush start' seen' done').reverse =
        (s.expandFrom none [] (flush start seen done).reverse).andThen
          ((p.expansion s).shift position) := by
  cases p with
  | literal text =>
    have hlast : rest.head? = some Text.openBrace → text.getLast? ≠ some Text.backslash := by
      intro hhead hlast
      exact hseam ⟨(Piece.getLast?_unparse_literal text).trans hlast, hhead⟩
    obtain ⟨start', hscan⟩ := exists_scan_literal position start seen done hlast
    refine ⟨start', text.reverse ++ seen, done, hscan, ?_⟩
    rw [expandFrom_flush, expandFrom_flush, andThen_assoc, List.reverse_append,
      List.reverse_reverse]
    rfl
  | span source =>
    have hplace : position + (Piece.span source).unparse.length =
        position + 1 + source.length + 1 := by rw [Piece.unparse_span]; simp; omega
    refine ⟨position + 1 + source.length + 1, [],
      ⟨.span source, position⟩ :: flush start seen done, ?_, s.expandFrom_concat _ _⟩
    rw [hplace, Piece.unparse_span, List.append_assoc, List.cons_append, List.singleton_append,
      scan, if_pos rfl, scan_span _ _ _ _ hp]
    rfl

/-- What is read on from a literal does not depend on what has been read. -/
theorem exists_expandReading_scan (t : Text) :
    ∃ x : Expansion, ∀ position start seen done,
      s.expandReading (scan position (.literal start seen) done t) =
        (s.expandFrom none [] (flush start seen done).reverse).andThen (x.shift position) := by
  induction t using piece_induction with
  | nil => exact ⟨⟨[], none⟩, fun position start seen done => (andThen_nil _).symm⟩
  | piece p rest hp hseam ih =>
    obtain ⟨x, hx⟩ := ih
    refine ⟨(p.expansion s).andThen (x.shift p.unparse.length),
      fun position start seen done => ?_⟩
    obtain ⟨start', seen', done', hscan, hdone⟩ :=
      s.exists_scan_piece hp hseam position start seen done
    rw [hscan, hx, hdone, andThen_assoc, shift_andThen, shift_shift]
  | opened source hsource =>
    refine ⟨⟨[], some (unterminated source)⟩, fun position start seen done => ?_⟩
    rw [scan, if_pos rfl, scan_span_open _ _ _ _ hsource, expandReading, expandFrom_atEnd]
    rfl

theorem expandReading_scan (t : Text) (position start : Nat) (seen : Text) (done : List Segment) :
    s.expandReading (scan position (.literal start seen) done t) =
      (s.expandFrom none [] (flush start seen done).reverse).andThen
        ((s.expand t).shift position) := by
  obtain ⟨x, hx⟩ := s.exists_expandReading_scan t
  have hexpand : s.expand t = x := (hx 0 0 [] []).trans x.shift_zero
  rw [hexpand, hx]

theorem expand_nil : s.expand [] = ⟨[], none⟩ := rfl

/-- A piece at the front of a text is expanded first, and then the rest by itself. -/
theorem expand_piece {p : Piece} {rest : Text} (hp : p.IsReadable)
    (hseam : ¬ p.unparse.Escapes rest) :
    s.expand (p.unparse ++ rest) =
      (p.expansion s).andThen ((s.expand rest).shift p.unparse.length) := by
  obtain ⟨start', seen', done', hscan, hdone⟩ := s.exists_scan_piece hp hseam 0 0 [] []
  change s.expandReading (scan 0 (.literal 0 []) [] (p.unparse ++ rest)) = _
  rw [hscan, expandReading_scan, hdone, Nat.zero_add, shift_zero]
  rfl

theorem expand_open {source : Text} (h : Text.closeBrace ∉ source) :
    s.expand (Text.openBrace :: source) = ⟨[], some (unterminated source)⟩ := by
  change s.expandReading (scan 0 (.literal 0 []) [] _) = _
  rw [scan, if_pos rfl, scan_span_open _ _ _ _ h]
  rfl

variable {s}

/-- Text behind a text that is expanded without a failure is expanded by itself, unless the seam
makes an escape. -/
theorem expand_append {a b : Text} (ha : (s.expand a).error = none) (hseam : ¬ a.Escapes b) :
    s.expand (a ++ b) = (s.expand a).andThen ((s.expand b).shift a.length) := by
  induction a using piece_induction with
  | nil => exact (shift_zero _).symm
  | piece p rest hp hpiece ih =>
    have hpiece' : ¬ p.unparse.Escapes (rest ++ b) := by
      by_cases hrest : rest = []
      · rw [hrest, List.append_nil] at hseam
        rwa [hrest]
      · rwa [Text.escapes_append_right hrest]
    rw [s.expand_piece hp hpiece] at ha ⊢
    have hrest := error_shift_eq_none.1 (error_andThen_eq_none ha).2
    rw [List.append_assoc, s.expand_piece hp hpiece',
      ih hrest fun h => hseam (h.append_left p.unparse), shift_andThen, shift_shift, andThen_assoc,
      List.length_append]
  | opened source hsource =>
    rw [s.expand_open hsource] at ha
    exact absurd ha (by simp)

/-- At a seam that makes an escape, the brace is printed in place of the backslash. -/
theorem exists_output_of_escapes {a b : Text} (ha : (s.expand a).error = none)
    (hseam : a.Escapes b) :
    ∃ front rest, (s.expand a).output = front ++ [Text.backslash] ∧
      (s.expand (a ++ b)).output = front ++ Text.openBrace :: rest := by
  induction a using piece_induction with
  | nil => exact absurd hseam.1 (by simp)
  | piece p rest hp hpiece ih =>
    rw [s.expand_piece hp hpiece] at ha ⊢
    obtain ⟨hfirst, hrest⟩ := error_andThen_eq_none ha
    by_cases hnil : rest = []
    · subst hnil
      rw [List.append_nil] at hseam ⊢
      obtain ⟨hlast, hhead⟩ := hseam
      obtain ⟨more, rfl⟩ := List.head?_eq_some_iff.1 hhead
      cases p with
      | span source =>
        rw [Piece.unparse_span, List.getLast?_concat] at hlast
        exact absurd hlast (by decide)
      | literal text =>
        rw [Piece.getLast?_unparse_literal] at hlast
        obtain ⟨front, rfl⟩ := List.getLast?_eq_some_iff.1 hlast
        have hmerged : (Piece.literal (front ++ [Text.backslash])).unparse ++
            Text.openBrace :: more = (Piece.literal (front ++ [Text.openBrace])).unparse ++ more := by
          rw [Piece.unparse_literal_concat _ (by decide), Piece.unparse_literal_concat_openBrace]
          simp
        have hreadable : (Piece.literal (front ++ [Text.openBrace])).IsReadable := by
          simp [Piece.IsReadable]
        have hopen : ¬ (Piece.literal (front ++ [Text.openBrace])).unparse.Escapes more := by
          rintro ⟨hbrace, -⟩
          rw [Piece.getLast?_unparse_literal, List.getLast?_concat] at hbrace
          exact absurd hbrace (by decide)
        refine ⟨front, (s.expand more).output, List.append_nil _, ?_⟩
        rw [hmerged, s.expand_piece hreadable hopen]
        exact List.append_assoc front _ _
    · have hpiece' : ¬ p.unparse.Escapes (rest ++ b) := by rwa [Text.escapes_append_right hnil]
      obtain ⟨front, more, hfront, hmore⟩ :=
        ih (error_shift_eq_none.1 hrest) (hseam.of_append_left hnil)
      refine ⟨(p.expansion s).output ++ front, more, ?_, ?_⟩
      · rw [output_andThen hfirst, List.append_assoc, ← hfront]
        rfl
      · rw [List.append_assoc, s.expand_piece hp hpiece', output_andThen hfirst, List.append_assoc,
          ← hmore]
        rfl
  | opened source hsource =>
    rw [s.expand_open hsource] at ha
    exact absurd ha (by simp)

theorem exists_offset_of_error {t : Text} {e : EvalError} (h : (s.expand t).error = some e) :
    ∃ o, e.offset = some o := by
  induction t using piece_induction generalizing e with
  | nil => exact absurd h (by simp [expand_nil])
  | piece p rest hp hseam ih =>
    rw [s.expand_piece hp hseam] at h
    cases hfirst : (p.expansion s).error with
    | some e' =>
      rw [andThen, hfirst] at h
      exact ⟨1, Piece.offset_of_error h⟩
    | none =>
      rw [andThen, hfirst] at h
      obtain ⟨e', he', rfl⟩ := Option.map_eq_some_iff.1 h
      obtain ⟨o, ho⟩ := ih he'
      exact ⟨p.unparse.length + o, congrArg (Option.map _) ho⟩
  | opened source hsource =>
    rw [s.expand_open hsource] at h
    exact ⟨0, Option.some.inj h ▸ rfl⟩

end Store

/-- Behind a text that is expanded without a failure, another text expands to what it expands to by
itself, and it fails by the same failure, as much further on as the first text is long. Only if a
backslash at the seam makes an escape with a brace, the outputs do not add up. -/
theorem expansion_homomorphic {s : Store} {a b : Text} (ha : (s.expand a).error = none) :
    (¬ a.Escapes b →
      (s.expand (a ++ b)).output = (s.expand a).output ++ (s.expand b).output ∧
      ((s.expand (a ++ b)).error = none ↔ (s.expand b).error = none) ∧
      ∀ e, (s.expand b).error = some e → ∃ o, e.offset = some o ∧
        (s.expand (a ++ b)).error = some { e with offset := some (a.length + o) }) ∧
    (a.Escapes b → (s.expand (a ++ b)).output ≠ (s.expand a).output ++ (s.expand b).output) := by
  constructor
  · intro hseam
    rw [Store.expand_append ha hseam, andThen, ha]
    refine ⟨rfl, error_shift_eq_none, fun e he => ?_⟩
    obtain ⟨o, ho⟩ := Store.exists_offset_of_error he
    refine ⟨o, ho, ?_⟩
    simp only [shift, he, Option.map_some, EvalError.shift, ho]
  · intro hseam hequal
    obtain ⟨front, rest, hfront, hwhole⟩ := Store.exists_output_of_escapes ha hseam
    rw [hfront, hwhole, List.append_assoc] at hequal
    have hhead := (List.cons.inj (List.append_cancel_left hequal)).1
    exact absurd hhead (by decide)

/-- A backslash at the seam, before a letter and before a brace. -/
theorem expansion_homomorphic_backslash :
    let s : Store := .ofList [("x", .int 2)]
    let a : Text := "\x7bx\x7d\\"
    let b : Text := "n\x7bq.r\x7d"
    (s.expand a).error = none ∧ ¬ a.Escapes b ∧
      (s.expand (a ++ b)).output = (s.expand a).output ++ (s.expand b).output ∧
      (s.expand (a ++ b)).error = some ⟨.literal .expectedDigits, "q.r", some 6⟩ ∧
      a.Escapes [Text.openBrace] ∧
      (s.expand (a ++ [Text.openBrace])).output ≠
        (s.expand a).output ++ (s.expand [Text.openBrace]).output := by
  intro s a b
  have passes : (s.expand a).error = none := by decide
  have seam : ¬ a.Escapes b := by decide
  have escape : a.Escapes [Text.openBrace] := by decide
  have fails : (s.expand b).error = some ⟨.literal .expectedDigits, "q.r", some 2⟩ := by decide
  obtain ⟨houtput, -, herror⟩ := (expansion_homomorphic passes).1 seam
  obtain ⟨o, ho, hmoved⟩ := herror _ fails
  obtain rfl := Option.some.inj ho
  exact ⟨passes, seam, houtput, hmoved, escape, (expansion_homomorphic passes).2 escape⟩

end LineScript
