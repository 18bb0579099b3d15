import LineScript.Proofs.Place

/-! What a failing interpolation has written. It is the line that the text before the failing span
makes by itself. The failing span is the first that cannot be evaluated, or the one that is left open
if all closed ones can be. -/

namespace LineScript

open Expansion Segmentation

namespace EvalError

/-- Where the brace of the failing span stands. A span that cannot be evaluated fails behind its
brace, and one that is left open at it. -/
def brace (e : EvalError) : Nat :=
  if e.cause.fault = .malformedInterpolation then e.offset.getD 0 else e.offset.getD 0 - 1

def HasBrace (e : EvalError) (b : Nat) : Prop :=
  e.offset = some (if e.cause = .unterminatedSpan then b else b + 1)

theorem HasBrace.brace_eq {e : EvalError} {b : Nat} (h : e.HasBrace b) : e.brace = b := by
  unfold HasBrace at h
  rw [brace, h, Option.getD_some]
  cases e.cause <;> rfl

theorem HasBrace.shift {e : EvalError} {b : Nat} (h : e.HasBrace b) (n : Nat) :
    (e.shift n).HasBrace (n + b) := by
  unfold HasBrace at h ⊢
  by_cases hcause : e.cause = .unterminatedSpan
  · simp [EvalError.shift, h, hcause]
  · simp [EvalError.shift, h, hcause, Nat.add_assoc]

end EvalError

/-- The span at an offset of a text is the one for which the expansion of the text fails. -/
inductive Store.FailingSpan (s : Store) (t : Text) (b : Nat) : EvalError → Prop
  /-- The first span that cannot be evaluated. -/
  | evaluation {before after : List Segment} {source : Text} {e : EvalError} :
    (segments t).segments = before ++ ⟨.span source, b⟩ :: after →
    (∀ closed o, ⟨.span closed, o⟩ ∈ before → (s.evaluate closed).isOk = true) →
    s.evaluate source = .error e → FailingSpan s t b { e with offset := some (b + 1) }
  /-- The span that is left open, behind closed ones that can all be evaluated. -/
  | leftOpen {source : Text} :
    t.drop b = Text.openBrace :: source → Text.closeBrace ∉ source →
    unparse (segments t).pieces = t.take b →
    (∀ closed ∈ (segments t).spans, (s.evaluate closed).isOk = true) →
    FailingSpan s t b ⟨.unterminatedSpan, Text.openBrace :: source, some b⟩

namespace Store

variable {s : Store} {t : Text} {e : EvalError}

theorem FailingSpan.hasBrace {b : Nat} (h : s.FailingSpan t b e) : e.HasBrace b := by
  cases h with
  | evaluation _ _ he => exact congrArg some (if_neg (evaluate_error he).2).symm
  | leftOpen => rfl

theorem FailingSpan.getElem? {b : Nat} (h : s.FailingSpan t b e) : t[b]? = some Text.openBrace := by
  cases h with
  | evaluation hsegments _ _ => exact getElem?_of_segments hsegments
  | leftOpen hopen _ _ _ =>
    have hhead : (t.drop b)[0]? = some Text.openBrace := by rw [hopen]; rfl
    rwa [List.getElem?_drop] at hhead

theorem exists_failingSpan (h : (s.expand t).error = some e) : ∃ b, s.FailingSpan t b e := by
  rw [error_expand] at h
  cases hfailure : s.failure? t with
  | some err =>
    rw [hfailure, Option.some_or] at h
    obtain rfl := Option.some.inj h
    obtain ⟨before, source, b, after, e', hsegments, hbefore, he, rfl⟩ :=
      exists_segment_of_failure? hfailure
    exact ⟨b, .evaluation hsegments hbefore he⟩
  | none =>
    rw [hfailure, Option.none_or] at h
    obtain ⟨front, source, hfront, ht, hclose, rfl⟩ := exists_open_of_error_segments h
    exact ⟨_, .leftOpen (by rw [ht, List.drop_left]) hclose (by rw [hfront, ht, List.take_left])
      ((failure?_eq_none_iff s t).1 hfailure)⟩

theorem output_of_error_expansion {p : Piece} (h : (p.expansion s).error = some e) :
    (p.expansion s).output = [] := by
  cases p with
  | literal text => exact absurd h (by simp [Piece.expansion])
  | span source =>
    rw [Piece.expansion] at h ⊢
    cases hv : s.evaluate source with
    | ok v => simp [hv] at h
    | error e' => rfl

/-- A text whose expansion fails, cut at the brace of the failing span, expands without a failure to
the same output. -/
theorem exists_expand_take_of_error (h : (s.expand t).error = some e) :
    ∃ b, e.HasBrace b ∧ s.expand (t.take b) = ⟨(s.expand t).output, none⟩ := by
  induction t using piece_induction generalizing e with
  | nil => exact absurd h (by simp [expand_nil])
  | piece p rest hp hseam ih =>
    rw [s.expand_piece hp hseam] at h ⊢
    cases hfirst : (p.expansion s).error with
    | some err =>
      -- the piece is the failing span, and nothing stands before it
      rw [andThen, hfirst] at h ⊢
      obtain rfl := Option.some.inj (hfirst.symm.trans h)
      refine ⟨0, ?_, ?_⟩
      · rw [EvalError.HasBrace, Piece.offset_of_error hfirst,
          if_neg (Piece.cause_ne_of_error hfirst)]
      · rw [List.take_zero, expand_nil, output_of_error_expansion hfirst]
    | none =>
      rw [andThen, hfirst] at h ⊢
      obtain ⟨err, herr, rfl⟩ := Option.map_eq_some_iff.1 h
      obtain ⟨b, hbrace, hcut⟩ := ih herr
      have hseam' : ¬ p.unparse.Escapes (rest.take b) := by
        rintro ⟨hlast, hhead⟩
        rw [List.head?_take] at hhead
        split at hhead
        · exact absurd hhead (by simp)
        · exact hseam ⟨hlast, hhead⟩
      refine ⟨p.unparse.length + b, hbrace.shift _, ?_⟩
      rw [List.take_length_add_append, s.expand_piece hp hseam', hcut, andThen, hfirst]
      rfl
  | opened source hsource =>
    rw [s.expand_open hsource] at h ⊢
    obtain rfl := Option.some.inj h
    exact ⟨0, rfl, by rw [List.take_zero, expand_nil]⟩

end Store

/-- What a failing interpolation has written is exactly what comes before the failing span. The sink
takes one line, the one that the text up to the brace of that span makes by itself, without a
failure. -/
theorem interpolate_before_failure {s : Session} {sink : Sink} {t : Text}
    {err : Session.InterpolateError} (accepts : sink.refusal s.attempts = none)
    (fails : (s.interpolate sink t).2 = some err) :
    ∃ e, err = .evaluation e ∧ t[e.brace]? = some Text.openBrace ∧
      s.engine.store.FailingSpan t e.brace e ∧
      (s.interpolate sink (t.take e.brace)).2 = none ∧
      (s.interpolate sink (t.take e.brace)).1 = (s.interpolate sink t).1 ∧
      (s.interpolate sink t).1.output =
        s.output ++ s.engine.store.echoLine (t.take e.brace) := by
  cases herror : (s.engine.store.expand t).error with
  | none => simp [Session.interpolate, herror, accepts] at fails
  | some e =>
    obtain ⟨b, hspan⟩ := Store.exists_failingSpan herror
    obtain ⟨b', hbrace, hcut⟩ := Store.exists_expand_take_of_error herror
    obtain rfl : b' = b := hbrace.brace_eq.symm.trans hspan.hasBrace.brace_eq
    obtain rfl := hbrace.brace_eq
    have herr : err = .evaluation e := by
      simpa [Session.interpolate, herror, eq_comm] using fails
    refine ⟨e, herr, hspan.getElem?, hspan, ?_, ?_, ?_⟩
    · simp only [Session.interpolate, hcut, accepts, Option.map_none]
    · simp only [Session.interpolate, hcut]
    · simp [Session.interpolate, Store.echoLine, hcut, Session.write, Session.output, accepts]

/-- A span that cannot be evaluated behind an escaped brace, with a span that is left open behind it,
and a span that is left open behind two backslashes, the second of which escapes a brace. -/
theorem interpolate_before_failure_escaped :
    let s : Session :=
      { engine := { globals := .empty, lineLimit := 65536, store := .ofList [("x", .int 2)] } }
    let failing : Text := "\x7bx\x7d\\\x7b\x7bq.r\x7d \x7by"
    let opened : Text := "\\\\\x7b\x7bx\x7d\x7by"
    let literal : EvalError := ⟨.literal .expectedDigits, "q.r", some 6⟩
    let unclosed : EvalError := ⟨.unterminatedSpan, "\x7by", some 6⟩
    Sink.refusal {} s.attempts = none ∧
      (s.interpolate {} failing).2 = some (.evaluation literal) ∧
      s.engine.store.FailingSpan failing 5 literal ∧
      (s.interpolate {} (failing.take 5)).2 = none ∧
      (s.interpolate {} failing).1.output = "2\x7b\n" ∧
      (s.interpolate {} opened).2 = some (.evaluation unclosed) ∧
      s.engine.store.FailingSpan opened 6 unclosed ∧
      (s.interpolate {} (opened.take 6)).2 = none ∧
      (s.interpolate {} opened).1.output = "\\\x7b2\n" := by
  intro s failing opened literal unclosed
  have accepts : Sink.refusal {} s.attempts = none := rfl
  have hfailing : (s.engine.store.expand failing).error = some literal := by decide +kernel
  have hopened : (s.engine.store.expand opened).error = some unclosed := by decide +kernel
  have failingFails : (s.interpolate {} failing).2 = some (.evaluation literal) := by
    simp only [Session.interpolate, hfailing]
  have openedFails : (s.interpolate {} opened).2 = some (.evaluation unclosed) := by
    simp only [Session.interpolate, hopened]
  obtain ⟨e, he, -, hspan, hpasses, -, houtput⟩ :=
    interpolate_before_failure accepts failingFails
  obtain ⟨e', he', -, hspan', hpasses', -, houtput'⟩ :=
    interpolate_before_failure accepts openedFails
  obtain rfl := Session.InterpolateError.evaluation.inj he
  obtain rfl := Session.InterpolateError.evaluation.inj he'
  exact ⟨accepts, failingFails, hspan, hpasses, houtput.trans (by decide +kernel), openedFails,
    hspan', hpasses', houtput'.trans (by decide +kernel)⟩

end LineScript
