import LineScript.Proofs.Run
import LineScript.Proofs.Span

/-! What one line does. An echo fails at its first span that cannot be evaluated; only if there is
none does an unterminated span count. Only declarations change the variables. -/

namespace LineScript

/-- The failure of a segment, pointing behind its opening brace. -/
def Segment.failure? (s : Store) : Segment → Option EvalError
  | ⟨.literal _, _⟩ => none
  | ⟨.span source, offset⟩ =>
    match s.evaluate source with
    | .ok _ => none
    | .error e => some { e with offset := some (offset + 1) }

theorem Segment.failure?_of_ok {s : Store} {source : Text} {v : Value}
    (h : s.evaluate source = .ok v) (offset : Nat) :
    Segment.failure? s ⟨.span source, offset⟩ = none := by
  rw [Segment.failure?, h]

theorem Segment.failure?_of_error {s : Store} {source : Text} {e : EvalError}
    (h : s.evaluate source = .error e) (offset : Nat) :
    Segment.failure? s ⟨.span source, offset⟩ = some { e with offset := some (offset + 1) } := by
  rw [Segment.failure?, h]

/-- The sources of the spans that a raw line has, if it is an echo. -/
def Line.spans (raw : Text) : List Text :=
  if classify raw.trim = .echo then (segments (echoText raw.trim)).spans else []

theorem Line.isPrefixOf_of_classify {line : Text} (h : classify line = .echo) :
    echoKeyword.isPrefixOf line = true := by
  unfold classify at h
  split at h
  · assumption
  · split at h <;> exact absurd h (by simp)

theorem Line.eq_echoKeyword_append {line : Text} (h : classify line = .echo) :
    line = echoKeyword ++ echoText line := by
  have hkeyword := isPrefixOf_of_classify h
  obtain ⟨rest, rfl⟩ := List.isPrefixOf_iff_prefix.1 hkeyword
  rw [echoText, if_pos hkeyword, List.drop_left' rfl]

theorem Line.echoText_isSuffix (line : Text) : echoText line <:+ line := by
  unfold echoText
  split
  · exact List.drop_suffix _ _
  · exact List.suffix_rfl

theorem Line.braced_of_mem_spans {raw source : Text} (h : source ∈ spans raw) :
    Text.openBrace :: source ++ [Text.closeBrace] <:+: raw := by
  unfold spans at h
  split at h
  · exact ((LineScript.braced_of_mem_spans h).trans (echoText_isSuffix _).isInfix).trans
      (Text.trim_isInfix raw)
  · exact absurd h List.not_mem_nil

namespace Store

/-- The first failure among the spans of a text. -/
def failure? (s : Store) (t : Text) : Option EvalError :=
  (segments t).segments.findSome? (·.failure? s)

/-- The variables after a raw line: an effective declaration binds its identifier. -/
def after (s : Store) (raw : Text) : Store :=
  match Line.classify raw.trim with
  | .declaration =>
    match s.assign raw.trim with
    | .ok store => store
    | .error _ => s
  | _ => s

theorem assign_ok {s s' : Store} {line : Text} (h : s.assign line = .ok s') :
    s' = s ∨ ∃ v, s' = s.set (Declaration.ofLine line).identifier v := by
  unfold assign Declaration.run at h
  repeat' split at h
  all_goals cases h
  · exact Or.inl rfl
  · exact Or.inr ⟨_, rfl⟩

theorem assign_error {s : Store} {line : Text} {e : EvalError} (h : s.assign line = .error e) :
    ∃ l, e = { cause := .literal l, source := (Declaration.ofLine line).value } := by
  unfold assign Declaration.run at h
  repeat' split at h
  all_goals cases h
  exact ⟨_, rfl⟩

theorem error_expandFrom (s : Store) (atEnd : Option EvalError) (seen : List Text)
    (segs : List Segment) :
    (s.expandFrom atEnd seen segs).error = (segs.findSome? (·.failure? s)).or atEnd := by
  induction segs generalizing seen with
  | nil => rfl
  | cons seg segs ih =>
    obtain ⟨piece, offset⟩ := seg
    cases piece with
    | literal t => exact ih (t :: seen)
    | span source =>
      cases hv : s.evaluate source with
      | ok v =>
        rw [expandFrom, hv, List.findSome?_cons, Segment.failure?_of_ok hv]
        exact ih (v.text :: seen)
      | error e =>
        rw [expandFrom, hv, List.findSome?_cons, Segment.failure?_of_error hv]
        rfl

theorem error_expand (s : Store) (t : Text) :
    (s.expand t).error = (s.failure? t).or (segments t).error :=
  error_expandFrom s _ [] _

/-- Evaluation outside of interpolated text fails at no offset, and never for an open brace. -/
theorem evaluate_error {s : Store} {expr : Text} {e : EvalError}
    (h : s.evaluate expr = .error e) : e.offset = none ∧ e.cause ≠ .unterminatedSpan := by
  simp only [evaluate] at h
  split at h
  · exact absurd h (by simp)
  · unfold evaluateUnbound at h
    repeat' split at h
    all_goals cases h
    all_goals exact ⟨rfl, Cause.noConfusion⟩

theorem failure?_eq_none_iff (s : Store) (t : Text) :
    s.failure? t = none ↔ ∀ source ∈ (segments t).spans, (s.evaluate source).isOk = true := by
  rw [failure?, List.findSome?_eq_none_iff]
  simp only [Segmentation.spans, List.mem_filterMap]
  constructor
  · rintro h source ⟨⟨piece, offset⟩, hseg, hpiece⟩
    have hnone := h _ hseg
    cases piece with
    | literal text => exact absurd hpiece (by simp)
    | span text =>
      obtain rfl := Option.some.inj hpiece
      cases hv : s.evaluate text with
      | ok v => rfl
      | error e => simp [Segment.failure?_of_error hv] at hnone
  · rintro h ⟨piece, offset⟩ hseg
    cases piece with
    | literal text => rfl
    | span text =>
      have hok := h text ⟨_, hseg, rfl⟩
      cases hv : s.evaluate text with
      | ok v => exact Segment.failure?_of_ok hv offset
      | error e => simp [hv, Except.isOk, Except.toBool] at hok

theorem failure?_fault {s : Store} {t : Text} {e : EvalError} (h : s.failure? t = some e) :
    e.cause.fault ≠ .malformedInterpolation := by
  obtain ⟨⟨piece, offset⟩, _, hfailure⟩ := List.exists_of_findSome?_eq_some h
  cases piece with
  | literal text => exact absurd hfailure (by simp [Segment.failure?])
  | span source =>
    cases hv : s.evaluate source with
    | ok v => simp [Segment.failure?_of_ok hv] at hfailure
    | error err =>
      rw [Segment.failure?_of_error hv] at hfailure
      obtain rfl := Option.some.inj hfailure
      -- only the reader of segments finds a brace left open
      have hcause := (evaluate_error hv).2
      cases hc : err.cause with
      | literal l => simp [Cause.fault]
      | divisionByZero => simp [Cause.fault]
      | unterminatedSpan => exact absurd hc hcause

end Store

theorem Segmentation.cause_of_error_scan (position : Nat) (st : State) (done : List Segment)
    (t : Text) {e : EvalError} (h : (scan position st done t).error = some e) :
    e.cause = .unterminatedSpan := by
  fun_induction scan position st done t with
  | case1 => exact absurd h (by simp)
  | case2 =>
    obtain rfl := Option.some.inj h
    rfl
  | case3 _ _ _ _ _ ih => exact ih h
  | case4 _ _ _ _ _ _ _ ih => exact ih h
  | case5 _ _ _ _ _ ih => exact ih h
  | case6 _ _ _ _ _ _ _ ih => exact ih h
  | case7 _ _ _ _ _ _ _ _ _ _ ih => exact ih h
  | case8 _ _ _ _ _ _ _ _ _ _ ih => exact ih h

theorem cause_of_error_segments {t : Text} {e : EvalError} (h : (segments t).error = some e) :
    e.cause = .unterminatedSpan :=
  Segmentation.cause_of_error_scan 0 (.literal 0 []) [] t h

namespace Engine

/-- The offset in a raw line at which an error in the text it echoes lies. -/
def echoOffset (raw : Text) (err : EvalError) : Nat :=
  raw.indent + Line.echoKeyword.length + err.offset.getD 0

theorem echo_of_failure {e : Engine} {line : Text} {err : EvalError}
    (h : e.store.failure? (Line.echoText line) = some err) (refusal : Option Text) (raw : Text) :
    (e.echo refusal raw line).failure =
        some (.runtime (Located.ofOffset e.line raw (echoOffset raw err) err)) ∧
      (e.echo refusal raw line).diagnostic = none := by
  have herror : (e.store.expand (Line.echoText line)).error = some err := by
    rw [Store.error_expand, h, Option.some_or]
  simp only [echo, herror, if_neg (Store.failure?_fault h)]
  exact ⟨rfl, trivial⟩

theorem echo_of_unterminated {e : Engine} {line : Text} {err : EvalError}
    (h : e.store.failure? (Line.echoText line) = none)
    (hend : (segments (Line.echoText line)).error = some err) (refusal : Option Text)
    (raw : Text) :
    (e.echo refusal raw line).failure = none ∧
      (e.echo refusal raw line).diagnostic =
        some (Located.ofOffset e.line raw (echoOffset raw err) err) := by
  have herror : (e.store.expand (Line.echoText line)).error = some err := by
    rw [Store.error_expand, h, hend, Option.none_or]
  have hfault : err.cause.fault = .malformedInterpolation := by
    rw [cause_of_error_segments hend]
    rfl
  simp only [echo, herror, if_pos hfault]
  exact ⟨trivial, rfl⟩

theorem echo_of_terminated {e : Engine} {line : Text}
    (h : e.store.failure? (Line.echoText line) = none)
    (hend : (segments (Line.echoText line)).error = none) (refusal : Option Text) (raw : Text) :
    (e.echo refusal raw line).failure = refusal.map (.write e.line) ∧
      (e.echo refusal raw line).diagnostic = none := by
  have herror : (e.store.expand (Line.echoText line)).error = none := by
    rw [Store.error_expand, h, hend, Option.none_or]
  simp only [echo, herror]
  exact ⟨trivial, trivial⟩

theorem write_echo (e : Engine) (refusal : Option Text) (raw line : Text) :
    (e.echo refusal raw line).write =
      some ((e.store.expand (Line.echoText line)).output ++ [Text.lf]) := by
  simp only [echo]
  split
  · rfl
  · split <;> rfl

theorem declare_of_ok {e : Engine} {line : Text} {store : Store}
    (h : e.store.assign line = .ok store) (raw : Text) :
    e.declare raw line = { engine := { e with store } } := by
  rw [declare, h]

theorem declare_of_error {e : Engine} {line : Text} {err : EvalError}
    (h : e.store.assign line = .error err) (raw : Text) :
    e.declare raw line = { engine := e, failure := some (.runtime
      (Located.ofOffset e.line raw (raw.indent + (Declaration.ofLine line).valueOffset) err)) } := by
  rw [declare, h]

section Inversion
variable {e : Engine} {refusal : Option Text} {raw : Text}

theorem echo_diagnostic {d : Diagnostic} {line : Text}
    (h : (e.echo refusal raw line).diagnostic = some d) :
    ∃ err, (e.store.expand (Line.echoText line)).error = some err ∧
      err.cause = .unterminatedSpan ∧ d = Located.ofOffset e.line raw (echoOffset raw err) err := by
  cases hfailure : e.store.failure? (Line.echoText line) with
  | some err =>
    rw [(echo_of_failure hfailure refusal raw).2] at h
    exact absurd h (by simp)
  | none =>
    cases hend : (segments (Line.echoText line)).error with
    | none =>
      rw [(echo_of_terminated hfailure hend refusal raw).2] at h
      exact absurd h (by simp)
    | some err =>
      rw [(echo_of_unterminated hfailure hend refusal raw).2] at h
      refine ⟨err, ?_, cause_of_error_segments hend, (Option.some.inj h).symm⟩
      rw [Store.error_expand, hfailure, hend, Option.none_or]

theorem echo_runtime {l : Located} {line : Text}
    (h : (e.echo refusal raw line).failure = some (.runtime l)) :
    ∃ err, e.store.failure? (Line.echoText line) = some err ∧
      l = Located.ofOffset e.line raw (echoOffset raw err) err := by
  cases hfailure : e.store.failure? (Line.echoText line) with
  | some err =>
    rw [(echo_of_failure hfailure refusal raw).1] at h
    exact ⟨err, rfl, (Failure.runtime.inj (Option.some.inj h)).symm⟩
  | none =>
    cases hend : (segments (Line.echoText line)).error with
    | none =>
      rw [(echo_of_terminated hfailure hend refusal raw).1] at h
      obtain ⟨reason, -, hwrite⟩ := Option.map_eq_some_iff.1 h
      exact absurd hwrite (by simp)
    | some err =>
      rw [(echo_of_unterminated hfailure hend refusal raw).1] at h
      exact absurd h (by simp)

theorem declare_diagnostic (line : Text) : (e.declare raw line).diagnostic = none := by
  unfold declare
  split <;> rfl

theorem declare_runtime {l : Located} {line : Text}
    (h : (e.declare raw line).failure = some (.runtime l)) :
    ∃ err, l =
      Located.ofOffset e.line raw (raw.indent + (Declaration.ofLine line).valueOffset) err := by
  cases hassign : e.store.assign line with
  | ok store =>
    rw [declare_of_ok hassign] at h
    exact absurd h (by simp)
  | error err =>
    rw [declare_of_error hassign] at h
    exact ⟨err, (Failure.runtime.inj (Option.some.inj h)).symm⟩

end Inversion

theorem count_store (e : Engine) (s : Statement) : (e.count s).store = e.store := rfl

/-- Behind a line the engine has counted it, with its report if it makes one, and has the variables
that the line leaves. -/
theorem exec_engine (e : Engine) (refusal : Option Text) (raw : Text) :
    let counted := e.count (Line.classify raw.trim)
    let reports := (e.exec refusal raw).diagnostic.toList.length
    (e.exec refusal raw).engine = { counted with
      store := e.store.after raw
      stats := { counted.stats with diagnostics := counted.stats.diagnostics + reports } } := by
  unfold Store.after
  cases h : Line.classify raw.trim with
  | ignored =>
    rw [exec_ignored h]
    rfl
  | echo =>
    rw [exec_echo h]
    exact echo_engine ..
  | declaration =>
    rw [exec_declaration h, declare, count_store]
    cases e.store.assign raw.trim <;> rfl

/-- Executing a line leaves the variables that the line leaves. -/
theorem exec_store (e : Engine) (refusal : Option Text) (raw : Text) :
    (e.exec refusal raw).engine.store = e.store.after raw := by
  rw [exec_engine]

end Engine

theorem Session.exec_store (s : Session) (sink : Sink) (raw : Text) :
    (s.exec sink raw).1.engine.store = s.engine.store.after raw := by
  rw [exec_engine, Engine.exec_store]

end LineScript
