import LineScript.Proofs.Exec
import LineScript.Proofs.Turns

/-! How the execution of a line ends. It passes quietly, reports an unterminated span, fails to
evaluate, or fails because the sink refuses what it prints; it ends in exactly one of these ways,
and the line, the variables and the sink say in which. Only a declaration that passes changes the
variables, and only at its identifier. -/

namespace LineScript

inductive Ending where
  | quiet
  | reported
  | failed
  | refused
  deriving DecidableEq

namespace Ending

/-- What an ending says of the session after a line and of the failure of the line. -/
def Holds (sink : Sink) (before after : Session) (failure : Option Failure) : Ending → Prop
  | .quiet => after.diagnostics = before.diagnostics ∧ failure = none
  | .reported => failure = none ∧ ∃ d : Diagnostic,
      after.diagnostics = d :: before.diagnostics ∧
        d.error.cause.fault = .malformedInterpolation
  | .failed => after.diagnostics = before.diagnostics ∧ ∃ place : Located,
      failure = some (.runtime place) ∧
        (place.error.cause.fault = .malformedLiteral ∨ place.error.cause.fault = .divisionByZero)
  | .refused => after.diagnostics = before.diagnostics ∧ ∃ reason : Text,
      after.attempts = before.attempts + 1 ∧ sink.refusal before.attempts = some reason ∧
        failure = some (.write after.engine.line reason)

/-- The ending as it is seen from outside. -/
def observed (before after : Session) : Option Failure → Ending
  | none => if after.diagnostics = before.diagnostics then .quiet else .reported
  | some (.write _ _) => .refused
  | some _ => .failed

theorem Holds.eq_observed {sink : Sink} {before after : Session} {failure : Option Failure}
    {k : Ending} (h : k.Holds sink before after failure) : k = observed before after failure := by
  cases k with
  | quiet =>
    obtain ⟨hsame, rfl⟩ := h
    rw [observed, if_pos hsame]
  | reported =>
    obtain ⟨rfl, d, hmore, _⟩ := h
    have hdiffer : after.diagnostics ≠ before.diagnostics := by
      rw [hmore]
      exact List.cons_ne_self d _
    rw [observed, if_neg hdiffer]
  | failed =>
    obtain ⟨_, place, rfl, _⟩ := h
    rfl
  | refused =>
    obtain ⟨_, reason, _, _, rfl⟩ := h
    rfl

end Ending

theorem Cause.fault_of_ne {c : Cause} (h : c.fault ≠ .malformedInterpolation) :
    c.fault = .malformedLiteral ∨ c.fault = .divisionByZero := by
  cases c with
  | literal e => exact Or.inl rfl
  | divisionByZero => exact Or.inr rfl
  | unterminatedSpan => exact absurd rfl h

namespace Store

theorem after_of_ne {s : Store} {raw : Text} (h : Line.classify raw.trim ≠ .declaration) :
    s.after raw = s := by
  unfold after
  split
  · exact absurd ‹_› h
  · rfl

theorem get?_after {s : Store} {raw name : Text}
    (h : name ≠ (Declaration.ofLine raw.trim).identifier) :
    (s.after raw).get? name = s.get? name := by
  unfold after
  split
  · split
    · rename_i store hassign
      rcases assign_ok hassign with rfl | ⟨v, rfl⟩
      · rfl
      · exact get?_set_of_ne s h v
    · rfl
  · rfl

/-- The ending that the variables and the answer of the sink call for. -/
def ending (s : Store) (refusal : Option Text) (raw : Text) : Ending :=
  match Line.classify raw.trim with
  | .ignored => .quiet
  | .declaration => if (s.assign raw.trim).isOk then .quiet else .failed
  | .echo =>
    if s.failure? (Line.echoText raw.trim) ≠ none then .failed
    else if (segments (Line.echoText raw.trim)).error ≠ none then .reported
    else if refusal ≠ none then .refused
    else .quiet

theorem after_of_ending_ne {s : Store} {refusal : Option Text} {raw : Text}
    (h : s.ending refusal raw ≠ .quiet) : s.after raw = s := by
  unfold ending at h
  unfold after
  cases hkind : Line.classify raw.trim with
  | ignored => rfl
  | echo => rfl
  | declaration =>
    rw [hkind] at h
    cases hassign : s.assign raw.trim with
    | error err => rfl
    | ok store =>
      rw [hassign] at h
      exact absurd rfl h

end Store

namespace Session

variable {s : Session} {sink : Sink} {raw : Text}

section Step
variable {step : Step} (hstep : s.engine.exec (sink.refusal s.attempts) raw = step)
  (hdiagnostic : step.diagnostic = none)
include hstep hdiagnostic

theorem diagnostics_exec_of_none : (s.exec sink raw).1.diagnostics = s.diagnostics := by
  rw [exec_diagnostics, hstep, hdiagnostic, Option.toList_none, List.nil_append]

theorem holds_quiet (hfailure : step.failure = none) :
    Ending.quiet.Holds sink s (s.exec sink raw).1 (s.exec sink raw).2 := by
  refine ⟨diagnostics_exec_of_none hstep hdiagnostic, ?_⟩
  rw [exec_failure, hstep, hfailure]

theorem holds_failed {place : Located} (hfailure : step.failure = some (.runtime place))
    (hfault : place.error.cause.fault ≠ .malformedInterpolation) :
    Ending.failed.Holds sink s (s.exec sink raw).1 (s.exec sink raw).2 := by
  refine ⟨diagnostics_exec_of_none hstep hdiagnostic, place, ?_, Cause.fault_of_ne hfault⟩
  rw [exec_failure, hstep, hfailure]

end Step

theorem holds_declaration (h : Line.classify raw.trim = .declaration) :
    (if (s.engine.store.assign raw.trim).isOk then Ending.quiet else Ending.failed).Holds sink s
      (s.exec sink raw).1 (s.exec sink raw).2 := by
  have hstep := Engine.exec_declaration h s.engine (sink.refusal s.attempts)
  cases hassign : s.engine.store.assign raw.trim with
  | ok store =>
    rw [Engine.declare_of_ok (e := s.engine.count .declaration) hassign] at hstep
    exact holds_quiet hstep rfl rfl
  | error err =>
    rw [Engine.declare_of_error (e := s.engine.count .declaration) hassign] at hstep
    have hfault : err.cause.fault ≠ .malformedInterpolation := by
      obtain ⟨l, rfl⟩ := Store.assign_error hassign
      exact Fault.noConfusion
    exact holds_failed hstep rfl rfl hfault

theorem holds_refused (h : Line.classify raw.trim = .echo) {reason : Text}
    (hrefusal : sink.refusal s.attempts = some reason)
    (hf : s.engine.store.failure? (Line.echoText raw.trim) = none)
    (hend : (segments (Line.echoText raw.trim)).error = none) :
    Ending.refused.Holds sink s (s.exec sink raw).1 (s.exec sink raw).2 := by
  have hstep := Engine.exec_echo h s.engine (sink.refusal s.attempts)
  have hwrite := Engine.write_echo (s.engine.count .echo) (sink.refusal s.attempts) raw raw.trim
  obtain ⟨hfailure, hdiagnostic⟩ := Engine.echo_of_terminated (e := s.engine.count .echo) hf hend
    (sink.refusal s.attempts) raw
  refine ⟨diagnostics_exec_of_none hstep hdiagnostic, reason, ?_, hrefusal, ?_⟩
  · rw [exec_attempts, hstep, hwrite]
    rfl
  · rw [exec_failure, exec_engine, Engine.exec_line, hstep, hfailure, hrefusal]
    rfl

theorem holds_reported (h : Line.classify raw.trim = .echo) {err : EvalError}
    (hf : s.engine.store.failure? (Line.echoText raw.trim) = none)
    (hend : (segments (Line.echoText raw.trim)).error = some err) :
    Ending.reported.Holds sink s (s.exec sink raw).1 (s.exec sink raw).2 := by
  have hstep := Engine.exec_echo h s.engine (sink.refusal s.attempts)
  obtain ⟨hfailure, hdiagnostic⟩ := Engine.echo_of_unterminated (e := s.engine.count .echo) hf hend
    (sink.refusal s.attempts) raw
  have hfault : err.cause.fault = .malformedInterpolation := by
    rw [cause_of_error_segments hend]
    rfl
  let report := Located.ofOffset (s.engine.count .echo).line raw (Engine.echoOffset raw err) err
  refine ⟨?_, report, ?_, hfault⟩
  · rw [exec_failure, hstep, hfailure]
  · rw [exec_diagnostics, hstep, hdiagnostic]
    rfl

/-- A line ends as the variables and the sink call for. -/
theorem holds_ending (s : Session) (sink : Sink) (raw : Text) :
    (s.engine.store.ending (sink.refusal s.attempts) raw).Holds sink s (s.exec sink raw).1
      (s.exec sink raw).2 := by
  unfold Store.ending
  cases hkind : Line.classify raw.trim with
  | ignored => exact holds_quiet (Engine.exec_ignored hkind _ _) rfl rfl
  | declaration => exact holds_declaration hkind
  | echo =>
    have hstep := Engine.exec_echo hkind s.engine (sink.refusal s.attempts)
    -- a span that fails comes before an open one, and both come before a refusal
    cases hf : s.engine.store.failure? (Line.echoText raw.trim) with
    | some err =>
      obtain ⟨hfailure, hdiagnostic⟩ := Engine.echo_of_failure (e := s.engine.count .echo) hf
        (sink.refusal s.attempts) raw
      exact holds_failed hstep hdiagnostic hfailure (Store.failure?_fault hf)
    | none =>
      cases hend : (segments (Line.echoText raw.trim)).error with
      | some err => exact holds_reported hkind hf hend
      | none =>
        obtain ⟨hfailure, hdiagnostic⟩ := Engine.echo_of_terminated (e := s.engine.count .echo) hf
          hend (sink.refusal s.attempts) raw
        cases hrefusal : sink.refusal s.attempts with
        | some reason => exact holds_refused hkind hrefusal hf hend
        | none =>
          have hpasses := hfailure
          rw [hrefusal, Option.map_none, ← hrefusal] at hpasses
          exact holds_quiet hstep hdiagnostic hpasses

theorem holds_iff (s : Session) (sink : Sink) (raw : Text) (k : Ending) :
    k.Holds sink s (s.exec sink raw).1 (s.exec sink raw).2 ↔
      s.engine.store.ending (sink.refusal s.attempts) raw = k := by
  constructor
  · intro h
    exact (holds_ending s sink raw).eq_observed.trans h.eq_observed.symm
  · rintro rfl
    exact holds_ending s sink raw

end Session

namespace Store

variable (s : Store) (refusal : Option Text) {raw : Text}

/-- Every closed span of a line can be evaluated. -/
def SpansPass (s : Store) (raw : Text) : Prop :=
  ∀ source ∈ Line.spans raw, (s.evaluate source).isOk = true

theorem failure?_echoText_eq_none_iff (h : Line.classify raw.trim = .echo) :
    s.failure? (Line.echoText raw.trim) = none ↔ s.SpansPass raw := by
  rw [failure?_eq_none_iff, SpansPass, Line.spans, if_pos h]

theorem ending_iff (raw : Text) :
    (s.ending refusal raw = .reported ↔ Line.classify raw.trim = .echo ∧ s.SpansPass raw ∧
      (segments (Line.echoText raw.trim)).error ≠ none) ∧
    (s.ending refusal raw = .failed ↔ (Line.classify raw.trim = .echo ∧ ¬ s.SpansPass raw) ∨
      (Line.classify raw.trim = .declaration ∧ (s.assign raw.trim).isOk = false)) ∧
    (s.ending refusal raw = .refused ↔ Line.classify raw.trim = .echo ∧ s.SpansPass raw ∧
      (segments (Line.echoText raw.trim)).error = none ∧ refusal ≠ none) := by
  unfold ending
  cases hkind : Line.classify raw.trim with
  | ignored => simp
  | declaration => cases (s.assign raw.trim).isOk <;> simp
  | echo =>
    rw [← s.failure?_echoText_eq_none_iff hkind]
    dsimp only
    split_ifs <;> simp_all

end Store

/-- Every line ends in exactly one way. It reports an unterminated span exactly if it is an echo
that leaves one open and whose closed spans can all be evaluated. It fails to evaluate exactly if it
is an echo with a closed span, or a declaration with a value, that cannot be evaluated. Its write
counts as refused exactly if nothing else is wrong with an echo. Only a declaration that passes
quietly changes variables, and none but its identifier. -/
theorem exec_ends_once (s : Session) (sink : Sink) (raw : Text) :
    let after := (s.exec sink raw).1
    let ends (k : Ending) : Prop := k.Holds sink s after (s.exec sink raw).2
    let kind := Line.classify raw.trim
    (∃! k, ends k) ∧
    (ends .reported ↔ kind = .echo ∧ s.engine.store.SpansPass raw ∧
      (segments (Line.echoText raw.trim)).error ≠ none) ∧
    (ends .failed ↔ (kind = .echo ∧ ¬ s.engine.store.SpansPass raw) ∨
      (kind = .declaration ∧ (s.engine.store.assign raw.trim).isOk = false)) ∧
    (ends .refused ↔ kind = .echo ∧ s.engine.store.SpansPass raw ∧
      (segments (Line.echoText raw.trim)).error = none ∧ sink.refusal s.attempts ≠ none) ∧
    (kind ≠ .declaration ∨ ¬ ends .quiet → after.engine.store = s.engine.store) ∧
    ∀ name, name ≠ (Declaration.ofLine raw.trim).identifier →
      after.engine.store.get? name = s.engine.store.get? name := by
  intro after ends kind
  have hends (k : Ending) : ends k ↔ _ = k := Session.holds_iff s sink raw k
  have hstore : after.engine.store = s.engine.store.after raw := Session.exec_store s sink raw
  obtain ⟨hreported, hfailed, hrefused⟩ := s.engine.store.ending_iff (sink.refusal s.attempts) raw
  refine ⟨?_, (hends _).trans hreported, (hends _).trans hfailed, (hends _).trans hrefused, ?_, ?_⟩
  · exact ⟨_, (hends _).2 rfl, fun k hk => ((hends k).1 hk).symm⟩
  · rintro (hkind | hloud)
    · rw [hstore, Store.after_of_ne hkind]
    · rw [hends] at hloud
      rw [hstore, Store.after_of_ending_ne hloud]
  · intro name hname
    rw [hstore, Store.get?_after hname]

/-- A span that divides by zero before a span left open fails, though the sink refuses the line; a
declaration that passes leaves the other variables. -/
theorem exec_ends_once_open :
    let e : Engine :=
      { globals := Store.empty, lineLimit := 65536, store := .ofList [("x", .int 4)] }
    let s : Session := { engine := e }
    let sink : Sink := { refusal := fun _ => some "sink closed" }
    let line : Text := "echo \x7b1 / 0\x7d \x7b"
    Ending.failed.Holds sink s (s.exec sink line).1 (s.exec sink line).2 ∧
      (s.exec sink line).1.engine.store = s.engine.store ∧
      (s.exec sink "let int y = 5").1.engine.store.get? "x" = some (.int 4) := by
  intro e s sink line
  have hkind : Line.classify line.trim = .echo := by decide
  have hspans : ¬ s.engine.store.SpansPass line := by
    unfold Store.SpansPass
    decide +kernel
  have hother : ("x" : Text) ≠ (Declaration.ofLine (Text.trim "let int y = 5")).identifier := by
    decide
  obtain ⟨_, _, hfailed, _, hkept, _⟩ := exec_ends_once s sink line
  obtain ⟨_, _, _, _, _, hothers⟩ := exec_ends_once s sink "let int y = 5"
  have hends := hfailed.2 (Or.inl ⟨hkind, hspans⟩)
  have hnot : Line.classify line.trim ≠ .declaration := by
    rw [hkind]
    exact Statement.noConfusion
  refine ⟨hends, hkept (Or.inl hnot), ?_⟩
  rw [hothers "x" hother]
  decide +kernel

end LineScript
