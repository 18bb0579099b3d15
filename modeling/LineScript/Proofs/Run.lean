import LineScript.Session
import LineScript.Proofs.Lines
import Mathlib.Data.List.Forall2

/-! Runs on a sink that accepts everything. One line is executed by the engine alone, a run over two
parts of a script is the run over the second after the run over the first, and lines that mean the
same can stand for each other. -/

namespace LineScript

/-- A sink that accepts every write and never cancels a run. -/
def Sink.IsSteady (sink : Sink) : Prop :=
  (∀ n, sink.refusal n = none) ∧ ∀ n, sink.cancels n = false

namespace Engine

theorem new_eq {globals : Store} {maxLine : Int} {e : Engine} (h : new globals maxLine = .ok e) :
    globalError? globals = none ∧
      e = { globals, lineLimit := Lines.limitOf maxLine, store := globals } := by
  unfold new at h
  split at h
  · exact absurd h (by simp)
  · rename_i hnone
    exact ⟨hnone, (Except.ok.inj h).symm⟩

theorem lineLimit_pos {globals : Store} {maxLine : Int} {e : Engine}
    (h : new globals maxLine = .ok e) : 0 < e.lineLimit := by
  obtain ⟨-, rfl⟩ := new_eq h
  exact Nat.lt_of_lt_of_le (by decide) (Nat.le_max_left Lines.leastLimit _)

theorem new_store {globals : Store} {maxLine : Int} {e : Engine}
    (h : new globals maxLine = .ok e) : e.store = globals := by
  obtain ⟨-, rfl⟩ := new_eq h
  rfl

theorem count_line (e : Engine) (s : Statement) : (e.count s).line = e.line + 1 := rfl

theorem exec_ignored {raw : Text} (h : Line.classify raw.trim = .ignored) (e : Engine)
    (refusal : Option Text) : e.exec refusal raw = { engine := e.count .ignored } := by
  simp only [exec, h]

theorem exec_echo {raw : Text} (h : Line.classify raw.trim = .echo) (e : Engine)
    (refusal : Option Text) :
    e.exec refusal raw = (e.count .echo).echo refusal raw raw.trim := by
  simp only [exec, h]

theorem exec_declaration {raw : Text} (h : Line.classify raw.trim = .declaration) (e : Engine)
    (refusal : Option Text) :
    e.exec refusal raw = (e.count .declaration).declare raw raw.trim := by
  simp only [exec, h]

/-- An echo changes nothing but the count of reports. -/
theorem echo_engine (e : Engine) (refusal : Option Text) (raw line : Text) :
    let step := e.echo refusal raw line
    step.engine = { e with stats :=
      { e.stats with diagnostics := e.stats.diagnostics + step.diagnostic.toList.length } } := by
  simp only [echo]
  split
  · rfl
  · split <;> rfl

theorem echo_line (e : Engine) (refusal : Option Text) (raw line : Text) :
    (e.echo refusal raw line).engine.line = e.line := by
  rw [echo_engine]

theorem declare_line (e : Engine) (raw line : Text) :
    (e.declare raw line).engine.line = e.line := by
  unfold declare
  split <;> rfl

theorem exec_line (e : Engine) (refusal : Option Text) (raw : Text) :
    (e.exec refusal raw).engine.line = e.line + 1 := by
  cases h : Line.classify raw.trim with
  | ignored => rw [exec_ignored h, count_line]
  | echo => rw [exec_echo h, echo_line, count_line]
  | declaration => rw [exec_declaration h, declare_line, count_line]

theorem exec_lineLimit (e : Engine) (refusal : Option Text) (raw : Text) :
    (e.exec refusal raw).engine.lineLimit = e.lineLimit := by
  cases h : Line.classify raw.trim with
  | ignored =>
    rw [exec_ignored h]
    rfl
  | echo =>
    rw [exec_echo h, echo_engine]
    rfl
  | declaration =>
    rw [exec_declaration h, declare]
    split <;> rfl

end Engine

namespace Session

theorem exec_engine (s : Session) (sink : Sink) (raw : Text) :
    (s.exec sink raw).1.engine = (s.engine.exec (sink.refusal s.attempts) raw).engine := by
  simp only [exec]
  split <;> rfl

theorem exec_failure (s : Session) (sink : Sink) (raw : Text) :
    (s.exec sink raw).2 = (s.engine.exec (sink.refusal s.attempts) raw).failure := rfl

theorem exec_diagnostics (s : Session) (sink : Sink) (raw : Text) :
    (s.exec sink raw).1.diagnostics =
      (s.engine.exec (sink.refusal s.attempts) raw).diagnostic.toList ++ s.diagnostics := by
  simp only [exec]
  split <;> rfl

theorem exec_writes {sink : Sink} (h : ∀ n, sink.refusal n = none) (s : Session) (raw : Text) :
    (s.exec sink raw).1.writes = (s.engine.exec none raw).write.toList ++ s.writes := by
  simp only [exec, h]
  cases (s.engine.exec none raw).write with
  | none => rfl
  | some t => simp [write, h]

theorem exec_cancelled {sink : Sink} (h : sink.IsSteady) (s : Session) (raw : Text) :
    (s.exec sink raw).1.cancelled = s.cancelled := by
  simp only [exec]
  split
  · simp only [write, h.2, Bool.or_false]
  · rfl

theorem runLines_nil (sink : Sink) (s : Session) : runLines sink s [] = (s, none) := rfl

theorem runLines_cons_of_failure {sink : Sink} {s : Session} (hs : s.cancelled = false)
    {line : Text} {f : Failure} (h : (s.exec sink line).2 = some f) (rest : List Text) :
    runLines sink s (line :: rest) = ((s.exec sink line).1, some f) := by
  rw [runLines, if_neg (by simp [hs])]
  rcases hexec : s.exec sink line with ⟨t, failure⟩
  rw [hexec] at h
  cases h
  rfl

theorem runLines_cons_of_none {sink : Sink} {s : Session} (hs : s.cancelled = false)
    {line : Text} (h : (s.exec sink line).2 = none) (rest : List Text) :
    runLines sink s (line :: rest) = runLines sink (s.exec sink line).1 rest := by
  rw [runLines, if_neg (by simp [hs])]
  rcases hexec : s.exec sink line with ⟨t, failure⟩
  rw [hexec] at h
  cases h
  rfl

/-- Executes lines as `runLines` does, in a run that can also be cancelled from outside: `halts n`
says whether it is while line `n` is executed, or before the first line if `n` is zero. -/
def runLinesHalting (sink : Sink) (halts : Nat → Bool) :
    Session → List Text → Session × Option Failure
  | s, [] => (s, none)
  | s, line :: rest =>
    if s.cancelled || halts s.engine.line then (s, some .cancelled)
    else match s.exec sink line with
      | (s, some failure) => (s, some failure)
      | (s, none) => runLinesHalting sink halts s rest

section Halting
variable {sink : Sink} {halts : Nat → Bool} {s : Session} {line : Text} {lines : List Text}

theorem runLinesHalting_of_stop (h : (s.cancelled || halts s.engine.line) = true) (line : Text)
    (rest : List Text) : runLinesHalting sink halts s (line :: rest) = (s, some .cancelled) := by
  rw [runLinesHalting, if_pos h]

theorem runLinesHalting_cons_of_failure (h : (s.cancelled || halts s.engine.line) = false)
    {f : Failure} (hf : (s.exec sink line).2 = some f) (rest : List Text) :
    runLinesHalting sink halts s (line :: rest) = ((s.exec sink line).1, some f) := by
  rw [runLinesHalting, if_neg (by simp [h])]
  rcases hexec : s.exec sink line with ⟨t, failure⟩
  rw [hexec] at hf
  cases hf
  rfl

theorem runLinesHalting_cons_of_none (h : (s.cancelled || halts s.engine.line) = false)
    (hf : (s.exec sink line).2 = none) (rest : List Text) :
    runLinesHalting sink halts s (line :: rest) =
      runLinesHalting sink halts (s.exec sink line).1 rest := by
  rw [runLinesHalting, if_neg (by simp [h])]
  rcases hexec : s.exec sink line with ⟨t, failure⟩
  rw [hexec] at hf
  cases hf
  rfl

theorem line_exec (s : Session) (sink : Sink) (line : Text) :
    (s.exec sink line).1.engine.line = s.engine.line + 1 := by
  rw [exec_engine, Engine.exec_line]

/-- A run that is not cancelled from outside before its last line is a run. -/
theorem runLinesHalting_eq_runLines
    (h : ∀ i < lines.length, halts (s.engine.line + i) = false) :
    runLinesHalting sink halts s lines = runLines sink s lines := by
  induction lines generalizing s with
  | nil => rfl
  | cons line lines ih =>
    have hgo : halts s.engine.line = false := h 0 (Nat.succ_pos _)
    rw [runLinesHalting, runLines, hgo, Bool.or_false]
    split
    · rfl
    · have hline := line_exec s sink line
      rcases hexec : s.exec sink line with ⟨t, failure⟩
      rw [hexec] at hline
      cases failure with
      | some f => rfl
      | none =>
        refine ih fun i hi => ?_
        rw [hline, Nat.add_right_comm, Nat.add_assoc]
        exact h (i + 1) (Nat.succ_lt_succ hi)

theorem runLinesHalting_cons_of_passes
    (h : (runLinesHalting sink halts s (line :: lines)).2 = none) (rest : List Text) :
    runLinesHalting sink halts s (line :: rest) =
      runLinesHalting sink halts (s.exec sink line).1 rest := by
  cases hgo : s.cancelled || halts s.engine.line with
  | true => simp [runLinesHalting_of_stop hgo] at h
  | false =>
    cases hf : (s.exec sink line).2 with
    | some f => simp [runLinesHalting_cons_of_failure hgo hf] at h
    | none => exact runLinesHalting_cons_of_none hgo hf rest

theorem runLinesHalting_append_of_failure {f : Failure}
    (h : (runLinesHalting sink halts s lines).2 = some f) (rest : List Text) :
    runLinesHalting sink halts s (lines ++ rest) = runLinesHalting sink halts s lines := by
  induction lines generalizing s with
  | nil => exact absurd h (by simp [runLinesHalting])
  | cons line lines ih =>
    rw [List.cons_append]
    cases hgo : s.cancelled || halts s.engine.line with
    | true => rw [runLinesHalting_of_stop hgo, runLinesHalting_of_stop hgo]
    | false =>
      cases hf : (s.exec sink line).2 with
      | some g =>
        rw [runLinesHalting_cons_of_failure hgo hf, runLinesHalting_cons_of_failure hgo hf]
      | none =>
        rw [runLinesHalting_cons_of_none hgo hf] at h ⊢
        rw [runLinesHalting_cons_of_none hgo hf]
        exact ih h

theorem runLinesHalting_append_of_none (h : (runLinesHalting sink halts s lines).2 = none)
    (rest : List Text) :
    runLinesHalting sink halts s (lines ++ rest) =
      runLinesHalting sink halts (runLinesHalting sink halts s lines).1 rest := by
  induction lines generalizing s with
  | nil => rfl
  | cons line lines ih =>
    have hnext := runLinesHalting_cons_of_passes h
    rw [hnext] at h ⊢
    rw [List.cons_append, hnext, ih h]

/-- A run that passes has counted its lines. -/
theorem line_runLinesHalting (h : (runLinesHalting sink halts s lines).2 = none) :
    (runLinesHalting sink halts s lines).1.engine.line = s.engine.line + lines.length := by
  induction lines generalizing s with
  | nil => rfl
  | cons line lines ih =>
    have hnext := runLinesHalting_cons_of_passes h
    rw [hnext] at h ⊢
    rw [ih h, line_exec, List.length_cons, Nat.add_right_comm, Nat.add_assoc]

theorem lineLimit_runLinesHalting (h : (runLinesHalting sink halts s lines).2 = none) :
    (runLinesHalting sink halts s lines).1.engine.lineLimit = s.engine.lineLimit := by
  induction lines generalizing s with
  | nil => rfl
  | cons line lines ih =>
    have hnext := runLinesHalting_cons_of_passes h
    rw [hnext] at h ⊢
    rw [ih h, exec_engine, Engine.exec_lineLimit]

/-- A run stops behind the line during which it is cancelled. -/
theorem runLinesHalting_append_of_cancelled
    (hpass : (runLinesHalting sink halts s lines).2 = none)
    (hcancel : halts (s.engine.line + lines.length) = true ∨
      (runLinesHalting sink halts s lines).1.cancelled = true) (rest : List Text) :
    runLinesHalting sink halts s (lines ++ rest) =
      ((runLinesHalting sink halts s lines).1, if rest = [] then none else some .cancelled) := by
  rw [runLinesHalting_append_of_none hpass]
  cases rest with
  | nil => rfl
  | cons line rest =>
    rw [← line_runLinesHalting hpass] at hcancel
    rw [runLinesHalting_of_stop (Bool.or_eq_true_iff.2 hcancel.symm)]
    rfl

theorem runLines_eq_runLinesHalting (sink : Sink) (s : Session) (lines : List Text) :
    runLines sink s lines = runLinesHalting sink (fun _ => false) s lines :=
  (runLinesHalting_eq_runLines fun _ _ => rfl).symm

theorem runLines_append_of_failure {f : Failure} (h : (runLines sink s lines).2 = some f)
    (rest : List Text) : runLines sink s (lines ++ rest) = runLines sink s lines := by
  rw [runLines_eq_runLinesHalting] at h ⊢
  rw [runLinesHalting_append_of_failure h, runLines_eq_runLinesHalting]

theorem runLines_append_of_none (h : (runLines sink s lines).2 = none) (rest : List Text) :
    runLines sink s (lines ++ rest) = runLines sink (runLines sink s lines).1 rest := by
  rw [runLines_eq_runLinesHalting] at h ⊢
  rw [runLinesHalting_append_of_none h, runLines_eq_runLinesHalting, runLines_eq_runLinesHalting]

end Halting

theorem runLines_cancelled {sink : Sink} (hsink : sink.IsSteady) (s : Session)
    (lines : List Text) : (runLines sink s lines).1.cancelled = s.cancelled := by
  induction lines generalizing s with
  | nil => rfl
  | cons line lines ih =>
    by_cases hs : s.cancelled = true
    · rw [runLines, if_pos hs]
    · have hs : s.cancelled = false := by simpa using hs
      cases hf : (s.exec sink line).2 with
      | some g => rw [runLines_cons_of_failure hs hf, exec_cancelled hsink]
      | none => rw [runLines_cons_of_none hs hf, ih, exec_cancelled hsink]

/-- A run on lines below the limit executes them all, each without its carriage returns. -/
theorem run_eq_runLines (s : Session) (sink : Sink) {script : Text}
    (h : ∀ line ∈ Lines.terminated script, line.length < s.engine.lineLimit) :
    s.run sink false script =
      runLines sink { s with engine := { s.engine with line := 0 }, cancelled := false }
        ((Lines.terminated script).map Lines.strip) := by
  rw [run, Lines.read_eq h]
  obtain ⟨t, failure⟩ := runLines sink
    { s with engine := { s.engine with line := 0 }, cancelled := false }
    ((Lines.terminated script).map Lines.strip)
  cases failure <;> rfl

end Session

end LineScript
