import LineScript.Proofs.Exec
import LineScript.Proofs.Turns

/-! What becomes of output that the sink refuses. The line that writes it fails, with the reason of
the sink or with an error of its own, and the run fails with it. There is one exception: an
unterminated span is only reported, and the report takes the place of the refusal. -/

namespace LineScript

/-- An echo line ends in a span that is not closed, and the spans before it can be evaluated. -/
def Store.LeavesOpen (s : Store) (raw : Text) : Prop :=
  Line.classify raw.trim = .echo ∧ s.failure? (Line.echoText raw.trim) = none ∧
    (segments (Line.echoText raw.trim)).error ≠ none

theorem Engine.failure_echo_refused (e : Engine) (reason raw line : Text) :
    (e.echo (some reason) raw line).failure = none ↔
      e.store.failure? (Line.echoText line) = none ∧
        (segments (Line.echoText line)).error ≠ none := by
  cases hf : e.store.failure? (Line.echoText line) with
  | some err =>
    have hfailure := (echo_of_failure hf (some reason) raw).1
    simp [hfailure]
  | none =>
    cases hend : (segments (Line.echoText line)).error with
    | some err =>
      have hfailure := (echo_of_unterminated hf hend (some reason) raw).1
      simp [hfailure]
    | none =>
      have hfailure := (echo_of_terminated hf hend (some reason) raw).1
      simp [hfailure]

theorem Engine.write_declare (e : Engine) (raw line : Text) :
    (e.declare raw line).write = none := by
  unfold declare
  split <;> rfl

/-- A line whose write is refused fails, unless it leaves a span open. -/
theorem Engine.failure_exec_refused {e : Engine} {reason raw : Text}
    (h : (e.exec (some reason) raw).write ≠ none) :
    (e.exec (some reason) raw).failure = none ↔ e.store.LeavesOpen raw := by
  unfold Store.LeavesOpen
  cases hkind : Line.classify raw.trim with
  | ignored =>
    rw [exec_ignored hkind] at h
    exact absurd rfl h
  | declaration =>
    rw [exec_declaration hkind, write_declare] at h
    exact absurd rfl h
  | echo =>
    rw [exec_echo hkind, failure_echo_refused]
    exact ⟨fun hopen => ⟨rfl, hopen⟩, fun hopen => hopen.2⟩

namespace Session

theorem write_of_attempt {s : Session} {sink : Sink} {raw : Text}
    (h : s.attempts < (s.exec sink raw).1.attempts) :
    (s.engine.exec (sink.refusal s.attempts) raw).write ≠ none := by
  intro hwrite
  rw [exec_attempts, hwrite] at h
  exact Nat.lt_irrefl _ h

end Session

/-- Lost output is reported, with one exception. A line that attempts a write which is refused fails,
unless it leaves a span open. So does a run: if it does not fail, then each of its attempts that was
refused belongs to a line that leaves a span open. -/
theorem lost_output_reported (s : Session) (sink : Sink) :
    (∀ raw reason, s.attempts < (s.exec sink raw).1.attempts →
      sink.refusal s.attempts = some reason →
      ((s.exec sink raw).2 = none ↔ s.engine.store.LeavesOpen raw)) ∧
    ∀ cancelled script n reason, s.attempts ≤ n →
      n < (s.run sink cancelled script).1.attempts → sink.refusal n = some reason →
      (s.run sink cancelled script).2 = none →
      ∃ turn ∈ s.runTurns sink cancelled script,
        turn.session.attempts = n ∧ turn.session.engine.store.LeavesOpen turn.raw := by
  refine ⟨fun raw reason hattempt hrefused => ?_, ?_⟩
  · have hwrite := Session.write_of_attempt hattempt
    rw [hrefused] at hwrite
    rw [Session.exec_failure, hrefused]
    exact Engine.failure_exec_refused hwrite
  · intro cancelled script n reason hle hlt hrefused hnone
    obtain ⟨hsession, hend⟩ := Session.run_of_runLines s sink cancelled script
    rw [hsession] at hlt
    obtain ⟨turn, hmem, hturn, hwrite⟩ :=
      Session.exists_turn_of_attempt (s := s.atStart cancelled) hle hlt
    refine ⟨turn, hmem, hturn, ?_⟩
    -- a turn that fails would make the run fail
    have hpasses : (turn.step sink).failure = none := by
      cases hfailure : (turn.step sink).failure with
      | none => rfl
      | some f =>
        have hfails := Session.runLines_of_mem_turns hmem hfailure
        exact absurd ((hend hnone).symm.trans hfails) (by simp)
    unfold Session.Turn.step at hwrite hpasses
    rw [hturn, hrefused] at hwrite hpasses
    exact (Engine.failure_exec_refused hwrite).1 hpasses

/-- A refused echo fails, and a run that does not fail leaves a span open. -/
theorem lost_output_reported_closed :
    let e : Engine := { globals := Store.empty, lineLimit := 65536, store := Store.empty }
    let s : Session := { engine := e }
    let sink : Sink := { refusal := fun _ => some "sink closed" }
    (s.exec sink "echo a").2 ≠ none ∧
      ∃ turn ∈ s.runTurns sink false "let int x = 4\n echo \x7bx\x7d \x7b",
        turn.session.attempts = 0 ∧ turn.session.engine.store.LeavesOpen turn.raw := by
  intro e s sink
  obtain ⟨hexec, hrun⟩ := lost_output_reported s sink
  refine ⟨fun hnone => ?_, ?_⟩
  · have hopen := (hexec "echo a" "sink closed" (by decide +kernel) rfl).1 hnone
    exact absurd hopen.2.2 (by decide +kernel)
  · exact hrun false "let int x = 4\n echo \x7bx\x7d \x7b" 0 "sink closed" (Nat.zero_le _)
      (by decide +kernel) rfl (by decide +kernel)

/-- A refused write goes unnoticed: the sink takes nothing, and neither the line nor the run fails. -/
theorem lost_output_hidden :
    let e : Engine := { globals := Store.empty, lineLimit := 65536, store := Store.empty }
    let s : Session := { engine := e }
    let sink : Sink := { refusal := fun _ => some "sink closed" }
    let line : Text := "echo a \x7bx"
    s.attempts < (s.exec sink line).1.attempts ∧ sink.refusal s.attempts ≠ none ∧
      (s.exec sink line).1.output = [] ∧ (s.exec sink line).2 = none ∧
      (s.run sink false line).1.output = [] ∧ (s.run sink false line).2 = none := by
  decide +kernel

end LineScript
