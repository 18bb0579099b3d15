import LineScript.Proofs.Run

/-! The lines that a run executes, one by one, each with the session before it. A run ends at the
first of them that fails, and every write that the run attempts is attempted by one of them. -/

namespace LineScript.Session

/-- A line that is executed and the session before it. -/
structure Turn where
  session : Session
  raw : Text

def Turn.step (sink : Sink) (turn : Turn) : Step :=
  turn.session.engine.exec (sink.refusal turn.session.attempts) turn.raw

def turns (sink : Sink) : Session → List Text → List Turn
  | _, [] => []
  | s, raw :: rest =>
    if s.cancelled then []
    else
      ⟨s, raw⟩ :: match s.exec sink raw with
        | (_, some _) => []
        | (s, none) => turns sink s rest

/-- The session with which a run starts: its lines are numbered anew. -/
def atStart (s : Session) (cancelled : Bool) : Session :=
  { s with engine := { s.engine with line := 0 }, cancelled }

def runTurns (s : Session) (sink : Sink) (cancelled : Bool) (script : Text) : List Turn :=
  turns sink (s.atStart cancelled) (Lines.read s.engine.lineLimit script).lines

variable {sink : Sink}

theorem turns_of_cancelled {s : Session} (hs : s.cancelled = true) (lines : List Text) :
    turns sink s lines = [] := by
  cases lines with
  | nil => rfl
  | cons raw rest => rw [turns, if_pos hs]

theorem turns_cons_of_failure {s : Session} (hs : s.cancelled = false) {raw : Text} {f : Failure}
    (h : (s.exec sink raw).2 = some f) (rest : List Text) :
    turns sink s (raw :: rest) = [⟨s, raw⟩] := by
  rw [turns, if_neg (by simp [hs])]
  rcases hexec : s.exec sink raw with ⟨t, failure⟩
  rw [hexec] at h
  cases h
  rfl

theorem turns_cons_of_none {s : Session} (hs : s.cancelled = false) {raw : Text}
    (h : (s.exec sink raw).2 = none) (rest : List Text) :
    turns sink s (raw :: rest) = ⟨s, raw⟩ :: turns sink (s.exec sink raw).1 rest := by
  rw [turns, if_neg (by simp [hs])]
  rcases hexec : s.exec sink raw with ⟨t, failure⟩
  rw [hexec] at h
  cases h
  rfl

theorem runLines_of_cancelled {s : Session} (hs : s.cancelled = true) (raw : Text)
    (rest : List Text) : runLines sink s (raw :: rest) = (s, some .cancelled) := by
  rw [runLines, if_pos hs]

/-- Induction over the lines of a run. The run stops before a line; if not, the line fails or the run
goes on behind it. -/
theorem exec_induction (sink : Sink) (stops : Session → Bool)
    {motive : Session → List Text → Prop} (nil : ∀ s, motive s [])
    (stop : ∀ s raw rest, stops s = true → motive s (raw :: rest))
    (fail : ∀ s raw rest f, stops s = false → (s.exec sink raw).2 = some f →
      motive s (raw :: rest))
    (next : ∀ s raw rest, stops s = false → (s.exec sink raw).2 = none →
      motive (s.exec sink raw).1 rest → motive s (raw :: rest))
    (s : Session) (lines : List Text) : motive s lines := by
  induction lines generalizing s with
  | nil => exact nil s
  | cons raw rest ih =>
    cases hs : stops s with
    | true => exact stop s raw rest hs
    | false =>
      cases hf : (s.exec sink raw).2 with
      | some f => exact fail s raw rest f hs hf
      | none => exact next s raw rest hs hf (ih _)

/-- A turn that fails is the last one, and the run fails as it does. -/
theorem runLines_of_mem_turns {s : Session} {lines : List Text} {turn : Turn}
    (h : turn ∈ turns sink s lines) {f : Failure} (hf : (turn.step sink).failure = some f) :
    (runLines sink s lines).2 = some f := by
  induction s, lines using exec_induction sink (·.cancelled) with
  | nil s => exact absurd h List.not_mem_nil
  | stop s raw rest hs =>
    rw [turns_of_cancelled hs] at h
    exact absurd h List.not_mem_nil
  | fail s raw rest g hs hexec =>
    rw [turns_cons_of_failure hs hexec] at h
    rw [runLines_cons_of_failure hs hexec]
    obtain rfl := List.mem_singleton.1 h
    exact hexec.symm.trans hf
  | next s raw rest hs hexec ih =>
    rw [turns_cons_of_none hs hexec] at h
    rw [runLines_cons_of_none hs hexec]
    rcases List.mem_cons.1 h with rfl | h
    · exact absurd (hexec.symm.trans hf) (by simp)
    · exact ih h

theorem exec_attempts (s : Session) (sink : Sink) (raw : Text) :
    (s.exec sink raw).1.attempts =
      s.attempts + (s.engine.exec (sink.refusal s.attempts) raw).write.toList.length := by
  simp only [exec]
  split
  · rename_i t hwrite
    rw [hwrite]
    rfl
  · rename_i hwrite
    rw [hwrite]
    rfl

theorem attempt_of_lt {s : Session} {raw : Text} {n : Nat} (hle : s.attempts ≤ n)
    (h : n < (s.exec sink raw).1.attempts) :
    s.attempts = n ∧ (Turn.step sink ⟨s, raw⟩).write ≠ none := by
  rw [exec_attempts] at h
  unfold Turn.step
  cases hwrite : (s.engine.exec (sink.refusal s.attempts) raw).write with
  | none =>
    rw [hwrite] at h
    exact absurd h (Nat.not_lt.2 hle)
  | some t =>
    rw [hwrite] at h
    exact ⟨Nat.le_antisymm hle (Nat.lt_succ_iff.1 h), by simp⟩

/-- Every attempt of a run to write is made in one of its turns. -/
theorem exists_turn_of_attempt {s : Session} {lines : List Text} {n : Nat} (hle : s.attempts ≤ n)
    (hlt : n < (runLines sink s lines).1.attempts) :
    ∃ turn ∈ turns sink s lines, turn.session.attempts = n ∧ (turn.step sink).write ≠ none := by
  induction s, lines using exec_induction sink (·.cancelled) with
  | nil s => exact absurd hlt (Nat.not_lt.2 hle)
  | stop s raw rest hs =>
    rw [runLines_of_cancelled hs] at hlt
    exact absurd hlt (Nat.not_lt.2 hle)
  | fail s raw rest f hs hexec =>
    rw [runLines_cons_of_failure hs hexec] at hlt
    rw [turns_cons_of_failure hs hexec]
    exact ⟨_, List.mem_singleton_self _, attempt_of_lt hle hlt⟩
  | next s raw rest hs hexec ih =>
    rw [runLines_cons_of_none hs hexec] at hlt
    rw [turns_cons_of_none hs hexec]
    -- the attempt is made in this turn, or else it comes later
    by_cases hlater : (s.exec sink raw).1.attempts ≤ n
    · obtain ⟨turn, hmem, hturn⟩ := ih hlater hlt
      exact ⟨turn, List.mem_cons_of_mem _ hmem, hturn⟩
    · exact ⟨_, List.mem_cons_self, attempt_of_lt hle (Nat.not_le.1 hlater)⟩

/-- The failure of a run whose lines pass: the line behind them is too long. -/
def readFailure (r : Lines.Reading) : Option Failure :=
  if r.overlong then some .overlongLine else none

theorem run_eq (s : Session) (sink : Sink) (cancelled : Bool) (script : Text) :
    let reading := Lines.read s.engine.lineLimit script
    let ran := runLines sink (s.atStart cancelled) reading.lines
    s.run sink cancelled script = (ran.1, ran.2.or (readFailure reading)) := by
  intro reading ran
  have hrun : s.run sink cancelled script = match ran with
      | (t, some failure) => (t, some failure)
      | (t, none) => (t, readFailure reading) := rfl
  rw [hrun]
  obtain ⟨t, failure⟩ := ran
  cases failure <;> rfl

/-- A run ends as its lines do, unless they all pass and a line behind them is too long. -/
theorem run_of_runLines (s : Session) (sink : Sink) (cancelled : Bool) (script : Text) :
    let ran := runLines sink (s.atStart cancelled) (Lines.read s.engine.lineLimit script).lines
    (s.run sink cancelled script).1 = ran.1 ∧
      ((s.run sink cancelled script).2 = none → ran.2 = none) := by
  intro ran
  rw [run_eq]
  exact ⟨rfl, fun hnone => (Option.or_eq_none_iff.1 hnone).1⟩

end LineScript.Session
