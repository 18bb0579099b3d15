import LineScript.Proofs.Turns

/-! Runs of scripts that follow each other. A run knows the number of a line only as a label: moved
down by some lines, it does the same and its reports move with it. Hence the run of a script in two
parts is the run of the first, and unless that fails the run of the second further down. A run that
is cancelled while it executes a line leaves what the lines up to that one leave. -/

namespace LineScript

/-- A report that stands some lines further down, and with it the number in its frame. -/
def Located.later (n : Nat) (l : Located) : Located := { l with line := l.line + n }

def Failure.later (n : Nat) : Failure → Failure
  | .runtime place => .runtime (place.later n)
  | .write line reason => .write (line + n) reason
  | .cancelled => .cancelled
  | .overlongLine => .overlongLine

theorem Failure.map_later_zero (r : Option Failure) : r.map (·.later 0) = r := by
  cases r with
  | none => rfl
  | some f => cases f <;> rfl

namespace Engine

def later (n : Nat) (e : Engine) : Engine := { e with line := e.line + n }

theorem count_later (n : Nat) (e : Engine) (kind : Statement) :
    (e.later n).count kind = (e.count kind).later n := by
  unfold count later
  rw [Nat.add_right_comm]

end Engine

def Step.later (n : Nat) (step : Step) : Step :=
  { step with
    engine := step.engine.later n
    diagnostic := step.diagnostic.map (·.later n)
    failure := step.failure.map (·.later n) }

namespace Engine

variable (n : Nat) (e : Engine) (refusal : Option Text) (raw : Text)

theorem echo_later (line : Text) :
    (e.later n).echo refusal raw line = (e.echo refusal raw line).later n := by
  have hstore : (e.later n).store = e.store := rfl
  simp only [echo, hstore]
  cases (e.store.expand (Line.echoText line)).error with
  | none => cases refusal <;> rfl
  | some err =>
    dsimp only
    split <;> rfl

theorem declare_later (line : Text) :
    (e.later n).declare raw line = (e.declare raw line).later n := by
  have hstore : (e.later n).store = e.store := rfl
  simp only [declare, hstore]
  cases e.store.assign line <;> rfl

/-- Further down, a line does the same. -/
theorem exec_later : (e.later n).exec refusal raw = (e.exec refusal raw).later n := by
  cases hkind : Line.classify raw.trim with
  | ignored =>
    rw [exec_ignored hkind, exec_ignored hkind, count_later]
    rfl
  | echo => rw [exec_echo hkind, exec_echo hkind, count_later, echo_later]
  | declaration => rw [exec_declaration hkind, exec_declaration hkind, count_later, declare_later]

end Engine

namespace Session

/-- The session moved down by some lines, behind diagnostics that were reported earlier. -/
def behind (n : Nat) (earlier : List Diagnostic) (s : Session) : Session :=
  { s with
    engine := s.engine.later n
    diagnostics := s.diagnostics.map (·.later n) ++ earlier }

variable (n : Nat) (earlier : List Diagnostic) (sink : Sink)

theorem behind_zero (s : Session) :
    s.behind 0 earlier = { s with diagnostics := s.diagnostics ++ earlier } := by
  have hsame : (fun d : Diagnostic => Located.later 0 d) = id := rfl
  rw [behind, hsame, List.map_id]
  rfl

theorem exec_behind (s : Session) (raw : Text) :
    (s.behind n earlier).exec sink raw =
      ((s.exec sink raw).1.behind n earlier, (s.exec sink raw).2.map (·.later n)) := by
  have hstep : (s.behind n earlier).engine.exec (sink.refusal s.attempts) raw =
      (s.engine.exec (sink.refusal s.attempts) raw).later n := Engine.exec_later ..
  have hattempts : (s.behind n earlier).attempts = s.attempts := rfl
  simp only [exec, hattempts, hstep, Step.later]
  cases (s.engine.exec (sink.refusal s.attempts) raw).write <;>
    cases (s.engine.exec (sink.refusal s.attempts) raw).diagnostic <;> rfl

theorem runLinesHalting_behind (halts : Nat → Bool) (s : Session) (lines : List Text) :
    runLinesHalting sink halts (s.behind n earlier) lines =
      ((runLinesHalting sink (fun i => halts (i + n)) s lines).1.behind n earlier,
        (runLinesHalting sink (fun i => halts (i + n)) s lines).2.map (·.later n)) := by
  induction lines generalizing s with
  | nil => rfl
  | cons raw rest ih =>
    have hexec := exec_behind n earlier sink s raw
    cases hgo : s.cancelled || halts (s.engine.line + n) with
    | true =>
      have hmoved : ((s.behind n earlier).cancelled ||
        halts (s.behind n earlier).engine.line) = true := hgo
      rw [runLinesHalting_of_stop hmoved, runLinesHalting_of_stop hgo]
      rfl
    | false =>
      have hmoved : ((s.behind n earlier).cancelled ||
        halts (s.behind n earlier).engine.line) = false := hgo
      cases hf : (s.exec sink raw).2 with
      | some f =>
        rw [hf] at hexec
        rw [runLinesHalting_cons_of_failure hmoved (congrArg Prod.snd hexec),
          runLinesHalting_cons_of_failure hgo hf, hexec]
        rfl
      | none =>
        rw [hf] at hexec
        rw [runLinesHalting_cons_of_none hmoved (congrArg Prod.snd hexec),
          runLinesHalting_cons_of_none hgo hf, hexec, ih]

/-- The session without the lines and the reports so far. -/
def fresh (s : Session) : Session :=
  { s with engine := { s.engine with line := 0 }, diagnostics := [] }

theorem behind_fresh (s : Session) : s.fresh.behind s.engine.line s.diagnostics = s := by
  simp only [behind, fresh, Engine.later, Nat.zero_add, List.map_nil, List.nil_append]

theorem behind_fresh_zero (s : Session) :
    s.fresh.behind 0 s.diagnostics = s.atStart s.cancelled := rfl

/-- A line that is too long is reported without its number. -/
theorem map_later_or_readFailure (r : Option Failure) (reading : Lines.Reading) (n : Nat) :
    (r.or (readFailure reading)).map (·.later n) =
      (r.map (·.later n)).or (readFailure reading) := by
  cases r with
  | some f => rfl
  | none =>
    rw [Option.none_or, Option.map_none, Option.none_or, readFailure]
    split <;> rfl

/-- Runs a script as `run` does, in a run that can also be cancelled from outside. -/
def runHalting (s : Session) (sink : Sink) (halts : Nat → Bool) (cancelled : Bool)
    (script : Text) : Session × Option Failure :=
  let reading := Lines.read s.engine.lineLimit script
  let ran := runLinesHalting sink halts (s.atStart cancelled) reading.lines
  (ran.1, ran.2.or (readFailure reading))

/-- A run that nothing cancels from outside is a run. -/
theorem runHalting_never (s : Session) (sink : Sink) (cancelled : Bool) (script : Text) :
    s.runHalting sink (fun _ => false) cancelled script = s.run sink cancelled script := by
  rw [run_eq, runHalting, ← runLines_eq_runLinesHalting]

section Append
variable {s : Session} {sink : Sink} {halts : Nat → Bool} {cancelled : Bool} {a : Text}

/-- A run that passes has executed and counted all of its lines. -/
theorem runHalting_eq_none (h : (s.runHalting sink halts cancelled a).2 = none) :
    let first := s.runHalting sink halts cancelled a
    let reading := Lines.read s.engine.lineLimit a
    (runLinesHalting sink halts (s.atStart cancelled) reading.lines).2 = none ∧
      reading.overlong = false ∧ first.1.engine.line = (Lines.terminated a).length ∧
      first.1.engine.lineLimit = s.engine.lineLimit := by
  intro first reading
  obtain ⟨hlines, hread⟩ := Option.or_eq_none_iff.1 h
  have hshort : reading.overlong = false := by simpa [readFailure] using hread
  refine ⟨hlines, hshort, ?_, lineLimit_runLinesHalting hlines⟩
  have hline := line_runLinesHalting hlines
  have hlength : reading.lines.length = (Lines.terminated a).length := by
    have hread := Lines.read_eq (Lines.forall_length_lt hshort)
    simp only [reading, hread, List.length_map]
  rw [← hlength]
  exact hline.trans (Nat.zero_add _)

/-- What a run does behind a script that has passed, in terms of a run from the start. -/
theorem runHalting_append_of_none (ended : Lines.Ended a)
    (hpass : (s.runHalting sink halts cancelled a).2 = none) (b : Text) :
    let n := (Lines.terminated a).length
    let later := fun i => halts (i + n)
    let first := (s.runHalting sink halts cancelled a).1
    let reading := Lines.read first.engine.lineLimit b
    let ran := runLinesHalting sink later first.fresh reading.lines
    s.runHalting sink halts cancelled (a ++ b) = (ran.1.behind n first.diagnostics,
        (ran.2.or (readFailure reading)).map (·.later n)) ∧
      first.runHalting sink later first.cancelled b =
        ({ ran.1 with diagnostics := ran.1.diagnostics ++ first.diagnostics },
          ran.2.or (readFailure reading)) := by
  intro n later first reading ran
  obtain ⟨hlines, hshort, hline, hlimit⟩ := runHalting_eq_none hpass
  constructor
  -- both runs are the run from the start, seen from different lines
  · have hread : Lines.read s.engine.lineLimit (a ++ b) =
        ⟨(Lines.read s.engine.lineLimit a).lines ++ reading.lines, reading.overlong⟩ := by
      rw [Lines.read_append_of_short ended hshort]
      simp only [reading, first, hlimit]
    have hmoved := runLinesHalting_behind n first.diagnostics sink halts first.fresh reading.lines
    have hself : first.fresh.behind n first.diagnostics = first := by
      have hbehind := first.behind_fresh
      rwa [hline] at hbehind
    rw [hself] at hmoved
    rw [runHalting, hread, runLinesHalting_append_of_none hlines,
      map_later_or_readFailure]
    exact congrArg₂ Prod.mk (congrArg Prod.fst hmoved)
      (congrArg (fun r : Option Failure => r.or (readFailure reading)) (congrArg Prod.snd hmoved))
  · have hmoved := runLinesHalting_behind 0 first.diagnostics sink later first.fresh reading.lines
    rw [behind_fresh_zero, Failure.map_later_zero, behind_zero] at hmoved
    rw [runHalting, hmoved]
    rfl

theorem runHalting_append_of_failure (ended : Lines.Ended a) {f : Failure}
    (hfails : (s.runHalting sink halts cancelled a).2 = some f) (b : Text) :
    s.runHalting sink halts cancelled (a ++ b) = s.runHalting sink halts cancelled a := by
  cases hlong : (Lines.read s.engine.lineLimit a).overlong with
  | true => rw [runHalting, runHalting, Lines.read_append_of_overlong ended hlong]
  | false =>
    -- no line is too long, so that one of them failed
    have hread : readFailure (Lines.read s.engine.lineLimit a) = none := by
      rw [readFailure, hlong]
      rfl
    rw [runHalting, hread, Option.or_none] at hfails
    rw [runHalting, runHalting, Lines.read_append_of_short ended hlong,
      runLinesHalting_append_of_failure hfails, hfails, Option.some_or, Option.some_or]

end Append

/-- A run that is cancelled while it executes a line that passes, from outside or by the sink,
leaves what the lines up to that one leave. -/
theorem runHalting_of_cancelled {s : Session} {sink : Sink} {halts : Nat → Bool} {cancelled : Bool}
    {script : Text} {k : Nat} (hk : k ≤ (Lines.terminated script).length)
    (hpass : (s.run sink cancelled (Lines.firstLines k script)).2 = none)
    (hbefore : ∀ i < k, halts i = false)
    (hcancel : halts k = true ∨
      (s.run sink cancelled (Lines.firstLines k script)).1.cancelled = true) :
    (s.runHalting sink halts cancelled script).1 =
        (s.run sink cancelled (Lines.firstLines k script)).1 ∧
      (k < (Lines.read s.engine.lineLimit script).lines.length →
        (s.runHalting sink halts cancelled script).2 = some .cancelled) := by
  obtain ⟨halone, hend⟩ := run_of_runLines s sink cancelled (Lines.firstLines k script)
  have hlines := hend hpass
  rw [halone] at hcancel ⊢
  have hshort : (Lines.read s.engine.lineLimit (Lines.firstLines k script)).overlong = false := by
    rw [run_eq, Option.or_eq_none_iff] at hpass
    simpa [readFailure] using hpass.2
  have hlength : (Lines.read s.engine.lineLimit (Lines.firstLines k script)).lines.length = k := by
    rw [Lines.read_eq (Lines.forall_length_lt hshort), List.length_map,
      Lines.terminated_firstLines, List.length_take_of_le hk]
  obtain ⟨rest, hrest⟩ := Lines.read_firstLines_isPrefix hshort
  set lines := (Lines.read s.engine.lineLimit (Lines.firstLines k script)).lines
  have hsame : runLinesHalting sink halts (s.atStart cancelled) lines =
      runLines sink (s.atStart cancelled) lines := by
    refine runLinesHalting_eq_runLines fun i hi => ?_
    rw [hlength] at hi
    exact (congrArg halts (Nat.zero_add i)).trans (hbefore i hi)
  rw [← hsame] at hlines hcancel
  have hstop : halts ((s.atStart cancelled).engine.line + lines.length) = true ∨
      (runLinesHalting sink halts (s.atStart cancelled) lines).1.cancelled = true := by
    rw [hlength]
    exact hcancel.imp_left (congrArg halts (Nat.zero_add k)).trans
  rw [runHalting, ← hrest, runLinesHalting_append_of_cancelled hlines hstop rest, hsame]
  refine ⟨rfl, fun hmore => ?_⟩
  have hrest : rest ≠ [] := by
    rintro rfl
    rw [List.append_nil, hlength] at hmore
    exact Nat.lt_irrefl k hmore
  rw [if_neg hrest]
  rfl

/-- Runs compose. Behind a script that ends its last line and fails, nothing is executed. Behind one
that passes, a script does what it does in a run of its own, but its lines are numbered on: the
numbers in its reports move, and the frames with them. A run that is cancelled while it executes a
line that passes leaves what the lines up to that one leave. -/
theorem run_append (s : Session) (sink : Sink) (halts : Nat → Bool) (cancelled : Bool) {a : Text}
    (ended : Lines.Ended a) (b : Text) :
    let first := s.runHalting sink halts cancelled a
    let n := (Lines.terminated a).length
    let second := first.1.runHalting sink (fun i => halts (i + n)) first.1.cancelled b
    let both := s.runHalting sink halts cancelled (a ++ b)
    (first.2 ≠ none → both = first) ∧
    (first.2 = none → both.2 = second.2.map (·.later n) ∧
      ∃ reported, second.1.diagnostics = reported ++ first.1.diagnostics ∧
        both.1 = { second.1 with
          engine := second.1.engine.later n
          diagnostics := reported.map (·.later n) ++ first.1.diagnostics }) ∧
    (∀ script, s.runHalting sink (fun _ => false) cancelled script = s.run sink cancelled script) ∧
    ∀ script k, k ≤ (Lines.terminated script).length →
      let alone := s.run sink cancelled (Lines.firstLines k script)
      let whole := s.runHalting sink halts cancelled script
      alone.2 = none → (∀ i < k, halts i = false) → (halts k = true ∨ alone.1.cancelled = true) →
        whole.1 = alone.1 ∧
          (k < (Lines.read s.engine.lineLimit script).lines.length →
            whole.2 = some .cancelled) := by
  intro first n second both
  refine ⟨fun hfails => ?_, fun hpass => ?_, s.runHalting_never sink cancelled, ?_⟩
  · obtain ⟨f, hf⟩ := Option.ne_none_iff_exists'.1 hfails
    exact runHalting_append_of_failure ended hf b
  · obtain ⟨hboth, hsecond⟩ := runHalting_append_of_none ended hpass b
    set ran := runLinesHalting sink (fun i => halts (i + n)) first.1.fresh
      (Lines.read first.1.engine.lineLimit b).lines
    have hsecond : second = _ := hsecond
    have hboth : both = _ := hboth
    refine ⟨?_, ran.1.diagnostics, ?_, ?_⟩
    · rw [hboth, hsecond]
    · rw [hsecond]
    · rw [hboth, hsecond]
      rfl
  · intro script k hk alone whole hpass hbefore hcancel
    exact runHalting_of_cancelled hk hpass hbefore hcancel

/-- Two scripts that leave spans open; the second one fails in its second line, or is cancelled
from outside in its first one. -/
theorem run_append_numbered :
    let e : Engine := { globals := Store.empty, lineLimit := 65536, store := Store.empty }
    let s : Session := { engine := e }
    let a : Text := "let int x = 4\necho \x7bx\x7d \x7b\n"
    let b : Text := "echo \x7bx\nlet int y = z\n"
    let first := (s.run {} false a).1
    let both := s.run {} false (a ++ b)
    let halted := s.runHalting {} (· = 3) false (a ++ b)
    Lines.Ended a ∧ both.2 = (first.run {} first.cancelled b).2.map (·.later 2) ∧
      (∃ place, both.2 = some (.runtime place) ∧
        place.frame = "  --> line 4, column 13\n 4 | let int y = z\n   |             ^") ∧
      halted.1 = (s.run {} false (Lines.firstLines 3 (a ++ b))).1 ∧ halted.2 = some .cancelled := by
  intro e s a b first both halted
  have ended : Lines.Ended a := by decide
  have hcount : (Lines.terminated a).length = 2 := by decide
  obtain ⟨_, hbehind, _⟩ := run_append s {} (fun _ => false) false ended b
  simp only [runHalting_never, hcount] at hbehind
  have hpass : (s.run {} false a).2 = none := by decide +kernel
  let place : Located := ⟨4, 13, "let int y = z", ⟨.literal .expectedDigits, "z", none⟩⟩
  have hfails : both.2 = some (.runtime place) := by decide +kernel
  obtain ⟨_, _, _, hcancelled⟩ := run_append s {} (· = 3) false ended b
  obtain ⟨hleft, hend⟩ := hcancelled (a ++ b) 3 (by decide) (by decide +kernel) (by decide)
    (Or.inl rfl)
  exact ⟨ended, (hbehind hpass).1, ⟨place, hfails, by decide +kernel⟩, hleft,
    hend (by decide +kernel)⟩

end Session

end LineScript
