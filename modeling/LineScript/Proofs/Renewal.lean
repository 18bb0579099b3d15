import LineScript.Proofs.Exec
import LineScript.Proofs.History

/-! What a reset undoes. An engine that has been reset is a new engine again, whatever was done with
it, for nothing that is done changes its globals or its line limit. What is done with it afterwards
is answered, written, reported and counted as by a new engine, if the writer answers every line by
itself. -/

namespace LineScript

/-- A writer whose answer to a line does not depend on what it was handed before. It may refuse the
line, and the run in progress may be cancelled meanwhile. -/
structure Writer where
  refusal : Text → Option Text := fun _ => none
  cancels : Text → Bool := fun _ => false

def Writer.sink (w : Writer) (line : Text) : Sink :=
  { refusal := fun _ => w.refusal line, cancels := fun _ => w.cancels line }

namespace Session

/-- The writer as a sink, while a line of a script is executed. -/
def sinkFor (s : Session) (w : Writer) (raw : Text) : Sink :=
  w.sink ((s.engine.exec none raw).write.getD [])

/-- Executes lines in order, each against the writer, up to the first failure or cancellation. -/
def runLinesTo (w : Writer) (halts : Nat → Bool) :
    Session → List Text → Session × Option Failure
  | s, [] => (s, none)
  | s, raw :: rest =>
    if s.cancelled || halts s.engine.line then (s, some .cancelled)
    else match s.exec (s.sinkFor w raw) raw with
      | (s, some failure) => (s, some failure)
      | (s, none) => runLinesTo w halts s rest

def runTo (s : Session) (w : Writer) (halts : Nat → Bool) (cancelled : Bool) (script : Text) :
    Session × Option Failure :=
  let reading := Lines.read s.engine.lineLimit script
  let ran := runLinesTo w halts (s.atStart cancelled) reading.lines
  (ran.1, ran.2.or (readFailure reading))

theorem runLinesTo_constant (refusal : Option Text) (cancels : Bool) (halts : Nat → Bool)
    (s : Session) (lines : List Text) :
    runLinesTo ⟨fun _ => refusal, fun _ => cancels⟩ halts s lines =
      runLinesHalting ⟨fun _ => refusal, fun _ => cancels⟩ halts s lines := by
  induction lines generalizing s with
  | nil => rfl
  | cons raw rest ih =>
    rw [runLinesTo, runLinesHalting]
    split
    · rfl
    · have hsame : s.sinkFor ⟨fun _ => refusal, fun _ => cancels⟩ raw =
          ⟨fun _ => refusal, fun _ => cancels⟩ := rfl
      rw [hsame]
      rcases s.exec ⟨fun _ => refusal, fun _ => cancels⟩ raw with ⟨t, _ | f⟩
      · exact ih t
      · rfl

inductive Call where
  | exec (raw : Text)
  /-- `halts` says while which lines the run is cancelled from outside. -/
  | run (halts : Nat → Bool) (cancelled : Bool) (script : Text)
  | evaluate (expr : Text)
  | assign (line : Text)
  /-- The expansion goes to the writer of the engine, unless another one is given. -/
  | interpolate (other : Option Writer) (t : Text)
  | set (name : Text) (v : Value)
  | reset

inductive Answer where
  | done
  | executed (failure : Option Failure)
  | evaluated (result : Except EvalError Value)
  | assigned (failure : Option EvalError)
  | interpolated (failure : Option InterpolateError)

/-- Carries out a call. What another writer takes is kept with the writes of the session. -/
def carryOut (s : Session) (w : Writer) : Call → Session × Answer
  | .exec raw => (s.exec (s.sinkFor w raw) raw).map id .executed
  | .run halts cancelled script => (s.runTo w halts cancelled script).map id .executed
  | .evaluate expr => (s, .evaluated (s.engine.store.evaluate expr))
  | .assign line => (s.assign line).map id .assigned
  | .interpolate other t =>
    (s.interpolate ((other.getD w).sink (s.engine.store.echoLine t)) t).map id .interpolated
  | .set name v => (s.set name v, .done)
  | .reset => (s.reset, .done)

def carryOutAll (s : Session) (w : Writer) (calls : List Call) : Session :=
  calls.foldl (fun s c => (s.carryOut w c).1) s

/-- What can be seen of a call: its answer, the lines it has written and the diagnostics it has
reported, last first, and the counts and the variables behind it. -/
structure Observation where
  answer : Answer
  written : List Text
  reported : List Diagnostic
  stats : Stats
  store : Store

def observe (s : Session) (w : Writer) (c : Call) : Observation :=
  let after := s.carryOut w c
  { answer := after.2
    written := after.1.writes.take (after.1.writes.length - s.writes.length)
    reported := after.1.diagnostics.take (after.1.diagnostics.length - s.diagnostics.length)
    stats := after.1.engine.stats
    store := after.1.engine.store }

def observeAll (w : Writer) : Session → List Call → List Observation
  | _, [] => []
  | s, c :: calls => s.observe w c :: observeAll w (s.carryOut w c).1 calls

/-- The session with an earlier one behind it, of which only the traces are left. -/
def following (s old : Session) : Session :=
  { s with
    attempts := old.attempts + s.attempts
    cancelled := old.cancelled || s.cancelled
    writes := s.writes ++ old.writes
    diagnostics := s.diagnostics ++ old.diagnostics }

section Following
variable (old s : Session) (w : Writer)

theorem write_following (line t : Text) :
    (s.following old).write (w.sink line) t = (s.write (w.sink line) t).following old := by
  cases hanswer : w.refusal line <;>
    simp [write, following, Writer.sink, hanswer, Bool.or_assoc, Nat.add_assoc]

theorem exec_following (line raw : Text) :
    (s.following old).exec (w.sink line) raw =
      ((s.exec (w.sink line) raw).1.following old, (s.exec (w.sink line) raw).2) := by
  have hrefusal : (w.sink line).refusal (s.following old).attempts =
      (w.sink line).refusal s.attempts := rfl
  have hengine : (s.following old).engine = s.engine := rfl
  simp only [exec, hrefusal, hengine]
  cases (s.engine.exec ((w.sink line).refusal s.attempts) raw).write with
  | none => simp only [following, List.append_assoc]
  | some t =>
    rw [← write_following]
    simp only [following, List.append_assoc]

theorem interpolate_following (line t : Text) :
    (s.following old).interpolate (w.sink line) t =
      ((s.interpolate (w.sink line) t).1.following old, (s.interpolate (w.sink line) t).2) := by
  simp only [interpolate, ← write_following]
  rfl

theorem assign_following (line : Text) :
    (s.following old).assign line = ((s.assign line).1.following old, (s.assign line).2) := by
  have hengine : (s.following old).engine = s.engine := rfl
  simp only [assign, hengine]
  cases s.engine.store.assign line <;> rfl

theorem runLinesTo_following (hold : old.cancelled = false) (halts : Nat → Bool)
    (lines : List Text) :
    runLinesTo w halts (s.following old) lines =
      ((runLinesTo w halts s lines).1.following old, (runLinesTo w halts s lines).2) := by
  induction lines generalizing s with
  | nil => rfl
  | cons raw rest ih =>
    have hstop : ((s.following old).cancelled || halts (s.following old).engine.line) =
        (s.cancelled || halts s.engine.line) := by
      simp [following, hold]
    have hsink : (s.following old).sinkFor w raw = s.sinkFor w raw := rfl
    rw [runLinesTo, runLinesTo, hstop, hsink, sinkFor, exec_following]
    split
    · rfl
    · rcases s.exec (w.sink ((s.engine.exec none raw).write.getD [])) raw with ⟨t, _ | f⟩
      · exact ih t
      · rfl

/-- What a call does is the same behind an earlier session, of which the traces are left as they
were. -/
theorem carryOut_following (c : Call) :
    ∃ old' : Session, old'.writes = old.writes ∧ old'.diagnostics = old.diagnostics ∧
      (s.following old).carryOut w c =
        ((s.carryOut w c).1.following old', (s.carryOut w c).2) := by
  cases c with
  | exec raw =>
    refine ⟨old, rfl, rfl, ?_⟩
    simp only [carryOut, sinkFor, exec_following]
    rfl
  | run halts cancelled script =>
    -- a run starts by forgetting whether an earlier one was cancelled
    let old' : Session := { old with cancelled := false }
    have hstart : (s.following old).atStart cancelled = (s.atStart cancelled).following old' := rfl
    have hlimit : (s.following old).engine.lineLimit = s.engine.lineLimit := rfl
    refine ⟨old', rfl, rfl, ?_⟩
    simp only [carryOut, runTo, hlimit, hstart, runLinesTo_following old' _ w rfl]
    rfl
  | evaluate expr => exact ⟨old, rfl, rfl, rfl⟩
  | assign line =>
    refine ⟨old, rfl, rfl, ?_⟩
    simp only [carryOut, assign_following]
    rfl
  | interpolate other t =>
    have hengine : (s.following old).engine = s.engine := rfl
    refine ⟨old, rfl, rfl, ?_⟩
    simp only [carryOut, hengine, interpolate_following]
    rfl
  | set name v => exact ⟨old, rfl, rfl, rfl⟩
  | reset => exact ⟨old, rfl, rfl, rfl⟩

theorem observe_following (c : Call) : (s.following old).observe w c = s.observe w c := by
  obtain ⟨old', hwrites, hdiagnostics, hcall⟩ := carryOut_following old s w c
  have htake {α : Type} (after before rest : List α) :
      (after ++ rest).take ((after ++ rest).length - (before ++ rest).length) =
        after.take (after.length - before.length) := by
    rw [List.length_append, List.length_append, Nat.add_sub_add_right,
      List.take_append_of_le_length (Nat.sub_le _ _)]
  have hold (t : Session) : (t.following old').writes = t.writes ++ old.writes ∧
      (t.following old').diagnostics = t.diagnostics ++ old.diagnostics := by
    rw [← hwrites, ← hdiagnostics]
    exact ⟨rfl, rfl⟩
  have hbefore : (s.following old).writes = s.writes ++ old.writes ∧
      (s.following old).diagnostics = s.diagnostics ++ old.diagnostics := ⟨rfl, rfl⟩
  have hengine (t : Session) : (t.following old').engine = t.engine := rfl
  simp only [observe, hcall, hold, hbefore, hengine, htake]

end Following

theorem observeAll_following (w : Writer) (old s : Session) (calls : List Call) :
    observeAll w (s.following old) calls = observeAll w s calls := by
  induction calls generalizing old s with
  | nil => rfl
  | cons c calls ih =>
    obtain ⟨old', -, -, hcall⟩ := carryOut_following old s w c
    rw [observeAll, observeAll, observe_following, hcall, ih]

/-- What no call changes: the globals and the line limit. -/
def Configured (globals : Store) (limit : Nat) (s : Session) : Prop :=
  s.engine.globals = globals ∧ s.engine.lineLimit = limit

section Configured
variable {globals : Store} {limit : Nat} {s : Session}

theorem Configured.exec (h : s.Configured globals limit) (sink : Sink) (raw : Text) :
    (s.exec sink raw).1.Configured globals limit := by
  rw [Configured, exec_engine, Engine.exec_engine]
  cases Line.classify raw.trim <;> exact h

theorem Configured.runLinesTo (h : s.Configured globals limit) (w : Writer) (halts : Nat → Bool)
    (lines : List Text) : (runLinesTo w halts s lines).1.Configured globals limit := by
  induction lines generalizing s with
  | nil => exact h
  | cons raw rest ih =>
    rw [Session.runLinesTo]
    split
    · exact h
    · have hnext := h.exec (s.sinkFor w raw) raw
      rcases hexec : s.exec (s.sinkFor w raw) raw with ⟨t, _ | f⟩
      · rw [hexec] at hnext
        exact ih hnext
      · rw [hexec] at hnext
        exact hnext

theorem Configured.carryOut (h : s.Configured globals limit) (w : Writer) (c : Call) :
    (s.carryOut w c).1.Configured globals limit := by
  cases c with
  | exec raw => exact h.exec _ raw
  | run halts cancelled script => exact Configured.runLinesTo (s := s.atStart cancelled) h w halts _
  | evaluate expr => exact h
  | assign line =>
    have hassigned : (s.assign line).1.Configured globals limit := by
      obtain ⟨store, hassign⟩ := exists_assign s line
      rw [hassign]
      exact h
    exact hassigned
  | interpolate other t => exact h
  | set name v => exact h
  | reset => exact h

theorem Configured.carryOutAll (h : s.Configured globals limit) (w : Writer)
    (calls : List Call) : (s.carryOutAll w calls).Configured globals limit := by
  induction calls generalizing s with
  | nil => exact h
  | cons c calls ih => exact ih (h.carryOut w c)

end Configured

end Session

/-- A reset cannot be told from a new engine. Whatever has been done with an engine, once it is
reset it is the new engine again, and all calls from then on are answered, written, reported and
counted and leave the variables as on the new engine. With a writer that answers all lines alike, a
run is one into a sink, and an ordinary run unless it is cancelled from outside. -/
theorem reset_renews {globals : Store} {maxLine : Int} {e : Engine}
    (accepted : Engine.new globals maxLine = .ok e) (w : Writer)
    (before since : List Session.Call) :
    let new : Session := { engine := e }
    let used := new.carryOutAll w (before ++ [.reset])
    used.engine = e ∧ Session.observeAll w used since = Session.observeAll w new since ∧
    (∀ (s : Session) refusal cancels halts cancelled script,
      s.runTo ⟨fun _ => refusal, fun _ => cancels⟩ halts cancelled script =
        s.runHalting ⟨fun _ => refusal, fun _ => cancels⟩ halts cancelled script) ∧
    ∀ (s : Session) sink cancelled script,
      s.runHalting sink (fun _ => false) cancelled script = s.run sink cancelled script := by
  intro new used
  obtain ⟨-, rfl⟩ := Engine.new_eq accepted
  have hconfigured : (new.carryOutAll w before).Configured globals (Lines.limitOf maxLine) :=
    Session.Configured.carryOutAll ⟨rfl, rfl⟩ w before
  have hused : used = (new.carryOutAll w before).reset := by
    simp only [used, Session.carryOutAll, List.foldl_append]
    rfl
  have hengine : used.engine = new.engine := by
    rw [hused, Session.reset, Engine.reset, hconfigured.1, hconfigured.2]
  have hfollowing : used = new.following used := by
    rw [Session.following, ← hengine, Bool.or_false]
    rfl
  refine ⟨hengine, ?_, ?_, Session.runHalting_never⟩
  · rw [hfollowing, Session.observeAll_following]
  · intro s refusal cancels halts cancelled script
    rw [Session.runTo, Session.runHalting, Session.runLinesTo_constant]

/-- A global that is bound anew, a run that reports and is cancelled, a refused line and one that
fails. -/
theorem reset_renews_refused :
    let globals : Store := .ofList [("x", .int 1)]
    let e : Engine := { globals, lineLimit := 1048576, store := globals }
    let w : Writer := { refusal := fun line => if line = " no\n" then some "sink closed" else none }
    let before : List Session.Call := [.set "x" (.int 2),
      .run (fun i => i = 2) false "let int y = 3\necho \x7b\necho no", .exec "echo no",
      .exec "let int z = x"]
    let since : List Session.Call := [.exec "echo \x7bx\x7d\x7by\x7d", .exec "echo no"]
    let new : Session := { engine := e }
    let used := new.carryOutAll w (before ++ [.reset])
    Engine.new globals 0 = .ok e ∧
      (new.carryOutAll w before).engine.stats = ⟨4, 2, 2, 0, 1⟩ ∧ used.engine = e ∧
      Session.observeAll w used since = Session.observeAll w new since ∧
      (Session.observeAll w used since).map (·.written) = [[Text.ofString " 1y\n"], []] := by
  intro globals e w before since new used
  have accepted : Engine.new globals 0 = .ok e := by decide +kernel
  have hstats : (new.carryOutAll w before).engine.stats = ⟨4, 2, 2, 0, 1⟩ := by decide +kernel
  have hwritten : (Session.observeAll w used since).map (·.written) =
      [[Text.ofString " 1y\n"], []] := by
    decide +kernel
  obtain ⟨hengine, hobserved, -⟩ := reset_renews accepted w before since
  exact ⟨accepted, hstats, hengine, hobserved, hwritten⟩

end LineScript
