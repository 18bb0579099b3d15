import LineScript.Engine

/-!
A session: an engine attached to a sink that may refuse writes, and runs of whole scripts that a
write may cancel.
-/
namespace LineScript

/-- Writes are numbered from zero over the whole session. -/
structure Sink where
  refusal : Nat → Option Text := fun _ => none
  /-- Whether the run in progress is cancelled during a write. -/
  cancels : Nat → Bool := fun _ => false

structure Session where
  engine : Engine
  attempts : Nat := 0
  cancelled : Bool := false
  /-- The writes that the sink accepted, last first. -/
  writes : List Text := []
  diagnostics : List Diagnostic := []
  deriving DecidableEq

namespace Session

def output (s : Session) : Text := s.writes.reverse.flatten

def write (s : Session) (sink : Sink) (t : Text) : Session :=
  { s with
    attempts := s.attempts + 1
    cancelled := s.cancelled || sink.cancels s.attempts
    writes := if (sink.refusal s.attempts).isNone then t :: s.writes else s.writes }

def exec (s : Session) (sink : Sink) (raw : Text) : Session × Option Failure :=
  let step := s.engine.exec (sink.refusal s.attempts) raw
  let s := { s with engine := step.engine, diagnostics := step.diagnostic.toList ++ s.diagnostics }
  let s := match step.write with
    | some t => s.write sink t
    | none => s
  (s, step.failure)

def runLines (sink : Sink) : Session → List Text → Session × Option Failure
  | s, [] => (s, none)
  | s, line :: rest =>
    -- cancellation is noticed before a line, and never within one
    if s.cancelled then (s, some .cancelled)
    else match s.exec sink line with
      | (s, some failure) => (s, some failure)
      | (s, none) => runLines sink s rest

/-- Lines are numbered from one; `cancelled` says whether the run is cancelled from the start. -/
def run (s : Session) (sink : Sink) (cancelled : Bool) (script : Text) :
    Session × Option Failure :=
  let reading := Lines.read s.engine.lineLimit script
  match runLines sink { s with engine := { s.engine with line := 0 }, cancelled } reading.lines with
  | (s, some failure) => (s, some failure)
  | (s, none) => (s, if reading.overlong then some .overlongLine else none)

inductive InterpolateError where
  | evaluation (e : EvalError)
  | refused (reason : Text)

def interpolate (s : Session) (sink : Sink) (t : Text) : Session × Option InterpolateError :=
  let x := s.engine.store.expand t
  let error := match x.error with
    | some e => some (.evaluation e)
    | none => (sink.refusal s.attempts).map .refused
  (s.write sink (x.output ++ [Text.lf]), error)

def assign (s : Session) (line : Text) : Session × Option EvalError :=
  match s.engine.store.assign line with
  | .ok store => ({ s with engine := { s.engine with store } }, none)
  | .error e => (s, some e)

def reset (s : Session) : Session := { s with engine := s.engine.reset }

def set (s : Session) (name : Text) (v : Value) : Session :=
  { s with engine := { s.engine with store := s.engine.store.set name v } }

end Session

end LineScript
