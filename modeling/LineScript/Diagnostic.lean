import LineScript.CodeFrame
import LineScript.Fault

/-! What an engine reports about a line: failures that end a run and diagnostics that do not. -/
namespace LineScript

structure Located where
  line : Nat
  column : Nat
  source : Text
  error : EvalError
  deriving DecidableEq

namespace Located

def ofOffset (line : Nat) (source : Text) (offset : Nat) (error : EvalError) : Located :=
  ⟨line, columnAt source offset, source, error⟩

def frame (l : Located) : Text := codeFrame l.line l.source l.column

end Located

/-- A message with its line number in front, if it has one, and a code frame under it. -/
def failureText (line : Int) (message frame : Text) : Text :=
  Text.cat [if 0 < line then Text.cat ["line ", Text.ofInt line, ": "] else [], message,
    if frame = [] then [] else Text.cat ["\n", frame]]

def diagnosticText (line column : Int) (message : Text) : Text :=
  if 0 < line then Text.cat ["line ", Text.ofInt line, ":", Text.ofInt column, ": ", message]
  else message

abbrev Diagnostic := Located

def Diagnostic.text (d : Diagnostic) : Text := diagnosticText d.line d.column d.error.message

inductive Failure where
  | runtime (place : Located)
  | write (line : Nat) (reason : Text)
  | cancelled
  | overlongLine
  deriving DecidableEq

def Failure.message : Failure → Text
  | .runtime l => failureText l.line l.error.message l.frame
  | .write line reason => Text.cat ["line ", Text.ofNat line, ": write output: ", reason]
  | .cancelled => "context canceled"
  | .overlongLine => "read script: bufio.Scanner: token too long"

end LineScript
