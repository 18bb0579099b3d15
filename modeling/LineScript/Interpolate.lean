import LineScript.Declaration
import LineScript.Span

/-! Interpolation: the text in which every span is replaced by the value of its source. -/
namespace LineScript

structure Expansion where
  output : Text
  error : Option EvalError
  deriving DecidableEq

namespace Store

/-- Expands segments up to the first whose evaluation fails; `seen` holds the outputs so far, last
first, and `atEnd` is the failure that follows the segments. -/
def expandFrom (s : Store) (atEnd : Option EvalError) : List Text → List Segment → Expansion
  | seen, [] => ⟨seen.reverse.flatten, atEnd⟩
  | seen, ⟨.literal t, _⟩ :: rest => expandFrom s atEnd (t :: seen) rest
  | seen, ⟨.span source, offset⟩ :: rest =>
    match s.evaluate source with
    | .ok v => expandFrom s atEnd (v.text :: seen) rest
    | .error e => ⟨seen.reverse.flatten, some { e with offset := some (offset + 1) }⟩

def expand (s : Store) (t : Text) : Expansion :=
  let r := segments t
  s.expandFrom r.error [] r.segments

/-- The line that an echo of a text writes: the expansion and a line feed, also on failure. -/
def echoLine (s : Store) (t : Text) : Text := (s.expand t).output ++ [Text.lf]

end Store

end LineScript
