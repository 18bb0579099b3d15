import LineScript.Fault

/-!
Echo text as a sequence of literal pieces and spans in braces. A backslash before an opening brace
makes the brace literal, and the first closing brace ends a span.
-/
namespace LineScript

inductive Piece where
  | literal (text : Text)
  | span (source : Text)
  deriving DecidableEq

namespace Piece

def unparse : Piece → Text
  | .literal text =>
    text.flatMap fun b => if b = Text.openBrace then [Text.backslash, b] else [b]
  | .span source => Text.cat [[Text.openBrace], source, [Text.closeBrace]]

end Piece

/-- A piece and the offset at which it starts; for a span, that of its opening brace. -/
structure Segment where
  piece : Piece
  offset : Nat
  deriving DecidableEq

structure Segmentation where
  segments : List Segment
  error : Option EvalError
  deriving DecidableEq

namespace Segmentation

/-- What is being read: literal text or the inside of a span, last byte first, and its start. -/
inductive State where
  | literal (start : Nat) (seen : Text)
  | span (start : Nat) (seen : Text)

def flush (start : Nat) (seen : Text) (done : List Segment) : List Segment :=
  if seen = [] then done else ⟨.literal seen.reverse, start⟩ :: done

def literalStart (start position : Nat) (seen : Text) : Nat :=
  if seen = [] then position else start

/-- Reads on at `position`; `done` holds the segments so far, last first. -/
def scan : Nat → State → List Segment → Text → Segmentation
  | _, .literal start seen, done, [] => ⟨(flush start seen done).reverse, none⟩
  | _, .span start seen, done, [] =>
    ⟨done.reverse,
      some ⟨.unterminatedSpan, Text.openBrace :: seen.reverse, some start⟩⟩
  | position, .span start seen, done, b :: rest =>
    if b = Text.closeBrace then
      scan (position + 1) (.literal (position + 1) []) (⟨.span seen.reverse, start⟩ :: done) rest
    else scan (position + 1) (.span start (b :: seen)) done rest
  | position, .literal start seen, done, b :: rest =>
    if b = Text.openBrace then
      scan (position + 1) (.span position []) (flush start seen done) rest
    else
      let start := literalStart start position seen
      match rest with
      | [] => scan (position + 1) (.literal start (b :: seen)) done []
      | c :: rest' =>
        if b = Text.backslash ∧ c = Text.openBrace then
          scan (position + 2) (.literal start (c :: seen)) done rest'
        else scan (position + 1) (.literal start (b :: seen)) done (c :: rest')

end Segmentation

def segments (t : Text) : Segmentation := Segmentation.scan 0 (.literal 0 []) [] t

def unparse (pieces : List Piece) : Text := pieces.flatMap Piece.unparse

end LineScript
