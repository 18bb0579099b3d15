import LineScript.Text

/-!
The tokens of a settings document. Besides the marks that are written, the start and the end of a
block, which only the columns of its lines tell, and the start of a key are tokens. This is part of
the stand-in for a YAML library, and has no tokens for anchors, aliases, tags and directives.
-/
namespace LineScript

inductive Token where
  | documentStart
  | documentEnd
  | streamEnd
  | blockSequence
  | blockMapping
  | blockEnd
  | flowSequence
  | flowSequenceEnd
  | flowMapping
  | flowMappingEnd
  | item
  | comma
  | key
  | value
  | scalar (text : Text) (plain : Bool)
  deriving DecidableEq

namespace Token

def isBlank (c : Char) : Bool := c = ' ' || c = '\t'

def isBreak (c : Char) : Bool :=
  c = '\n' || c = '\r' || c = '\u0085' || c = '\u2028' || c = '\u2029'

/-- The character that stands for the end of a document, in which it cannot occur. -/
def endChar : Char := '\x00'

def endsWord : List Char → Bool
  | [] => true
  | c :: _ => isBlank c || isBreak c || c = endChar

/-- At the start of a line, dashes start a document and dots end one. -/
def isMarker (c : Char) (rest : List Char) : Bool :=
  [c, c, c].isPrefixOf rest && endsWord (rest.drop 3)

def isFlowMark (c : Char) : Bool := [',', '?', '[', ']', '\x7b', '\x7d'].contains c

/-- A dash, a question mark and a colon may start a plain scalar before other text. -/
def isIndicator (c : Char) : Bool :=
  ['-', '?', ':', ',', '[', ']', '\x7b', '\x7d', '#', '&', '*', '!', '|', '>', '\'', '"', '%', '@',
    '\x60'].contains c

end Token

end LineScript
