import LineScript.Text

/-! A line of a script: its kind, the text it echoes and its fields. -/
namespace LineScript

inductive Statement where
  | ignored
  | echo
  | declaration
  deriving DecidableEq

namespace Statement

def all : List Statement := [.ignored, .echo, .declaration]

def name : Statement → Text
  | .ignored => "ignored"
  | .echo => "echo"
  | .declaration => "declaration"

def nameAt (n : Int) : Text :=
  match n with
  | .ofNat k => (all[k]?.map name).getD "unknown"
  | .negSucc _ => "unknown"

end Statement

namespace Line

def echoKeyword : Text := "echo"

def declarationKeywords : List Text := ["let", "var", "const"]

/-- Only the first bytes of a line count: `echoes` is an echo, and `letter` is taken for a
declaration. -/
def classify (line : Text) : Statement :=
  if echoKeyword.isPrefixOf line then .echo
  else if declarationKeywords.any (·.isPrefixOf line) then .declaration
  else .ignored

def echoText (line : Text) : Text :=
  if echoKeyword.isPrefixOf line then line.drop echoKeyword.length else line

structure Field where
  start : Nat
  text : Text
  deriving DecidableEq

/-- Gives each piece its offset, the pieces being one byte apart; `seen` holds the fields so far,
last first. -/
def locateFrom : Nat → List Field → List Text → List Field
  | _, seen, [] => seen.reverse
  | start, seen, piece :: rest =>
    locateFrom (start + piece.length + 1) (⟨start, piece⟩ :: seen) rest

def fields (line : Text) : List Field :=
  (locateFrom 0 [] (line.splitOnP Text.isSpace)).filter (·.text ≠ [])

def fieldTexts (line : Text) : List Text := (fields line).map (·.text)

end Line

end LineScript
