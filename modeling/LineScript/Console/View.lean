import LineScript.Console
import LineScript.Text.Columns

/-!
The console as it is drawn: texts in lines, panels in boxes and the input field. Boxes, columns and
the field stand in for what a terminal library draws; the rule, the parts of the screen and their
order are the console's own.
-/
namespace LineScript

namespace Drawing

def pad (width : Nat) (line : Text) : Text := line ++ List.replicate (width - line.columns) 0x20

def widest (lines : List Text) : Nat := (lines.map Text.columns).foldl max 0

def drawnLines (t : Text) : List Text :=
  (Lines.joinCrLf (t.flatMap fun b => if b = 0x09 then [0x20, 0x20, 0x20, 0x20] else [b])).splitOn
    Text.lf

/-- A text as it is drawn: if it has several lines, all are made as wide as the widest. -/
def render (t : Text) : Text :=
  let lines := drawnLines t
  Text.joinWith [Text.lf] (lines.map (pad (widest lines)))

def times (n : Nat) (t : Text) : Text := (List.replicate n t).flatten

def box (t : Text) : Text :=
  -- the blanks come before the count, for an unfinished escape sequence takes in the one after it
  let lines := (drawnLines t).map fun l => Text.cat [" ", l, " "]
  let width := widest lines
  let edge := times width "─"
  Text.joinWith [Text.lf] <|
    [Text.cat ["╭", edge, "╮"]] ++ lines.map (fun l => Text.cat ["│", pad width l, "│"]) ++
      [Text.cat ["╰", edge, "╯"]]

end Drawing

namespace InputField

def prompt : Text := "esp> "

def placeholder : Text := "echo text, a declaration, or an expression..."

def placeholderView (width : Int) : Text :=
  if width ≤ 0 then placeholder
  else
    let room : Int := width - placeholder.length + 1
    if 0 ≤ room then placeholder ++ List.replicate room.toNat 0x20
    else placeholder.take (placeholder.length + room).toNat

def valueView (f : InputField) : Text :=
  let shown := (f.value.drop f.first).take (f.last - f.first)
  let atEnd : Bool := shown.length ≤ f.cursor - f.first
  let room : Int := f.width - shown.length
  let filler : Nat :=
    if 0 < f.width ∧ 0 ≤ room then room.toNat + (if atEnd then 0 else 1) else 0
  Text.cat [Text.ofChars shown, if atEnd then " " else [], List.replicate filler 0x20]

def view (f : InputField) : Text :=
  prompt ++ (if f.value = [] then placeholderView f.width else f.valueView)

end InputField

namespace Console

inductive ViewError where
  | negativeRule
  deriving DecidableEq

def ViewError.message : ViewError → Text
  | .negativeRule => "strings: negative Repeat count"

def header : Text := " ESP REPL  v0.1.0\n"

def footer : Text := "ctrl+k help  ctrl+v vars  ctrl+l clear  ctrl+c quit"

def entryView (e : HistoryEntry) : Text :=
  Text.cat [if e.input = [] then [] else Text.cat ["  › ", e.input, "\n"],
    "  ", Drawing.render (Text.cat [if e.isError then "✗ " else "→ ", e.output]), "\n\n"]

def varsPanel (s : Store) : Text :=
  if s.entries = [] then Drawing.box "No variables defined"
  else Drawing.box <| Text.joinWith [Text.lf] <|
    ("Variables" : Text) ::
      s.entries.map fun e => Text.cat ["  ", Drawing.render e.1, " = ", e.2.shown .bound]

def helpEntries : List (Text × Text) :=
  [("↑/↓", "Navigate command history"),
   ("Tab", "Autocomplete"),
   ("Enter", "Run a statement or evaluate an expression"),
   (":help", "Toggle this help"),
   (":vars", "Toggle variables panel"),
   (":load", "Run a script file line by line"),
   (":clear", "Clear history"),
   (":reset", "Reset variables"),
   (":quit", "Exit REPL")]

def helpPanel : Text :=
  Drawing.box <| Text.joinWith [Text.lf] <|
    ("Help" : Text) ::
      helpEntries.map fun h => Text.cat ["  ", Drawing.pad 8 h.1, "  ", h.2]

def reservedLines (c : Console) : Nat :=
  8 + (if c.showHelp then 11 else 0) + (if c.showVars then c.engine.store.size + 3 else 0)

/-- The entries of the history that are shown: the last ones, one for each line left. -/
def shownHistory (c : Console) : List HistoryEntry :=
  let available : Int := c.height - c.reservedLines
  c.history.drop ((c.history.length : Int) - available).toNat

def view (c : Console) : Except ViewError Text :=
  if !c.ready then .ok "Loading..."
  else if c.quitting then .ok (Drawing.render "Goodbye!\n")
  else if c.width < 2 then .error .negativeRule
  else .ok <| Text.cat [header, Drawing.times (min (c.width - 2) 60).toNat "─", "\n\n",
    c.shownHistory.flatMap entryView,
    if c.showVars then Text.cat [varsPanel c.engine.store, "\n"] else [],
    if c.showHelp then Text.cat [helpPanel, "\n"] else [],
    c.field.view, "\n\n", footer]

end Console

end LineScript
