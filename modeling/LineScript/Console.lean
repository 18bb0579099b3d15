import LineScript.Console.InputField
import LineScript.FileTree
import LineScript.Session
import LineScript.Shown
import LineScript.Text.White

/-!
The interactive console as a state machine. Lines that are pasted or loaded wait in a queue, and
each message to run one of them asks for the next as long as there is one.
-/
namespace LineScript

structure HistoryEntry where
  input : Text := []
  output : Text
  isError : Bool := false
  deriving DecidableEq

structure Console where
  field : InputField := {}
  engine : Engine
  pending : List Text := []
  history : List HistoryEntry := []
  pastLines : List Text := []
  /-- The line called back last, if that is what the field shows. -/
  recallIndex : Option Nat := none
  width : Int := 0
  height : Int := 0
  showHelp : Bool := false
  showVars : Bool := false
  quitting : Bool := false
  ready : Bool := false
  deriving DecidableEq

inductive Key where
  | up
  | down
  | enter
  | tab
  | ctrlC
  | ctrlD
  | ctrlL
  | ctrlV
  | ctrlK
  | left
  | right
  | backspace
  deriving DecidableEq

inductive Message where
  | resize (width height : Int)
  | runPending
  | key (k : Key)
  | typed (c : Char)
  | pasted (chars : List Char)
  deriving DecidableEq

inductive Effect where
  | none
  | runPending
  | quit
  deriving DecidableEq

structure Outcome where
  output : Text
  isError : Bool := false
  /-- Whether the lines that wait behind it must not run. -/
  isFatal : Bool := false
  deriving DecidableEq

namespace Console

def start : Console :=
  { engine := { globals := Store.empty, lineLimit := Lines.limitOf 0, store := Store.empty } }

def declarationReport (s : Store) (input : Text) : Text :=
  let d := Declaration.ofLine input
  if d.identifier = [] ∨ DeclaredType.ofName? d.type = none then "ignored"
  else match s.get? d.identifier with
    | none => "ignored"
    | some v => Text.cat [d.identifier, " = ", v.shown .bound]

def statementOutcome (input : Text) (step : Step) : Outcome :=
  let output := (step.write.getD []).dropLastByte Text.lf
  match step.failure, step.diagnostic with
  | some (.runtime place), _ => { output := place.error.message, isError := true, isFatal := true }
  | some failure, _ => { output := failure.message, isError := true, isFatal := true }
  | none, some d => { output := Text.joinWith [Text.lf] [output, d.text], isError := true }
  | none, none =>
    match Line.classify input with
    | .echo => { output }
    | _ => { output := declarationReport step.engine.store input }

def run (e : Engine) (input : Text) : Engine × Outcome :=
  match Line.classify input with
  | .ignored =>
    match e.store.evaluate input with
    | .ok v => (e, { output := v.shown (e.store.rule input) })
    | .error err => (e, { output := err.message, isError := true })
  | _ =>
    let step := e.exec none input
    (step.engine, statementOutcome input step)

def log (c : Console) (entry : HistoryEntry) : Console := { c with history := c.history ++ [entry] }

def record (c : Console) (input : Text) : Console × Outcome :=
  let (engine, outcome) := run c.engine input
  (({ c with engine }).log ⟨input, outcome.output, outcome.isError⟩, outcome)

def runNext (c : Console) : Console × Effect :=
  match c.pending with
  | [] => (c, .none)
  | line :: rest =>
    let (c, outcome) := { c with pending := rest }.record line
    -- a fatal line takes those behind it out of the queue
    if outcome.isFatal then
      let stopped := { c with pending := [] }
      if rest = [] then (stopped, .none)
      else
        (stopped.log { output := Text.cat ["Stopped; ", Text.ofNat rest.length,
          " queued line(s) dropped"], isError := true }, .none)
    else (c, if rest = [] then .none else .runPending)

def enqueue (c : Console) (t : Text) : Console :=
  { c with pending := c.pending ++ Lines.statements t }

/-- Queues pasted lines, the first of which continues what stands in the field. -/
def pasteLines (c : Console) (chars : List Char) : Console × Effect :=
  let t := c.field.text ++ Text.ofChars chars
  let lines := Lines.statements t
  let c := c.enqueue t
  ({ c with pastLines := c.pastLines ++ lines, field := c.field.clear, recallIndex := none },
    if lines = [] then .none else .runPending)

def load (files : FileTree) (c : Console) (input : Text) (arguments : List Text) :
    Console × Effect :=
  match arguments with
  | [path] =>
    match files.readFile path with
    | .error e =>
      (c.log ⟨input, Text.cat ["read script: ", e.message], true⟩, .none)
    | .ok t =>
      let lines := Lines.statements t
      let c := c.enqueue t
      (c.log { input, output := Text.cat ["Queued ", Text.ofNat lines.length, " line(s)"] },
        if lines = [] then .none else .runPending)
  | _ => (c.log ⟨input, "Usage: :load <script>", true⟩, .none)

def command (files : FileTree) (c : Console) (input : Text) : Console × Effect :=
  match Text.words input with
  | [] => (c, .none)
  | word :: arguments =>
    if word = ":help" ∨ word = ":h" then ({ c with showHelp := !c.showHelp }, .none)
    else if word = ":clear" ∨ word = ":c" then ({ c with history := [] }, .none)
    else if word = ":vars" ∨ word = ":v" then ({ c with showVars := !c.showVars }, .none)
    else if word = ":reset" ∨ word = ":r" then
      ({ c with engine := c.engine.reset, pending := [] }.log
        { input, output := "Environment reset" }, .none)
    else if word = ":load" ∨ word = ":l" then load files c input arguments
    else if word = ":quit" ∨ word = ":q" then ({ c with quitting := true }, .quit)
    else (c.log ⟨input, Text.cat ["Unknown command: ", word], true⟩, .none)

def enter (files : FileTree) (c : Console) : Console × Effect :=
  let input := Text.trim c.field.text
  if input = [] then (c, .none)
  else
    let (c, effect) :=
      if input.head? = some Text.colon then command files c input
      else
        let c := (c.record input).1
        ({ c with pastLines := c.pastLines ++ [input] }, .none)
    ({ c with field := c.field.clear, recallIndex := none }, effect)

def vocabulary : List Text :=
  ["echo", "let", "var", "const", "int", "float", "string", "boolean", "true", "false"]

def completions (s : Store) (word : Text) : List Text :=
  (vocabulary ++ s.names).filter word.isPrefixOf

def dropSuffix (t suffix : Text) : Text :=
  if suffix.isSuffixOf t then t.take (t.length - suffix.length) else t

def complete (c : Console) : Console :=
  let input := c.field.text
  match (Text.words input).getLast? with
  | none => c
  | some word =>
    if input.getLast? = some 0x20 then c
    else match completions c.engine.store word with
      | [] => c
      | [only] => { c with field := (c.field.setText (dropSuffix input word ++ only)).moveToEnd }
      | several =>
        c.log { output := Text.cat ["Completions: ", Text.joinWith ", " several] }

def showRecalled (c : Console) (i : Nat) : Console :=
  { c with
    recallIndex := some i
    field := (c.field.setText (c.pastLines.getD i [])).moveToEnd }

def recallUp (c : Console) : Console :=
  if c.pastLines = [] then c
  else match c.recallIndex with
    | none => c.showRecalled (c.pastLines.length - 1)
    | some i => c.showRecalled (i - 1)

def recallDown (c : Console) : Console :=
  match c.recallIndex with
  | none => c
  | some i =>
    if i + 1 < c.pastLines.length then c.showRecalled (i + 1)
    else { c with recallIndex := none, field := c.field.clear.moveToEnd }

def press (files : FileTree) (c : Console) : Key → Console × Effect
  | .ctrlC | .ctrlD => ({ c with quitting := true }, .quit)
  | .ctrlL => ({ c with history := [] }, .none)
  | .ctrlV => ({ c with showVars := !c.showVars }, .none)
  | .ctrlK => ({ c with showHelp := !c.showHelp }, .none)
  | .up => (c.recallUp, .none)
  | .down => (c.recallDown, .none)
  | .tab => (c.complete, .none)
  | .enter => c.enter files
  | .left => ({ c with field := c.field.left }, .none)
  | .right => ({ c with field := c.field.right }, .none)
  | .backspace => ({ c with field := c.field.backspace }, .none)

def update (files : FileTree) (c : Console) : Message → Console × Effect
  | .resize width height =>
    ({ c with width, height, ready := true, field := { c.field with width := width - 10 } }, .none)
  | .runPending => c.runNext
  | .key k => c.press files k
  | .typed ch => ({ c with field := c.field.insert [ch] }, .none)
  | .pasted chars =>
    if chars.any fun ch => ch = '\r' || ch = '\n' then c.pasteLines chars
    else ({ c with field := c.field.insert chars }, .none)

/-- Delivers messages to run waiting lines for as long as they are asked for, and counts them. -/
def deliver : Nat → Nat → Console → Console × Nat
  | 0, delivered, c => (c, delivered)
  | fuel + 1, delivered, c =>
    match c.runNext with
    | (c, .runPending) => deliver fuel (delivered + 1) c
    | (c, _) => (c, delivered + 1)

/-- Each message runs a line, so that one more than the lines that wait is enough. -/
def drain (c : Console) : Console × Nat := deliver (c.pending.length + 1) 0 c

end Console

end LineScript
