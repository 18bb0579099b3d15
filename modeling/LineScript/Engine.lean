import LineScript.Diagnostic
import LineScript.Interpolate
import LineScript.Lines

/-! The engine: the state of a running script and the execution of one line. -/
namespace LineScript

inductive IdentifierError where
  | empty
  | whiteSpace
  deriving DecidableEq

namespace IdentifierError

def message : IdentifierError → Text
  | .empty => "identifier cannot be empty"
  | .whiteSpace => "identifier cannot contain whitespace"

/-- A name must have exactly one field; white space around it is let pass. -/
def ofName? (name : Text) : Option IdentifierError :=
  if name = [] then some .empty
  else if (Line.fields name).length = 1 then none
  else some .whiteSpace

end IdentifierError

structure GlobalError where
  name : Text
  error : IdentifierError
  deriving DecidableEq

def GlobalError.message (e : GlobalError) : Text :=
  Text.cat ["esp: global ", Text.quote e.name, ": ", e.error.message]

structure Stats where
  lines : Nat := 0
  echoes : Nat := 0
  declarations : Nat := 0
  ignored : Nat := 0
  diagnostics : Nat := 0
  deriving DecidableEq

structure Engine where
  globals : Store
  /-- Lines of this many bytes or more are not read. -/
  lineLimit : Nat
  store : Store
  stats : Stats := {}
  line : Nat := 0
  deriving DecidableEq

structure Step where
  engine : Engine
  write : Option Text := none
  diagnostic : Option Diagnostic := none
  failure : Option Failure := none
  deriving DecidableEq

namespace Engine

def globalError? (globals : Store) : Option GlobalError :=
  globals.names.findSome? fun name => (IdentifierError.ofName? name).map (⟨name, ·⟩)

def new (globals : Store) (maxLine : Int) : Except GlobalError Engine :=
  match globalError? globals with
  | some e => .error e
  | none => .ok { globals, lineLimit := Lines.limitOf maxLine, store := globals }

def firstGlobalError? (globals : List (Text × Value)) : Option GlobalError :=
  globals.findSome? fun g => (IdentifierError.ofName? g.1).map (⟨g.1, ·⟩)

/-- A new engine whose globals are looked at and bound in the order given. -/
def ofGlobals (globals : List (Text × Value)) (maxLine : Int) : Except GlobalError Engine :=
  match firstGlobalError? globals with
  | some e => .error e
  | none =>
    let store := Store.ofList globals
    .ok { globals := store, lineLimit := Lines.limitOf maxLine, store }

def reset (e : Engine) : Engine :=
  { globals := e.globals, lineLimit := e.lineLimit, store := e.globals }

def count (e : Engine) (s : Statement) : Engine :=
  let stats := { e.stats with lines := e.stats.lines + 1 }
  { e with
    line := e.line + 1
    stats :=
      match s with
      | .ignored => { stats with ignored := stats.ignored + 1 }
      | .echo => { stats with echoes := stats.echoes + 1 }
      | .declaration => { stats with declarations := stats.declarations + 1 } }

def echo (e : Engine) (refusal : Option Text) (raw line : Text) : Step :=
  let text := Line.echoText line
  let x := e.store.expand text
  let write := some (x.output ++ [Text.lf])
  match x.error with
  | none => { engine := e, write, failure := refusal.map (.write e.line) }
  | some err =>
    let offset := raw.indent + Line.echoKeyword.length + err.offset.getD 0
    let place := Located.ofOffset e.line raw offset err
    -- an unterminated span is reported and the script goes on, even if the write was refused
    if err.cause.fault = .malformedInterpolation then
      { engine := { e with stats := { e.stats with diagnostics := e.stats.diagnostics + 1 } }
        write
        diagnostic := some place }
    else { engine := e, write, failure := some (.runtime place) }

def declare (e : Engine) (raw line : Text) : Step :=
  match e.store.assign line with
  | .ok store => { engine := { e with store } }
  | .error err =>
    let offset := raw.indent + (Declaration.ofLine line).valueOffset
    { engine := e, failure := some (.runtime (Located.ofOffset e.line raw offset err)) }

/-- `refusal` is the reason for which the sink refuses a write now, if it does. -/
def exec (e : Engine) (refusal : Option Text) (raw : Text) : Step :=
  let line := raw.trim
  let kind := Line.classify line
  let e := e.count kind
  match kind with
  | .ignored => { engine := e }
  | .echo => e.echo refusal raw line
  | .declaration => e.declare raw line

end Engine

end LineScript
