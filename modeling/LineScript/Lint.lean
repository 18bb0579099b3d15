import LineScript.Diagnostic
import LineScript.Interpolate
import LineScript.Lines
import LineScript.Text.White

/-!
The linter: it replays the declarations of a script and reports the lines that have no effect, read
otherwise than they look, or end the run. A script has no control flow, so the variables at a line
are known.
-/
namespace LineScript

inductive Remark where
  | notAStatement
  | unknownKeyword (word : Text)
  | unknownType (word : Text)
  | noIdentifier
  /-- The identifier reads as something other than a name wherever it is not bound. -/
  | shadows (identifier : Text) (rule : Rule)
  | expectedEquals (identifier found : Text)
  | trailingFields (count : Nat)
  | storedAsFalse (value : Text)
  | aborts (e : EvalError)
  | undeclared (name : Text)
  /-- A variable stands where arithmetic takes only numbers. -/
  | variableOperand (name : Text)
  | unterminatedSpan
  deriving DecidableEq

def Remark.message : Remark → Text
  | .notAStatement => "line is not a statement and is ignored"
  | .unknownKeyword w =>
    Text.cat ["unknown declaration keyword ", Text.quote w, "; line is ignored"]
  | .unknownType w => Text.cat ["unknown type ", Text.quote w, "; declaration is ignored"]
  | .noIdentifier => "declaration has no identifier; line is ignored"
  | .shadows name rule =>
    Text.cat ["identifier ", Text.quote name, " shadows the ", rule.name, " with the same spelling"]
  | .expectedEquals name found =>
    Text.cat ["expected \"=\" after ", name, ", found ", Text.quote found]
  | .trailingFields n =>
    Text.cat ["values are a single word; ", Text.ofNat n, " trailing field(s) ignored"]
  | .storedAsFalse v => Text.cat ["boolean value ", Text.quote v, " is stored as false"]
  | .aborts e => Text.cat [e.message, " (aborts the script)"]
  | .undeclared name => Text.cat [Text.quote name, " is not declared and prints as literal text"]
  | .variableOperand name =>
    Text.cat [Text.quote name, " is not an arithmetic operand; evaluation stops before it"]
  | .unterminatedSpan => "unterminated interpolation span; the rest of the line is dropped"

structure Warning where
  line : Nat
  column : Nat
  remark : Remark
  deriving DecidableEq

namespace Lint

structure Note where
  offset : Nat
  remark : Remark
  deriving DecidableEq

def variableOperand? (s : Store) (expr : Text) : Option Text :=
  (expr.splitOnP fun b => Text.isBlank b || Arithmetic.isOperator b).find? fun word =>
    (s.get? word).isSome && Text.isIdentifier word

/-- The remark on a span, judged by its source without the white space around it. -/
def spanRemark? (s : Store) (source : Text) : Option Remark :=
  let expr := Text.trimWhite source
  match s.evaluate expr with
  | .error e => some (.aborts e)
  | .ok _ =>
    match s.rule expr with
    | .string => if Text.isIdentifier expr then some (.undeclared expr) else none
    | .arithmetic => (variableOperand? s expr).map .variableOperand
    | _ => none

def segmentNote? (s : Store) (base : Nat) (seg : Segment) : Option Note :=
  match seg.piece with
  | .literal _ => none
  | .span source => (spanRemark? s source).map (⟨base + seg.offset + 1, ·⟩)

def echoNotes (s : Store) (base : Nat) (text : Text) : List Note :=
  let r := segments text
  r.segments.filterMap (segmentNote? s base) ++
    (r.error.map fun e => ⟨base + e.offset.getD 0, .unterminatedSpan⟩).toList

def ignoredRemark? (d : Declaration) : Option Remark :=
  if !Declaration.isKeyword d.keyword then some (.unknownKeyword d.keyword)
  else if (DeclaredType.ofName? d.type).isNone then some (.unknownType d.type)
  else if d.identifier = [] then some .noIdentifier
  else none

def formNotes (d : Declaration) (indent fieldCount : Nat) : List Note :=
  let rule := Store.empty.rule d.identifier
  (if rule = .string then [] else [⟨indent, .shadows d.identifier rule⟩]) ++
  (if d.equals = "=" then [] else [⟨indent, .expectedEquals d.identifier d.equals⟩]) ++
  (if fieldCount ≤ 5 then [] else [⟨indent, .trailingFields (fieldCount - 5)⟩]) ++
  (if DeclaredType.ofName? d.type = some .boolean ∧ d.value ≠ "true" ∧ d.value ≠ "false" then
    [⟨indent + d.valueOffset, .storedAsFalse d.value⟩]
  else [])

def declarationNotes (s : Store) (indent : Nat) (line : Text) : List Note × Store :=
  let d := Declaration.ofLine line
  match ignoredRemark? d with
  | some remark => ([⟨indent, remark⟩], s)
  | none =>
    let notes := formNotes d indent (Line.fields line).length
    match s.assign line with
    | .ok s => (notes, s)
    | .error e => (notes ++ [⟨indent + d.valueOffset, .aborts e⟩], s)

def lineNotes (s : Store) (raw : Text) : List Note × Store :=
  let line := raw.trim
  if line = [] then ([], s)
  else match Line.classify line with
    | .ignored => ([⟨raw.indent, .notAStatement⟩], s)
    | .echo =>
      (echoNotes s (raw.indent + Line.echoKeyword.length) (Line.echoText line), s)
    | .declaration => declarationNotes s raw.indent line

def Note.toWarning (n : Note) (number : Nat) (raw : Text) : Warning :=
  ⟨number, columnAt raw n.offset, n.remark⟩

/-- Lints lines from the given number on; `seen` holds the warnings so far, last line first. -/
def warningsFrom : Nat → Store → List (List Warning) → List Text → List Warning
  | _, _, seen, [] => seen.reverse.flatten
  | number, s, seen, raw :: rest =>
    let r := lineNotes s raw
    warningsFrom (number + 1) r.2 (r.1.map (·.toWarning number raw) :: seen) rest

end Lint

def lint (globals : Store) (source : Text) : List Warning :=
  Lint.warningsFrom 1 globals [] (Lines.divided source)

end LineScript
