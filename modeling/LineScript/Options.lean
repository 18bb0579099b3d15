import LineScript.Text.Quoted

/-!
Command-line options: one or two dashes and a name, with a value after an equals sign or as the
next argument. They end at the first other argument or at a double dash.
-/
namespace LineScript

inductive OptionError where
  | badSyntax (argument : Text)
  | undefined (name : Text)
  | helpRequested
  | needsArgument (name : Text)
  | badBoolean (value name : Text)
  deriving DecidableEq

def OptionError.message : OptionError → Text
  | .badSyntax a => Text.cat ["bad flag syntax: ", a]
  | .undefined n => Text.cat ["flag provided but not defined: -", n]
  | .helpRequested => "flag: help requested"
  | .needsArgument n => Text.cat ["flag needs an argument: -", n]
  | .badBoolean v n =>
    Text.cat ["invalid boolean value ", Text.quote v, " for -", n, ": parse error"]

structure OptionSpec where
  switches : List Text
  valued : List Text

structure Options where
  /-- Switches with their setting, last first. -/
  switches : List (Text × Bool) := []
  values : List (Text × Text) := []
  arguments : List Text := []
  deriving DecidableEq

namespace Options

def isSet (o : Options) (name : Text) : Bool := (o.switches.lookup name).getD false

def value (o : Options) (name : Text) : Text := (o.values.lookup name).getD []

def boolean? (t : Text) : Option Bool :=
  if ["1", "t", "T", "true", "TRUE", "True"].any (Text.ofString · = t) then some true
  else if ["0", "f", "F", "false", "FALSE", "False"].any (Text.ofString · = t) then some false
  else none

structure Mark where
  name : Text
  attached : Option Text

inductive Reading where
  | plain
  | terminator
  | malformed
  | option (mark : Mark)

/-- Divides a name from a value attached to it; an equals sign cannot come first. -/
def divide (t : Text) : Mark :=
  let name := t.take 1 ++ (t.drop 1).takeWhile (· != 0x3d)
  ⟨name, if name.length < t.length then some (t.drop (name.length + 1)) else none⟩

def readArgument (argument : Text) : Reading :=
  match argument with
  | d :: c :: rest =>
    if d == Text.minus then
      if c == Text.minus && rest = [] then .terminator
      else
        let name := if c == Text.minus then rest else c :: rest
        match name with
        | [] => .malformed
        | b :: _ => if b == Text.minus || b == 0x3d then .malformed else .option (divide name)
    else .plain
  | _ => .plain

def parse (spec : OptionSpec) : Options → List Text → Except OptionError Options
  | o, [] => .ok o
  | o, argument :: rest =>
    match readArgument argument with
    | .plain => .ok { o with arguments := argument :: rest }
    | .terminator => .ok { o with arguments := rest }
    | .malformed => .error (.badSyntax argument)
    | .option mark =>
      if spec.switches.contains mark.name then
        match mark.attached with
        | none => parse spec { o with switches := (mark.name, true) :: o.switches } rest
        | some t =>
          match boolean? t with
          | some b => parse spec { o with switches := (mark.name, b) :: o.switches } rest
          | none => .error (.badBoolean t mark.name)
      else if spec.valued.contains mark.name then
        match mark.attached with
        | some t => parse spec { o with values := (mark.name, t) :: o.values } rest
        | none =>
          match rest with
          | t :: rest' => parse spec { o with values := (mark.name, t) :: o.values } rest'
          | [] => .error (.needsArgument mark.name)
      else if mark.name = "help" ∨ mark.name = "h" then .error .helpRequested
      else .error (.undefined mark.name)

end Options

end LineScript
