import LineScript.Format
import LineScript.Lint
import LineScript.Options
import LineScript.Session
import LineScript.Settings

/-!
The commands: run a script, format scripts, analyse a script. A command works on a file tree and
yields what it prints, the tree it leaves and the error it ends in. Those that read settings do so
with a given decoder.
-/
namespace LineScript

inductive CommandError where
  | invalidCommand
  | options (e : OptionError)
  | pathRequired (what : Text)
  | readSettings (e : FileError)
  | accessSettings (path : Text) (e : FileError)
  | parseSettings (path : Text) (e : SettingsError)
  /-- The program ends at once. -/
  | breakdown (e : SettingsError)
  | badColorMode (mode : Text)
  | extension (e : ExtensionError)
  | seed (e : SeedError)
  | global (e : GlobalError)
  | readScript (e : FileError)
  | issuesFound (count : Nat)
  | openScript (e : FileError)
  | unreadableScript (e : FileError)
  | execution (e : Failure)
  | badTarget (target : Text) (e : FileError)
  | readSource (path : Text) (e : FileError)
  | needFormatting (count : Nat)
  deriving DecidableEq

def CommandError.message : CommandError → Text
  | .invalidCommand => "invalid command"
  | .options e => e.message
  | .pathRequired what => Text.cat ["esp ", what, " required"]
  | .readSettings e => Text.cat ["read config: ", e.message]
  | .accessSettings path e => Text.cat ["access config ", Text.quote path, ": ", e.message]
  | .parseSettings path e => Text.cat ["parse config ", path, ": ", e.message]
  | .breakdown e => e.message
  | .badColorMode mode =>
    Text.cat ["invalid color mode ", Text.quote mode, " (want auto, always or never)"]
  | .extension e => e.message
  | .seed e => e.message
  | .global e => e.message
  | .readScript e => Text.cat ["read script: ", e.message]
  | .issuesFound n => Text.cat ["analysis found ", Text.ofNat n, " issue(s)"]
  | .openScript e => Text.cat ["execution failed: open script: ", e.message]
  | .unreadableScript e => Text.cat ["execution failed: read script: ", e.message]
  | .execution e => Text.cat ["execution failed: ", e.message]
  | .badTarget target e => Text.cat ["stat ", target, ": ", e.message]
  | .readSource path e => Text.cat ["read ", path, ": ", e.message]
  | .needFormatting n => Text.cat ["esp fmt: ", Text.ofNat n, " file(s) need formatting"]

structure CommandResult where
  tree : FileTree
  stdout : Text := []
  stderr : Text := []
  error : Option CommandError := none
  deriving DecidableEq

namespace FileTree
variable (decode : Settings.Decoder)

def readSettings (tree : FileTree) (path : Text) : Except CommandError Settings :=
  match tree.locate path with
  | .error e => .error (.readSettings ⟨"open", path, e⟩)
  | .ok (_, .directory) => .error (.parseSettings path .refused)
  | .ok (_, .file content) =>
    (Settings.parseWith decode content).mapError fun e =>
      if e.isFatal then .breakdown e else .parseSettings path e

def settingsNames : List Text := ["esp.yaml", "esp.yml"]

def findSettings (tree : FileTree) (dir : Text) : List Text → Except CommandError Settings
  | [] => .ok Settings.default
  | name :: rest =>
    let path := Path.join dir name
    match tree.stat path with
    | .ok _ => tree.readSettings decode path
    | .error e =>
      if e.error = .notFound then tree.findSettings dir rest else .error (.accessSettings path e)

def settingsFor (tree : FileTree) (explicit script : Text) : Except CommandError Settings :=
  if explicit ≠ [] then tree.readSettings decode explicit
  else tree.findSettings decode (Path.directory script) settingsNames

def absolute (tree : FileTree) (p : Text) : Text := Path.absolute tree.workingDirectory p

end FileTree

namespace Command
variable (decode : Settings.Decoder)

/-- Output is not a terminal, so that only an explicit request counts. -/
inductive Coloring where
  | off
  | on
  deriving DecidableEq

def coloring? (mode : Text) : Option Coloring :=
  let lower := mode.map fun b => if 0x41 ≤ b && b ≤ 0x5a then b + 0x20 else b
  if lower = "always" then some .on
  else if lower = [] || lower = "auto" || lower = "never" then some .off
  else none

def Coloring.wrap (c : Coloring) (start stop t : Text) : Text :=
  match c with
  | .off => t
  | .on => Text.cat ["\x1b[", start, "m", t, "\x1b[", stop, "m"]

def diagnosticReport (c : Coloring) (d : Diagnostic) : Text :=
  Text.cat [c.wrap "33;1" "0" "warning: ", d.text, "\n",
    if d.frame = [] then [] else Text.cat [c.wrap "2" "22" d.frame, "\n"]]

def warningReport (path : Text) (w : Warning) : Text :=
  Text.cat [path, ":", Text.ofNat w.line, ":", Text.ofNat w.column, ": ", w.remark.message, "\n"]

def analyzeFile (tree : FileTree) (path : Text) (globals : Store) : CommandResult :=
  match tree.readFile path with
  | .error e => { tree, error := some (.readScript e) }
  | .ok source =>
    match lint globals source with
    | [] => { tree, stdout := "No issues found\n" }
    | ws =>
      { tree
        stdout := ws.flatMap (warningReport path)
        error := some (.issuesFound ws.length) }

def runFile (tree : FileTree) (path : Text) (globals : Store) (c : Coloring) : CommandResult :=
  match Engine.new globals 0 with
  | .error e => { tree, error := some (.global e) }
  | .ok engine =>
    match tree.locate path with
    | .error e => { tree, error := some (.openScript ⟨"open", path, e⟩) }
    | .ok (_, .directory) =>
      { tree, error := some (.unreadableScript ⟨"read", path, .isDirectory⟩) }
    | .ok (_, .file script) =>
      let (session, failure) := ({ engine } : Session).run {} false script
      { tree
        stdout := session.output
        stderr := session.diagnostics.reverse.flatMap (diagnosticReport c)
        error := failure.map .execution }

def runOptions : OptionSpec := ⟨["check"], ["config", "color"]⟩

structure RunPlan where
  path : Text
  globals : Store
  coloring : Coloring
  checkOnly : Bool

def planRun (tree : FileTree) (args : List Text) : Except CommandError RunPlan := do
  let o ← (Options.parse runOptions {} args).mapError .options
  let some script := o.arguments.head? | throw (.pathRequired "run: script path")
  let path := tree.absolute script
  let settings ← tree.settingsFor decode (o.value "config") path
  let mode := if o.value "color" = [] then settings.color else o.value "color"
  let some coloring := coloring? mode | throw (.badColorMode mode)
  if let some e := settings.extensionError? path then throw (.extension e)
  let globals ← settings.seed.mapError .seed
  return { path, globals, coloring, checkOnly := o.isSet "check" }

def run (tree : FileTree) (args : List Text) : CommandResult :=
  match planRun decode tree args with
  | .error e => { tree, error := some e }
  | .ok plan =>
    if plan.checkOnly then analyzeFile tree plan.path plan.globals
    else runFile tree plan.path plan.globals plan.coloring

def analyzeOptions : OptionSpec := ⟨[], ["config"]⟩

def planAnalyze (tree : FileTree) (args : List Text) : Except CommandError (Text × Store) := do
  let o ← (Options.parse analyzeOptions {} args).mapError .options
  let some script := o.arguments.head? | throw (.pathRequired "analyze: script path")
  let path := tree.absolute script
  let settings ← tree.settingsFor decode (o.value "config") path
  let globals ← settings.seed.mapError .seed
  return (path, globals)

def analyze (tree : FileTree) (args : List Text) : CommandResult :=
  match planAnalyze decode tree args with
  | .error e => { tree, error := some e }
  | .ok (path, globals) => analyzeFile tree path globals

/-- The places of the scripts that a target names: a file itself, or the files with a script's
extension below a directory. -/
def targetPlaces (tree : FileTree) (target : Text) : Except CommandError (List Place) :=
  match tree.locate target with
  | .error e => .error (.badTarget target ⟨"stat", target, e⟩)
  | .ok (_, .file _) => .ok [FileTree.placeOf (tree.absolute target)]
  | .ok (place, .directory) =>
    .ok ((tree.filesBelow place).filter fun p => Settings.default.hasExtension (FileTree.pathOf p))

def collect (tree : FileTree) (targets : List Text) : Except CommandError (List Place) := do
  let places ← targets.mapM (targetPlaces tree)
  return (places.flatten.mergeSort fun a b => FileTree.pathOf a ≤ FileTree.pathOf b).eraseDups

def formatOptions : OptionSpec := ⟨["w", "check"], []⟩

structure FormatProgress where
  tree : FileTree
  printed : List Text := []
  changed : Nat := 0

def formatOne (write check : Bool) (p : FormatProgress) (place : Place) :
    Except FileError FormatProgress := do
  let path := FileTree.pathOf place
  let source ← p.tree.readFile path
  let formatted := formatScript source
  if formatted ≠ source then
    let p := { p with changed := p.changed + 1 }
    return if write then { p with tree := p.tree.writeAt place formatted }
      else if check then { p with printed := Text.cat [path, "\n"] :: p.printed }
      else { p with printed := formatted :: p.printed }
  else if !write && !check then return { p with printed := formatted :: p.printed }
  else return p

def formatAll (write check : Bool) : FormatProgress → List Place →
    FormatProgress × Option CommandError
  | p, [] =>
    (p, if check && 0 < p.changed then some (.needFormatting p.changed) else none)
  | p, place :: rest =>
    match formatOne write check p place with
    | .ok p => formatAll write check p rest
    | .error e => (p, some (.readSource (FileTree.pathOf place) e))

def format (tree : FileTree) (args : List Text) : CommandResult :=
  match Options.parse formatOptions {} args with
  | .error e => { tree, error := some (.options e) }
  | .ok o =>
    if o.arguments = [] then { tree, error := some (.pathRequired "fmt: path") }
    else match collect tree o.arguments with
      | .error e => { tree, error := some e }
      | .ok places =>
        let (p, error) := formatAll (o.isSet "w") (o.isSet "check") { tree } places
        { tree := p.tree, stdout := p.printed.reverse.flatten, error }

def usage (program : Text) : Text :=
  Text.cat ["Usage: ", program, " <command> [flags] [args...]\n",
    "       ", program, " <script.esp>   (or any extension listed in esp.yaml)\n",
    "Commands:\n",
    "  run [-config file] [-color mode] [-check] <script>\n",
    "    execute a script\n",
    "  fmt [-w] [-check] <paths...>\n",
    "    normalize whitespace in scripts\n",
    "  analyze [-config file] <script>\n",
    "    report statements that are ignored or would fail\n",
    "  repl\n",
    "    start an interactive session\n"]

/-- Settings that cannot be read leave the default extension, unless they end the program. -/
def isScript (tree : FileTree) (arg : Text) : Except CommandError Bool :=
  if arg.head? = some Text.minus || Path.extension arg = [] then .ok false
  else
    let path := tree.absolute arg
    match tree.settingsFor decode [] path with
    | .ok settings => .ok (settings.hasExtension path)
    | .error (.breakdown e) => .error (.breakdown e)
    | .error _ => .ok (Path.extension arg = Settings.defaultExtension)

inductive Request where
  | run (args : List Text)
  | format (args : List Text)
  | analyze (args : List Text)
  | interactive
  | help
  | invalid
  | failed (e : CommandError)

def request (tree : FileTree) : List Text → Request
  | [] => .invalid
  | first :: rest =>
    if first = "run" then .run rest
    else if first = "fmt" then .format rest
    else if first = "analyze" then .analyze rest
    else if first = "repl" then .interactive
    else if first = "help" ∨ first = "-h" ∨ first = "--help" then .help
    else match isScript decode tree first with
      | .ok true => .run (first :: rest)
      | .ok false => .invalid
      | .error e => .failed e

/-- The absolute paths that a command can look at: those of its arguments and of what follows an
equals sign in them, and the settings beside each. -/
def lookups (workingDirectory : Text) (args : List Text) : List Text :=
  let named := (args.flatMap fun a => [a, (a.dropWhile (· != 0x3d)).drop 1]).filter (· ≠ [])
  (named.map (Path.absolute workingDirectory)).flatMap fun path =>
    path :: FileTree.settingsNames.map (Path.join (Path.directory path))

/-- An interactive session is not a command: it prints nothing here. -/
def executeWith (program : Text) (tree : FileTree) (args : List Text) : CommandResult :=
  match request decode tree args with
  | .run args => run decode tree args
  | .format args => format tree args
  | .analyze args => analyze decode tree args
  | .interactive => { tree }
  | .help => { tree, stderr := usage program }
  | .invalid => { tree, stderr := usage program, error := some .invalidCommand }
  | .failed e => { tree, error := some e }

def execute (program : Text) (tree : FileTree) (args : List Text) : CommandResult :=
  executeWith Settings.decode program tree args

end Command

end LineScript
