import LineScript.FileTree
import LineScript.Settings.Decoding
import LineScript.Settings.Document
import LineScript.Store
import LineScript.Text.White

/-!
Settings of the command line: the colour mode, the extensions of scripts and the variables that
every script starts with.

What a document states is read by a decoder, which is the work of a YAML library and a parameter
here. `decode` stands in for one, so that the commands can be run: it knows block and flow
collections and plain and quoted scalars, and it refuses anchors, aliases, tags, block scalars and
directives. No theorem is about it. The theorems are about `validate` and what comes behind it, for
settings that any decoder may yield.
-/
namespace LineScript

structure SeedError where
  name : Text
  error : DatumError
  deriving DecidableEq

def SeedError.message (e : SeedError) : Text :=
  Text.cat ["global ", Text.quote e.name, ": ", e.error.message]

structure ExtensionError where
  path : Text
  allowed : List Text
  deriving DecidableEq

def ExtensionError.message (e : ExtensionError) : Text :=
  Text.cat ["script ", Text.quote (Path.base e.path), " must have extension ",
    Text.joinWith ", " e.allowed]

structure Settings where
  color : Text
  extensions : List Text
  globals : List (Text × Datum)
  deriving DecidableEq

namespace Settings

open Decoding

def defaultExtension : Text := ".esp"

def default : Settings := ⟨"auto", [defaultExtension], []⟩

/-- The texts of a sequence; an entry that stands for nothing is left out. -/
def texts : List Node → Decoding (List Text)
  | [] => return []
  | item :: rest => do
    if item.isNull then texts rest
    else match item.spelling? with
      | some t => return t :: (← texts rest)
      | none =>
        fault
        texts rest

/-- Of several entries with one name, only the last. -/
def lastOfEach : List (Text × Datum) → List (Text × Datum)
  | [] => []
  | e :: rest => if rest.any (·.1 = e.1) then lastOfEach rest else e :: lastOfEach rest

def dataReader : MappingReader (List (Text × Datum)) where
  asText := true
  datum := Node.datum
  visit
    | ds, .text name, value => do
      match ← value.datum with
      | some d => return (name, d) :: ds
      | none => return ds
    | ds, _, _ => return ds

/-- A value left out keeps the colour and empties the rest. -/
def withEntry (s : Settings) (name : Text) (value : Node) : Decoding Settings := do
  if name = "color" then
    match value with
    | .scalar t _ => return if value.isNull then s else { s with color := t }
    | _ =>
      fault
      return s
  else if name = "extensions" then
    match value with
    | .sequence items => return { s with extensions := ← texts items }
    | _ =>
      if !value.isNull then fault
      return { s with extensions := [] }
  else if name = "globals" then
    match value with
    | .mapping entries =>
      let ds := (← dataReader.read [] entries).getD []
      return { s with globals := lastOfEach ds.reverse }
    | _ =>
      if !value.isNull then fault
      return { s with globals := [] }
  else
    fault
    return s

def reader : MappingReader Settings where
  asText := true
  datum := Node.datum
  visit
    | s, .text name, value => s.withEntry name value
    | s, _, _ => return s

def ofNode (node : Node) : Decoding Settings := do
  match node with
  | .mapping entries => return (← reader.read default entries).getD default
  | _ =>
    if !node.isNull then fault
    return default

def normalizeExtension (t : Text) : Except SettingsError Text :=
  let ext := Text.trimWhite t
  if ext = [] then .error .emptyExtension
  else .ok (if ext.head? = some Text.dot then ext else Text.dot :: ext)

/-- Settings with the defaults filled in, if the colour mode and the extensions are in order. -/
def validate (s : Settings) : Except SettingsError Settings :=
  let color : Text := if s.color = [] then "auto" else s.color
  if ["auto", "always", "never"].any (Text.ofString · = color) then
    match s.extensions.mapM normalizeExtension with
    | .ok exts => .ok { s with color, extensions := if exts = [] then [defaultExtension] else exts }
    | .error e => .error e
  else .error (.badColor color)

/-- What reads the settings that a document states, before they are checked. -/
abbrev Decoder := Text → Except SettingsError Settings

def decode : Decoder := fun t =>
  match Document.read? t with
  | some node => (ofNode node).outcome
  | none => .error .refused

def parseWith (decode : Decoder) (t : Text) : Except SettingsError Settings :=
  (decode t).bind validate

def parse (t : Text) : Except SettingsError Settings := parseWith decode t

def hasExtension (s : Settings) (path : Text) : Bool := s.extensions.contains (Path.extension path)

def extensionError? (s : Settings) (path : Text) : Option ExtensionError :=
  if s.hasExtension path then none else some ⟨path, s.extensions⟩

def seedError? (globals : List (Text × Datum)) : Option SeedError :=
  (globals.mergeSort fun a b => a.1 ≤ b.1).findSome? fun g =>
    match g.2.toValue with
    | .ok _ => none
    | .error e => some ⟨g.1, e⟩

def seed (s : Settings) : Except SeedError Store :=
  match seedError? s.globals with
  | some e => .error e
  | none => .ok <| Store.ofList <| s.globals.filterMap fun g =>
      match g.2.toValue with
      | .ok v => some (g.1, v)
      | .error _ => none

end Settings

end LineScript
