import LineScript.Path

/-! Files and directories as a value, looked up by paths from a working directory. -/
namespace LineScript

inductive PathError where
  | notFound
  | notDirectory
  | isDirectory
  | tooLong
  /-- The path holds a zero byte, which no name can. -/
  | invalid
  deriving DecidableEq

def PathError.message : PathError → Text
  | .notFound => "no such file or directory"
  | .notDirectory => "not a directory"
  | .isDirectory => "is a directory"
  | .tooLong => "file name too long"
  | .invalid => "invalid argument"

structure FileError where
  operation : Text
  path : Text
  error : PathError
  deriving DecidableEq

def FileError.message (e : FileError) : Text :=
  Text.cat [e.operation, " ", e.path, ": ", e.error.message]

abbrev Place := List Text

inductive Entry where
  | file (content : Text)
  | directory
  deriving DecidableEq

structure FileTree where
  workingDirectory : Text
  /-- A directory that holds an entry need not be listed. -/
  entries : List (Place × Entry)
  deriving DecidableEq

namespace FileTree

def here (tree : FileTree) : Place := (tree.workingDirectory.splitOn Text.slash).filter (· ≠ [])

def placeOf (p : Text) : Place := (p.splitOn Text.slash).filter (· ≠ [])

def entryAt? (tree : FileTree) (place : Place) : Option Entry :=
  (tree.entries.lookup place).or <|
    if place.isPrefixOf tree.here || tree.entries.any (place.isPrefixOf ·.1) then some .directory
    else none

def longestName : Nat := 255

def longestPath : Nat := 4095

def follow (tree : FileTree) : Place → List Text → Except PathError (Place × Entry)
  | place, [] =>
    match tree.entryAt? place with
    | some entry => .ok (place, entry)
    | none => .error .notFound
  | place, element :: rest =>
    match tree.entryAt? place with
    | none => .error .notFound
    | some (.file _) => .error .notDirectory
    | some .directory =>
      if element = [] ∨ element = "." then follow tree place rest
      else if element = ".." then follow tree place.dropLast rest
      else if longestName < element.length then .error .tooLong
      else follow tree (place ++ [element]) rest

def locate (tree : FileTree) (p : Text) : Except PathError (Place × Entry) :=
  if p.contains 0 then .error .invalid
  else if p = [] then .error .notFound
  else if longestPath < p.length then .error .tooLong
  else tree.follow (if Path.isAbsolute p then [] else tree.here) (p.splitOn Text.slash)

def stat (tree : FileTree) (p : Text) : Except FileError Entry :=
  match tree.locate p with
  | .ok (_, entry) => .ok entry
  | .error e => .error ⟨"stat", p, e⟩

def readFile (tree : FileTree) (p : Text) : Except FileError Text :=
  match tree.locate p with
  | .ok (_, .file content) => .ok content
  | .ok (_, .directory) => .error ⟨"read", p, .isDirectory⟩
  | .error e => .error ⟨"open", p, e⟩

def filesBelow (tree : FileTree) (place : Place) : List Place :=
  tree.entries.filterMap fun e =>
    match e.2 with
    | .file _ => if place.isPrefixOf e.1 then some e.1 else none
    | .directory => none

def writeAt (tree : FileTree) (place : Place) (content : Text) : FileTree :=
  { tree with
    entries := tree.entries.map fun e => if e.1 = place then (place, .file content) else e }

def pathOf (place : Place) : Text := Text.slash :: Text.joinWith [Text.slash] place

/-- The tree in which the working directory holds the given files; a path that ends in a slash
stands for a directory. -/
def ofFiles (workingDirectory : Text) (files : List (Text × Text)) : FileTree where
  workingDirectory
  entries := files.map fun f =>
    (placeOf (Path.join workingDirectory f.1),
      if f.1.getLast? = some Text.slash then .directory else .file f.2)

end FileTree

end LineScript
