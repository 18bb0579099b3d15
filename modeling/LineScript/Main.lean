import LineScript.Command
import LineScript.Console.View

/-!
The program. It takes the files that the arguments name into a tree, carries out the command on it
and puts the outcome into effect. An interactive session is a dialogue of lines.
-/
namespace LineScript.Program

def string (t : Text) : String := String.ofList t.chars

def print (stream : IO.FS.Stream) (t : Text) : IO Unit := do
  stream.write ⟨t.toArray⟩
  stream.flush

/-- A link to a directory is not entered. -/
partial def entriesAt (deep : Bool) (path : Text) : IO (List (Place × Entry)) := do
  let file := (← IO.currentDir) / string path
  let place := FileTree.placeOf path
  if !(← file.pathExists) then return []
  else if !(← file.isDir) then return [(place, .file (← IO.FS.readBinFile file).toList)]
  else if !deep || (← file.symlinkMetadata).type == .symlink then return [(place, .directory)]
  else
    let below ← (← file.readDir).toList.mapM fun entry =>
      entriesAt deep (Path.join path (Text.ofString entry.fileName))
    return (place, .directory) :: below.flatten

def readTree (args : List Text) : IO FileTree := do
  let workingDirectory := Text.ofString (← IO.currentDir).toString
  let deep := args.head? = some "fmt"
  let entries ← (Command.lookups workingDirectory args).mapM (entriesAt deep)
  return { workingDirectory, entries := entries.flatten.eraseDups }

def writeChanges (old new : FileTree) : IO Unit := do
  for (place, entry) in new.entries do
    if let .file content := entry then
      if old.entries.lookup place ≠ some entry then
        IO.FS.writeBinFile (string (FileTree.pathOf place)) ⟨content.toArray⟩

def showHistory (old new : Console) : IO Unit := do
  for entry in new.history.drop old.history.length do
    let mark : Text := if entry.isError then "✗ " else "→ "
    print (← IO.getStdout) (Text.cat [mark, entry.output, "\n"])

partial def dialogue (c : Console) : IO Unit := do
  print (← IO.getStdout) InputField.prompt
  let line ← (← IO.getStdin).getLine
  if line.isEmpty then return
  let input := (Text.ofString line).dropLastByte Text.lf
  let files ← readTree (Text.words input)
  let (entered, effect) :=
    { c with field := (c.field.setText input).moveToEnd }.update files (.key .enter)
  let next := match effect with
    | .runPending => entered.drain.1
    | _ => entered
  showHistory c next
  if next.quitting then return else dialogue next

def settle (tree : FileTree) (result : CommandResult) : IO UInt32 := do
  print (← IO.getStdout) result.stdout
  print (← IO.getStderr) result.stderr
  writeChanges tree result.tree
  match result.error with
  | none => return 0
  | some (.breakdown e) =>
    print (← IO.getStderr) (Text.cat ["panic: ", e.message, "\n"])
    return 2
  | some e =>
    print (← IO.getStderr) (Text.cat ["error: ", e.message, "\n"])
    return 1

def run (args : List Text) : IO UInt32 := do
  let program := (← IO.appPath).fileName.getD "esp"
  let tree ← readTree args
  match Command.request Settings.decode tree args with
  | .interactive =>
    dialogue Console.start
    return 0
  | _ => settle tree (Command.execute program tree args)

end LineScript.Program

def main (args : List String) : IO UInt32 :=
  LineScript.Program.run (args.map LineScript.Text.ofString)
