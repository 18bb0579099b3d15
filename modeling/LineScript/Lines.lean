import LineScript.Line

/-!
The lines of a script, as each reader of scripts takes them. All readers end a line at a line feed;
they differ in what they make of carriage returns and of text after the last line feed.
-/
namespace LineScript.Lines

/-- The lines that line feeds end, with what follows the last of them unless that is empty. -/
def terminated (t : Text) : List Text :=
  let pieces := t.splitOn Text.lf
  if pieces.getLast? = some [] then pieces.dropLast else pieces

structure Reading where
  lines : List Text
  overlong : Bool
  deriving DecidableEq

/-- A line as it is executed: up to two carriage returns at its end do not belong to it. -/
def strip (line : Text) : Text := (line.dropLastByte Text.cr).dropLastByte Text.cr

def read (limit : Nat) (t : Text) : Reading :=
  let ls := terminated t
  { lines := (ls.takeWhile (·.length < limit)).map strip
    overlong := ls.any (limit ≤ ·.length) }

def defaultLimit : Nat := 1048576

/-- Lines are never limited to less than this. -/
def leastLimit : Nat := 65536

def limitOf (requested : Int) : Nat :=
  max leastLimit (if requested ≤ 0 then defaultLimit else requested.toNat)

def joinCrLf (t : Text) : Text :=
  (t.foldr
    (fun b (rest : Text × Option UInt8) =>
      (if b = Text.cr ∧ rest.2 = some Text.lf then rest.1 else b :: rest.1, some b))
    ([], none)).1

def divided (t : Text) : List Text := (joinCrLf t).splitOn Text.lf

/-- The lines that line feeds, carriage returns, or both together divide. -/
def universal (t : Text) : List Text :=
  ((joinCrLf t).map fun b => if b = Text.cr then Text.lf else b).splitOn Text.lf

def statements (t : Text) : List Text := ((universal t).map Text.trim).filter (· ≠ [])

end LineScript.Lines
