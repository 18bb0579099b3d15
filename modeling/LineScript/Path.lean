import LineScript.Text

/-! Paths as texts: slashes divide the elements, and a leading slash makes a path absolute. -/
namespace LineScript.Path

def isAbsolute (p : Text) : Bool := p.head? == some Text.slash

/-- `stack` holds the elements so far, last first; a double dot takes back the one before it. -/
def push (rooted : Bool) (stack : List Text) (element : Text) : List Text :=
  if element = [] ∨ element = "." then stack
  else if element = ".." then
    match stack with
    | [] => if rooted then [] else [element]
    | top :: rest => if top = ".." then element :: stack else rest
  else element :: stack

/-- The shortest path that names the same place by its spelling alone. -/
def clean (p : Text) : Text :=
  let rooted := isAbsolute p
  let elements := ((p.splitOn Text.slash).foldl (push rooted) []).reverse
  let joined := Text.joinWith [Text.slash] elements
  if rooted then Text.slash :: joined else if joined = [] then "." else joined

def join (dir name : Text) : Text := clean (Text.cat [dir, "/", name])

def absolute (workingDirectory p : Text) : Text :=
  if isAbsolute p then clean p else join workingDirectory p

def lastElement (p : Text) : Text := (p.reverse.takeWhile (· != Text.slash)).reverse

def directory (p : Text) : Text := clean (p.take (p.length - (lastElement p).length))

def base (p : Text) : Text :=
  if p = [] then "."
  else
    let trimmed := Text.trimRightBy (· == Text.slash) p
    if trimmed = [] then "/" else lastElement trimmed

/-- The last element from its last dot on, or nothing if it has none. -/
def extension (p : Text) : Text :=
  let last := lastElement p
  let tail := (last.reverse.takeWhile (· != Text.dot)).reverse
  if tail.length = last.length then [] else Text.dot :: tail

end LineScript.Path
