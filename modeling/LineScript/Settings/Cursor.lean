import LineScript.Settings.Source
import LineScript.Settings.Token

/-!
Moving through a document. Blocks are loaded when characters of them are asked for, so that a
document is refused for bytes that cannot be decoded only if it is read that far. This is part of
the stand-in for a YAML library.
-/
namespace LineScript

structure SourcePlace where
  index : Nat := 0
  line : Nat := 0
  column : Nat := 0
  deriving DecidableEq

namespace SourcePlace

def forward (n : Nat) (p : SourcePlace) : SourcePlace :=
  { p with index := p.index + n, column := p.column + n }

def nextLine (n : Nat) (p : SourcePlace) : SourcePlace := ⟨p.index + n, p.line + 1, 0⟩

end SourcePlace

structure Cursor where
  loaded : List Char := []
  blocks : List (List Char)
  /-- Whether bytes that cannot be decoded come after the blocks. -/
  isBroken : Bool
  /-- Whether a byte order mark came next when a block was last asked for. -/
  isMarked : Bool := false
  place : SourcePlace := {}
  limit : Nat

namespace Cursor

def ofSource (source : Source) : Cursor :=
  { blocks := source.blocks, isBroken := source.isBroken, limit := 4 * source.size + 16 }

/-- At the end of the document, one more character stands for it. -/
def load? (n : Nat) (isBroken : Bool) :
    (loaded : List Char) → List (List Char) → Option (List Char × List (List Char))
  | loaded, [] => if isBroken then none else some (loaded ++ [Token.endChar], [])
  | loaded, block :: blocks =>
    let loaded := loaded ++ block
    if loaded.length < n then load? n isBroken loaded blocks else some (loaded, blocks)

def need? (n : Nat) (c : Cursor) : Option Cursor :=
  if (c.loaded.take n).length < n then
    (load? n c.isBroken c.loaded c.blocks).map fun (loaded, blocks) =>
      { c with loaded, blocks, isMarked := loaded.head? == some '\ufeff' }
  else some c

def peek (n : Nat) (c : Cursor) : Char := c.loaded.getD n Token.endChar

def next (c : Cursor) : Char := c.peek 0

def forward (n : Nat) (c : Cursor) : Cursor :=
  { c with loaded := c.loaded.drop n, place := c.place.forward n }

def breakLength (c : Cursor) : Nat :=
  if c.next = '\r' && c.peek 1 = '\n' then 2 else if Token.isBreak c.next then 1 else 0

def nextLine? (c : Cursor) : Option Cursor :=
  (c.need? 2).map fun c =>
    let n := c.breakLength
    { c with loaded := c.loaded.drop n, place := c.place.nextLine n }

def isAtLineEnd (c : Cursor) : Bool := Token.isBreak c.next || c.next = Token.endChar

def isAtMarker (c : Cursor) : Bool :=
  c.place.column == 0 && (Token.isMarker '-' c.loaded || Token.isMarker '.' c.loaded)

def commentReach : Nat := 512

/-- The distance of the next comment, looked for after `ahead` characters in `left` places, and on
further lines only if `overLines` says so. -/
def findComment? (overLines : Bool) : (left ahead : Nat) → Cursor → Option (Option Nat × Cursor)
  | 0, _, c => some (none, c)
  | left + 1, ahead, c => do
    let c ← c.need? (ahead + 1)
    let d := c.peek ahead
    if d = '#' then some (some ahead, c)
    else if Token.isBlank d || (overLines && (d = '\n' || d = '\r')) then
      findComment? overLines left (ahead + 1) c
    else if overLines && Token.isBreak d && 0 < left then (c.need? (ahead + 2)).map (none, ·)
    else some (none, c)

def passComment? (start : Nat) : (fuel : Nat) → Cursor → Option Cursor
  | 0, _ => none
  | fuel + 1, c => do
    let c ← c.need? 1
    if c.isAtLineEnd then
      if start ≤ c.place.index then some c else (← c.nextLine?).passComment? start fuel
    else (c.forward 1).passComment? start fuel

def passLineComment? (c : Cursor) : Option Cursor := do
  match ← c.findComment? false commentReach 0 with
  | (some n, c) => c.passComment? (c.place.index + n) c.limit
  | (none, c) => some c

def passComments? : (fuel : Nat) → Cursor → Option Cursor
  | 0, _ => none
  | fuel + 1, c => do
    match ← c.findComment? true commentReach 0 with
    | (some n, c) => (← c.passComment? (c.place.index + n) c.limit).passComments? fuel
    | (none, c) => some c

def passBlanks? (tabs : Bool) : (fuel : Nat) → Cursor → Option Cursor
  | 0, _ => none
  | fuel + 1, c => do
    let c ← c.need? 1
    if c.next = ' ' || (tabs && c.next = '\t') then (c.forward 1).passBlanks? tabs fuel else some c

/-- In a block, a key may start on a new line, and no tab may stand where a key may start, except
between two comments. -/
def pass? (flow : Bool) : (fuel : Nat) → (keyAllowed : Bool) → Cursor → Option (Bool × Cursor)
  | 0, _, _ => none
  | fuel + 1, keyAllowed, c => do
    let c ← c.need? 1
    let c := if c.place.column = 0 && c.isMarked then c.forward 1 else c
    let c ← c.passBlanks? (flow || !keyAllowed) c.limit
    let c ← if c.next = '#' then c.passComments? c.limit else some c
    if Token.isBreak c.next then (← c.nextLine?).pass? flow fuel (keyAllowed || !flow)
    else some (keyAllowed, c)

end Cursor

end LineScript
