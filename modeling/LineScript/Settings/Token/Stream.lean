import LineScript.Settings.Token.Scalar

/-!
The tokens of a document in their order. Only the colon after it tells that a node is a key, and the
token for the key comes before that node; so tokens are held back as long as a key may still turn
up, which is to the end of its line and no farther than 1024 characters. This is part of the
stand-in for a YAML library.
-/
namespace LineScript

/-- The last place where a key may have started, at one level of flow collections. -/
structure KeySlot where
  isPossible : Bool := false
  /-- Whether nothing but a key may stand there, in the column of a block. -/
  isRequired : Bool := false
  number : Nat := 0
  place : SourcePlace := {}

namespace KeySlot

def reach : Nat := 1024

def seenFrom? (k : KeySlot) (p : SourcePlace) : Option KeySlot :=
  if !k.isPossible || (k.place.line == p.line && p.index ≤ k.place.index + reach) then some k
  else if k.isRequired then none
  else some { k with isPossible := false }

end KeySlot

structure TokenStream where
  cursor : Cursor
  queue : List Token := []
  taken : Nat := 0
  slot : KeySlot := {}
  outer : Array KeySlot := #[]
  /-- Numbers of the tokens with which a key may start, and the levels of their slots. -/
  keyStarts : List (Nat × Nat) := []
  /-- For each open block, the innermost first, the least column of what is inside of it. -/
  margins : List Nat := []
  keyAllowed : Bool := true

namespace TokenStream

def maxDepth : Nat := 10000

def lookahead : Nat := 3

def ofSource (source : Source) : TokenStream := { cursor := .ofSource source }

def place (s : TokenStream) : SourcePlace := s.cursor.place

def inFlow (s : TokenStream) : Bool := 0 < s.outer.size

def margin (s : TokenStream) : Nat := s.margins.headD 0

def nextNumber (s : TokenStream) : Nat := s.taken + s.queue.length

def push (t : Token) (s : TokenStream) : TokenStream := { s with queue := s.queue ++ [t] }

def insert (number : Nat) (t : Token) (s : TokenStream) : TokenStream :=
  if number < s.taken then s.push t
  else { s with queue := s.queue.insertIdx (number - s.taken) t }

def pushMark (n : Nat) (t : Token) (s : TokenStream) : TokenStream :=
  { s with cursor := s.cursor.forward n }.push t

def passComment? (s : TokenStream) : Option TokenStream :=
  s.cursor.passLineComment?.map ({ s with cursor := · })

def dropKeyStart (number : Nat) (s : TokenStream) : TokenStream :=
  { s with keyStarts := s.keyStarts.filter (·.1 != number) }

def forgetKey? (s : TokenStream) : Option TokenStream :=
  if !s.slot.isPossible then some s
  else if s.slot.isRequired then none
  else some ({ s with slot := { s.slot with isPossible := false } }.dropKeyStart s.slot.number)

def noteKey? (s : TokenStream) : Option TokenStream :=
  if s.keyAllowed then
    s.forgetKey?.map fun s =>
      { s with
        slot := ⟨true, !s.inFlow && s.margin == s.place.column + 1, s.nextNumber, s.place⟩
        keyStarts := (s.nextNumber, s.outer.size) :: s.keyStarts }
  else some s

def openBlock? (column number : Nat) (t : Token) (s : TokenStream) : Option TokenStream :=
  if s.inFlow || column < s.margin then some s
  else if maxDepth ≤ s.margins.length then none
  else some ({ s with margins := (column + 1) :: s.margins }.insert number t)

def closeBlocks (margin : Nat) (s : TokenStream) : TokenStream :=
  if s.inFlow then s
  else
    let closed := (s.margins.takeWhile (margin < ·)).length
    { s with
      margins := s.margins.drop closed
      queue := s.queue ++ List.replicate closed .blockEnd }

def readEnd? (s : TokenStream) : Option TokenStream := do
  let place := s.place
  let line := if place.column = 0 then place.line else place.line + 1
  let cursor := { s.cursor with place := { place with line, column := 0 } }
  let s ← ({ s with cursor }.closeBlocks 0).forgetKey?
  some ({ s with keyAllowed := false }.push .streamEnd)

def readMarker? (t : Token) (s : TokenStream) : Option TokenStream := do
  let s ← (s.closeBlocks 0).forgetKey?
  some ({ s with keyAllowed := false }.pushMark 3 t)

def readFlowStart? (t : Token) (s : TokenStream) : Option TokenStream := do
  let s ← s.noteKey?
  if maxDepth ≤ s.outer.size then none
  else
    passComment? <| pushMark 1 t
      { s with
        outer := s.outer.push s.slot
        slot := { number := s.nextNumber, place := s.place }
        keyAllowed := true }

def readFlowEnd? (t : Token) (s : TokenStream) : Option TokenStream := do
  let s ← s.forgetKey?
  let s := match s.outer.back? with
    | some slot => { s.dropKeyStart s.slot.number with slot, outer := s.outer.pop }
    | none => s
  ({ s with keyAllowed := false }.pushMark 1 t).passComment?

def readComma? (s : TokenStream) : Option TokenStream := do
  let s ← s.forgetKey?
  ({ s with keyAllowed := true }.pushMark 1 .comma).passComment?

/-- A mark that stands where a key may start, and opens a block if none is open there. -/
def readBlockMark? (block t : Token) (s : TokenStream) : Option TokenStream := do
  if !s.inFlow && !s.keyAllowed then none
  else (← s.openBlock? s.place.column s.nextNumber block).forgetKey?.map (pushMark 1 t)

def readItem? (s : TokenStream) : Option TokenStream :=
  (s.readBlockMark? .blockSequence .item).map ({ · with keyAllowed := true })

def readKey? (s : TokenStream) : Option TokenStream := do
  let s ← s.readBlockMark? .blockMapping .key
  { s with keyAllowed := !s.inFlow }.passComment?

def readValue? (s : TokenStream) : Option TokenStream := do
  let slot ← s.slot.seenFrom? s.place
  let s := { s with slot }
  -- if a key may have started before the colon, it did
  let s ←
    if slot.isPossible then
      let s ← (s.insert slot.number .key).openBlock? slot.place.column slot.number .blockMapping
      some <| dropKeyStart slot.number
        { s with slot := { slot with isPossible := false }, keyAllowed := false }
    else if s.inFlow then some { s with keyAllowed := false }
    else if s.keyAllowed then s.openBlock? s.place.column s.nextNumber .blockMapping
    else none
  (s.pushMark 1 .value).passComment?

def readScalar? (read : TokenStream → Option Token.Scanned) (s : TokenStream) :
    Option TokenStream := do
  let s ← s.noteKey?
  let scalar ← read s
  -- after a scalar, a key may start only on a new line
  let s := push scalar.token { s with cursor := scalar.cursor, keyAllowed := scalar.broke }
  if scalar.broke then some s else s.passComment?

def readQuoted? (quote : Token.Quote) (s : TokenStream) : Option TokenStream :=
  s.readScalar? fun s => Token.quotedScalar? quote s.cursor.limit [] (s.cursor.forward 1)

def readPlain? (s : TokenStream) : Option TokenStream :=
  s.readScalar? fun s =>
    Token.plainScalar? ⟨s.inFlow, s.margin⟩ s.cursor.limit [] .empty s.cursor

def startsPlain (flow : Bool) (c : Char) (rest : List Char) : Bool :=
  !Token.isIndicator c && !Token.isBlank c || c == '-' ||
    (!flow && (c == '?' || c == ':') && !Token.endsWord rest)

def readMark? (c : Char) (rest : List Char) (s : TokenStream) : Option TokenStream :=
  let standsAlone := s.inFlow || Token.endsWord rest
  if c = '[' then s.readFlowStart? .flowSequence
  else if c = '\x7b' then s.readFlowStart? .flowMapping
  else if c = ']' then s.readFlowEnd? .flowSequenceEnd
  else if c = '\x7d' then s.readFlowEnd? .flowMappingEnd
  else if c = ',' then s.readComma?
  else if c = '-' && Token.endsWord rest then s.readItem?
  else if c = '?' && standsAlone then s.readKey?
  else if c = ':' && standsAlone then s.readValue?
  else if c = '\'' then s.readQuoted? .single
  else if c = '"' then s.readQuoted? .double
  else if startsPlain s.inFlow c rest then s.readPlain?
  -- anchors, aliases, tags, directives and block scalars are refused
  else none

def pass? (s : TokenStream) : Option TokenStream := do
  let c ← s.cursor.need? 1
  let (keyAllowed, cursor) ← c.pass? s.inFlow c.limit s.keyAllowed
  some ({ s with keyAllowed, cursor }.closeBlocks (cursor.place.column + 1))

def read? (s : TokenStream) : Option TokenStream := do
  let s ← s.pass?
  let c ← s.cursor.need? 4
  let s := { s with cursor := c }
  if c.next = Token.endChar then s.readEnd?
  else if c.isAtMarker then
    s.readMarker? (if c.next = '-' then .documentStart else .documentEnd)
  else s.readMark? c.next (c.loaded.drop 1)

/-- Whether a key may start with the next token, and the stream with the slot of that key seen from
here. -/
def keyPending? (s : TokenStream) : Option (Bool × TokenStream) :=
  match s.keyStarts.lookup s.taken with
  | none => some (false, s)
  | some level =>
    match s.outer[level]? with
    | some slot => (slot.seenFrom? s.place).map fun slot =>
        (slot.isPossible, { s with outer := s.outer.setIfInBounds level slot })
    | none => (s.slot.seenFrom? s.place).map fun slot => (slot.isPossible, { s with slot })

def fill? : Nat → TokenStream → Option TokenStream
  | 0, _ => none
  | fuel + 1, s => do
    if s.queue.length < lookahead then (← s.read?).fill? fuel
    else
      let (isPending, s) ← s.keyPending?
      if isPending then (← s.read?).fill? fuel else some s

def peek? (s : TokenStream) : Option (Token × TokenStream) := do
  let s ← s.fill? s.cursor.limit
  s.queue.head?.map (·, s)

def tail (s : TokenStream) : TokenStream :=
  { s with
    queue := s.queue.tail
    taken := s.taken + 1
    keyStarts := s.keyStarts.filter (s.taken < ·.1) }

end TokenStream

end LineScript
