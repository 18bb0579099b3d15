import LineScript.Settings.Cursor

/-!
Scalars as they are written. A scalar may take up several lines: one line break between two words
reads as a blank, and of several all but the first are kept. This is part of the stand-in for a YAML
library, and knows no block scalars.
-/
namespace LineScript.Token

/-- White space inside a scalar, of which it is not known yet whether more text follows. -/
inductive Gap where
  | empty
  | blanks (seen : List Char)
  /-- Line breaks: the first, unless it is escaped, and the further ones, last first. -/
  | breaks (first : Option Char) (more : List Char)

namespace Gap

/-- Only a line or paragraph separator is kept as the first break. -/
def folded : Gap → List Char
  | .empty => []
  | .blanks seen => seen
  | .breaks none more => more
  | .breaks (some c) more => if c = '\n' then if more = [] then [' '] else more else more ++ [c]

def isBreak : Gap → Bool
  | .breaks _ _ => true
  | _ => false

def isEmpty : Gap → Bool
  | .empty => true
  | _ => false

def blank (c : Char) : Gap → Gap
  | .empty => .blanks [c]
  | .blanks seen => .blanks (c :: seen)
  | .breaks first more => .breaks first more

def lineBreak (c : Char) (gap : Gap) : Gap :=
  let c := if c = '\u2028' || c = '\u2029' then c else '\n'
  match gap with
  | .breaks first more => .breaks first (c :: more)
  | _ => .breaks (some c) []

/-- A tab may not indent a line that the margin asks to be indented. -/
def read? (margin : Nat) : (fuel : Nat) → Gap → Cursor → Option (Gap × Cursor)
  | 0, _, _ => none
  | fuel + 1, gap, c => do
    let c ← c.need? 1
    let d := c.next
    if Token.isBreak d then (gap.lineBreak d).read? margin fuel (← c.nextLine?)
    else if !Token.isBlank d then some (gap, c)
    else if d = '\t' && gap.isBreak && c.place.column < margin then none
    else (gap.blank d).read? margin fuel (c.forward 1)

end Gap

structure Scanned where
  token : Token
  cursor : Cursor
  broke : Bool

def scalarText (seen : List Char) : Text := Text.ofChars seen.reverse

/-- Where a plain scalar stands: the least column of its further lines, and whether that is in a
flow collection, which ignores columns. -/
structure PlainContext where
  flow : Bool
  margin : Nat

def endsPlainWord (flow : Bool) (rest : List Char) : Bool :=
  match rest with
  | [] => true
  | c :: after => endsWord rest || (c = ':' && endsWord after) || (flow && isFlowMark c)

def plainWord? (flow : Bool) :
    (fuel : Nat) → (seen : List Char) → Cursor → Option (List Char × Cursor)
  | 0, _, _ => none
  | fuel + 1, seen, c =>
    if endsPlainWord flow c.loaded then some (seen, c)
    else ((c.forward 1).need? 2).bind (plainWord? flow fuel (c.next :: seen))

def plainScalar? (context : PlainContext) :
    (fuel : Nat) → (seen : List Char) → Gap → Cursor → Option Scanned
  | 0, _, _, _ => none
  | fuel + 1, seen, gap, c => do
    let c ← c.need? 4
    if c.isAtMarker || c.next = '#' || endsPlainWord context.flow c.loaded then
      some (finish seen gap c)
    else
      let (seen, c) ← plainWord? context.flow c.limit (gap.folded ++ seen) c
      let (gap, c) ← Gap.empty.read? context.margin c.limit c
      if gap.isEmpty || (!context.flow && c.place.column < context.margin) then
        some (finish seen gap c)
      else plainScalar? context fuel seen gap c
where
  finish (seen : List Char) (gap : Gap) (c : Cursor) : Scanned :=
    ⟨.scalar (scalarText seen) true, c, gap.isBreak⟩

/-- A word of a quoted scalar: the text so far, last character first, the gap that has been read
after it, and the place after that. -/
abbrev QuotedWord := List Char × Gap × Cursor

def singleQuotedWord? : (fuel : Nat) → (seen : List Char) → Cursor → Option QuotedWord
  | 0, _, _ => none
  | fuel + 1, seen, c =>
    let d := c.next
    if endsWord c.loaded then some (seen, .empty, c)
    else if d = '\'' && c.peek 1 ≠ '\'' then some (seen, .empty, c)
    else
      ((c.forward (if d = '\'' then 2 else 1)).need? 2).bind (singleQuotedWord? fuel (d :: seen))

def escape? (c : Char) : Option Char :=
  match c with
  | '0' => some '\x00'
  | 'a' => some '\x07'
  | 'b' => some '\x08'
  | 't' | '\t' => some '\t'
  | 'n' => some '\n'
  | 'v' => some '\x0b'
  | 'f' => some '\x0c'
  | 'r' => some '\r'
  | 'e' => some '\x1b'
  | ' ' => some ' '
  | '"' => some '"'
  | '\'' => some '\''
  | '\\' => some '\\'
  | 'N' => some '\u0085'
  | '_' => some '\u00a0'
  | 'L' => some '\u2028'
  | 'P' => some '\u2029'
  | _ => none

def escapeDigits? (c : Char) : Option Nat :=
  match c with
  | 'x' => some 2
  | 'u' => some 4
  | 'U' => some 8
  | _ => none

def hexDigit? (c : Char) : Option Nat :=
  if '0' ≤ c ∧ c ≤ '9' then some (c.toNat - 0x30)
  else if 'a' ≤ c ∧ c ≤ 'f' then some (c.toNat - 0x61 + 10)
  else if 'A' ≤ c ∧ c ≤ 'F' then some (c.toNat - 0x41 + 10)
  else none

def numericEscape? (digits : Nat) (c : Cursor) : Option (Char × Cursor) := do
  let c ← c.need? digits
  let ds ← (c.loaded.take digits).mapM hexDigit?
  let n := ds.foldl (fun n d => 16 * n + d) 0
  if n.isValidChar then some (Char.ofNat n, c.forward digits) else none

def readEscape? (c : Cursor) : Option (Char × Cursor) :=
  let letter := c.peek 1
  match escapeDigits? letter with
  | some digits => numericEscape? digits (c.forward 2)
  | none => (escape? letter).map (·, c.forward 2)

def doubleQuotedWord? : (fuel : Nat) → (seen : List Char) → Cursor → Option QuotedWord
  | 0, _, _ => none
  | fuel + 1, seen, c => do
    let d := c.next
    if endsWord c.loaded || d = '"' then some (seen, .empty, c)
    else if d ≠ '\\' then doubleQuotedWord? fuel (d :: seen) (← (c.forward 1).need? 2)
    else if isBreak (c.peek 1) then
      some (seen, .breaks none [], ← ((← c.need? 3).forward 1).nextLine?)
    else
      let (e, c) ← readEscape? c
      doubleQuotedWord? fuel (e :: seen) (← c.need? 2)

inductive Quote where
  | single
  | double

namespace Quote

def char : Quote → Char
  | .single => '\''
  | .double => '"'

def word? : Quote → (fuel : Nat) → (seen : List Char) → Cursor → Option QuotedWord
  | .single => singleQuotedWord?
  | .double => doubleQuotedWord?

end Quote

def quotedScalar? (quote : Quote) : (fuel : Nat) → (seen : List Char) → Cursor → Option Scanned
  | 0, _, _ => none
  | fuel + 1, seen, c => do
    let c ← c.need? 4
    if c.isAtMarker || c.next = endChar then none
    else
      let (seen, gap, c) ← quote.word? c.limit seen c
      let c ← c.need? 1
      if c.next = quote.char then some ⟨.scalar (scalarText seen) false, c.forward 1, false⟩
      else
        let (gap, c) ← gap.read? 0 c.limit c
        quotedScalar? quote fuel (gap.folded ++ seen) c

end LineScript.Token
