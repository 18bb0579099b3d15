import LineScript.Text.Symbol

/-!
How many columns of a terminal a line takes up. Control codes, escape sequences and control strings
take up none, so a line is read the way a terminal reads it. This stands in for the measure of a
terminal library and gives one column to every symbol, wide and combining characters included. It is
only used to draw the console, and no theorem depends on what it yields.
-/
namespace LineScript

inductive Reading where
  | text
  | escape
  | escapeIntermediate
  | sequence
  | sequenceParameter
  | sequenceIntermediate
  /-- A control string that the terminal does not act on. -/
  | message
  | systemCommand
  | device
  | deviceParameter
  | deviceIntermediate
  | deviceString
  deriving DecidableEq

namespace Reading

def isControl (b : UInt8) : Bool := b < 0x20 || b == 0x7f

def takesAll (r : Reading) : Bool := r == .systemCommand || r == .deviceString

def ofHighControl (b : UInt8) : Reading :=
  if b == 0x90 then .device
  else if b == 0x98 || b == 0x9e || b == 0x9f then .message
  else if b == 0x9b then .sequence
  else if b == 0x9d then .systemCommand
  else .text

def ofFinal (b : UInt8) : Reading :=
  if b == 0x50 then .device
  else if b == 0x58 || b == 0x5e || b == 0x5f then .message
  else if b == 0x5b then .sequence
  else if b == 0x5d then .systemCommand
  else .text

def select (b : UInt8) (onControl onIntermediate onParameter onFinal : Reading) : Reading :=
  if isControl b then onControl
  else if b < 0x30 then onIntermediate
  else if b < 0x40 then onParameter
  else onFinal

/-- What the terminal reads after one more ASCII byte, which is neither cancel, substitute nor
escape. -/
def nextAscii (r : Reading) (b : UInt8) : Reading :=
  match r with
  | .text => .text
  | .escape => select b .escape .escapeIntermediate .text (ofFinal b)
  | .escapeIntermediate => select b .escapeIntermediate .escapeIntermediate .text .text
  | .sequence => select b .sequence .sequenceIntermediate .sequenceParameter .text
  | .sequenceParameter =>
    select b .sequenceParameter .sequenceIntermediate .sequenceParameter .text
  | .sequenceIntermediate => select b .sequenceIntermediate .sequenceIntermediate .text .text
  | .message => .message
  | .systemCommand => if b == 0x07 then .text else .systemCommand
  | .device =>
    if 0x08 ≤ b && b ≤ 0x0d then .deviceString
    else select b .device .deviceIntermediate .deviceParameter .deviceString
  | .deviceParameter =>
    select b .deviceParameter .deviceIntermediate .deviceParameter .deviceString
  | .deviceIntermediate =>
    select b .deviceIntermediate .deviceIntermediate .deviceString .deviceString
  | .deviceString => .deviceString

def next (r : Reading) (b : UInt8) : Reading :=
  if b == 0x18 || b == 0x1a then .text
  else if b == 0x1b then if r == .device then .deviceString else .escape
  else if b < 0x80 then nextAscii r b
  else if r.takesAll && b != 0x9c then r
  else ofHighControl b

end Reading

namespace Text

/-- Counts columns after `skip` further bytes of the symbol before; `count` is their number so
far. -/
def columnsFrom : Nat → Nat → Reading → Text → Nat
  | _, count, _, [] => count
  | skip + 1, count, r, _ :: rest => columnsFrom skip count r rest
  | 0, count, r, b :: rest =>
    if 0xc2 ≤ b && b ≤ 0xf4 && !r.takesAll then
      columnsFrom ((Symbol.front b rest).encode.length - 1) (count + 1) .text rest
    else
      let isDrawn := r == .text && 0x20 ≤ b && b ≤ 0x7e
      columnsFrom 0 (if isDrawn then count + 1 else count) (r.next b) rest

def columns (line : Text) : Nat := columnsFrom 0 0 .text line

end Text

end LineScript
