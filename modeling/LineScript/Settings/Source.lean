import LineScript.Text.Symbol

/-!
The characters of a settings document. A byte order mark at the front tells the encoding, UTF-8
being the one without a mark. A document is decoded in blocks, so that bytes which are no permitted
character do no harm to the blocks before theirs. This is part of the stand-in for a YAML library.
-/
namespace LineScript

structure Source where
  blocks : List (List Char)
  /-- Whether bytes that cannot be decoded come after the blocks. -/
  isBroken : Bool

inductive Encoding where
  | utf8
  | utf16 (littleEndian : Bool)

namespace Encoding

inductive Front where
  | char (c : Char) (width : Nat)
  | cut
  | invalid

def utf8Width? (lead : UInt8) : Option Nat :=
  if lead < 0x80 then some 1
  else if lead < 0xc0 then none
  else if lead < 0xe0 then some 2
  else if lead < 0xf0 then some 3
  else if lead < 0xf8 then some 4
  else none

def utf8Front : Text → Front
  | [] => .cut
  | b :: rest =>
    match utf8Width? b with
    | none => .invalid
    | some width =>
      if rest.length + 1 < width then .cut
      else match Symbol.front b rest with
        | .char c => .char c width
        | .stray _ => .invalid

def word (littleEndian : Bool) (a b : UInt8) : Nat :=
  if littleEndian then b.toNat * 256 + a.toNat else a.toNat * 256 + b.toNat

def isHighSurrogate (n : Nat) : Bool := 0xd800 ≤ n && n < 0xdc00

def isLowSurrogate (n : Nat) : Bool := 0xdc00 ≤ n && n < 0xe000

def utf16Front (littleEndian : Bool) : Text → Front
  | a :: b :: rest =>
    let high := word littleEndian a b
    if isLowSurrogate high then .invalid
    else if isHighSurrogate high then
      match rest with
      | c :: d :: _ =>
        let low := word littleEndian c d
        if isLowSurrogate low then
          .char (Char.ofNat (0x10000 + (high - 0xd800) * 1024 + (low - 0xdc00))) 4
        else .invalid
      | _ => .cut
    else .char (Char.ofNat high) 2
  | _ => .cut

def front : Encoding → Text → Front
  | .utf8 => utf8Front
  | .utf16 littleEndian => utf16Front littleEndian

def maxWidth : Nat := 4

end Encoding

namespace Source

def blockSize : Nat := 512

def isPermitted (c : Char) : Bool :=
  let n := c.toNat
  n == 0x09 || n == 0x0a || n == 0x0d || (0x20 ≤ n && n ≤ 0x7e) || n == 0x85 ||
    (0xa0 ≤ n && n ≤ 0xfffd) || 0x10000 ≤ n

/-- `room` bytes of the text are in the current block, of which `seen` holds the characters so far,
last first. -/
def decode (e : Encoding) : (fuel room : Nat) → (seen : List Char) → Text → Source
  | 0, _, _, _ => ⟨[], true⟩
  | _ + 1, _, seen, [] => ⟨[seen.reverse], false⟩
  | fuel + 1, room, seen, t@(_ :: _) =>
    match e.front (t.take (min room Encoding.maxWidth)) with
    | .char c width =>
      if isPermitted c then decode e fuel (room - width) (c :: seen) (t.drop width)
      else ⟨[], true⟩
    | .cut =>
      if room = blockSize then ⟨[], true⟩
      else
        let source := decode e fuel blockSize [] t
        { source with blocks := seen.reverse :: source.blocks }
    | .invalid => ⟨[], true⟩

/-- Each step takes bytes off the text or goes to a new block, which the next step does not. -/
def decodeAfter (mark : Nat) (e : Encoding) (t : Text) : Source :=
  decode e (2 * t.length + 2) (blockSize - mark) [] (t.drop mark)

def ofText (t : Text) : Source :=
  match t with
  | 0xff :: 0xfe :: _ => decodeAfter 2 (.utf16 true) t
  | 0xfe :: 0xff :: _ => decodeAfter 2 (.utf16 false) t
  | 0xef :: 0xbb :: 0xbf :: _ => decodeAfter 3 .utf8 t
  | _ => decodeAfter 0 .utf8 t

def size (s : Source) : Nat := s.blocks.foldl (fun n block => n + block.length) 0

end Source

end LineScript
