import LineScript.Text

/-!
The character view of a text. Decoding loses nothing: a character is read only where its own UTF-8
encoding stands, and every other byte is one stray symbol.
-/
namespace LineScript

inductive Symbol where
  | char (c : Char)
  /-- A byte that starts no valid UTF-8 sequence. -/
  | stray (b : UInt8)
  deriving DecidableEq

namespace Symbol

def encode : Symbol → Text
  | .char c => String.utf8EncodeChar c
  | .stray b => [b]

/-- The character whose payload bits the first bytes of a text carry, judged by the lead byte. -/
def candidate (t : Text) : Char :=
  let byte (i : Nat) : Nat := (t.getD i 0).toNat
  let lead := byte 0
  Char.ofNat <|
    if lead < 0x80 then lead
    else if lead < 0xe0 then lead % 32 * 64 + byte 1 % 64
    else if lead < 0xf0 then lead % 16 * 4096 + byte 1 % 64 * 64 + byte 2 % 64
    else lead % 8 * 262144 + byte 1 % 64 * 4096 + byte 2 % 64 * 64 + byte 3 % 64

def front (b : UInt8) (rest : Text) : Symbol :=
  let c := candidate (b :: rest)
  if (String.utf8EncodeChar c).isPrefixOf (b :: rest) then .char c else .stray b

end Symbol

namespace Text

/-- Reads symbols after `skip` further bytes of the symbol before; `seen` holds the symbols so far,
last first. -/
def symbolsFrom : Nat → List Symbol → Text → List Symbol
  | _, seen, [] => seen.reverse
  | skip + 1, seen, _ :: rest => symbolsFrom skip seen rest
  | 0, seen, b :: rest =>
    let r := Symbol.front b rest
    symbolsFrom (r.encode.length - 1) (r :: seen) rest

def symbols (t : Text) : List Symbol := symbolsFrom 0 [] t

def ofSymbols (rs : List Symbol) : Text := rs.flatMap Symbol.encode

def symbolCount (t : Text) : Nat := (symbols t).length

def chars (t : Text) : List Char :=
  (symbols t).map fun
    | .char c => c
    | .stray _ => '\ufffd'

def ofChars (cs : List Char) : Text := cs.flatMap String.utf8EncodeChar

end Text

end LineScript
