import LineScript.Text.Printable
import LineScript.Text.Symbol

/-!
Quoted text: double quotes around symbols that are shown as they are when printable and by an escape
otherwise.
-/
namespace LineScript.Text

def hexadecimal (width n : Nat) : Text :=
  let digits : Text := (Nat.toDigits 16 n).map fun c => c.toNat.toUInt8
  List.replicate (width - digits.length) 0x30 ++ digits

def controlLetter? (c : Char) : Option Text :=
  match c.toNat with
  | 0x07 => some "a"
  | 0x08 => some "b"
  | 0x09 => some "t"
  | 0x0a => some "n"
  | 0x0b => some "v"
  | 0x0c => some "f"
  | 0x0d => some "r"
  | _ => none

def quoteSymbol : Symbol → Text
  | .stray b => cat ["\\x", hexadecimal 2 b.toNat]
  | .char c =>
    if c = '"' || c = '\\' then cat ["\\", String.utf8EncodeChar c]
    else if isPrintable c then String.utf8EncodeChar c
    else match controlLetter? c with
      | some letter => cat ["\\", letter]
      | none =>
        let n := c.toNat
        if n < 0x20 || n = 0x7f then cat ["\\x", hexadecimal 2 n]
        else if n < 0x10000 then cat ["\\u", hexadecimal 4 n]
        else cat ["\\U", hexadecimal 8 n]

def quote (t : Text) : Text := cat ["\"", (symbols t).flatMap quoteSymbol, "\""]

end LineScript.Text
