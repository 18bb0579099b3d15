import LineScript.Text.Symbol

/-! Where in a line something is: columns count symbols from one, and a frame points at a column. -/
namespace LineScript

/-- One more than the symbols before the offset; offsets outside the line count as its ends. -/
def columnAt (line : Text) (offset : Int) : Nat := Text.symbolCount (line.take offset.toNat) + 1

def clampColumn (line : Text) (column : Int) : Nat :=
  min (max column 1).toNat (line.symbolCount + 1)

/-- Lines are numbered from one, and there is no frame for any other number. -/
def codeFrame (number : Int) (line : Text) (column : Int) : Text :=
  if number ≤ 0 then []
  else
    let label := Text.ofInt number
    let at1 := clampColumn line column
    Text.cat ["  --> line ", label, ", column ", Text.ofNat at1, "\n ",
      label, " | ", line, "\n ",
      List.replicate label.length 0x20, " | ", List.replicate (at1 - 1) 0x20, "^"]

end LineScript
