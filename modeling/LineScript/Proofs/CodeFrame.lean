import LineScript.CodeFrame
import LineScript.Proofs.Fields
import LineScript.Proofs.Numeral
import LineScript.Proofs.Text.Symbol

/-! The rows of a code frame: a head with the line number and the column, the line behind a gutter,
and a margin with a caret behind it. The margin is as wide as the gutter and the symbols before the
column, and the caret is the only one in its row. -/

namespace LineScript

variable {number column : Nat} {line : Text}

def frameHead (number column : Nat) : Text :=
  Text.cat ["  --> line ", Text.ofNat number, ", column ", Text.ofNat column]

/-- What stands before the line in a frame. -/
def frameGutter (number : Nat) : Text := Text.cat [" ", Text.ofNat number, " | "]

/-- What stands before the caret in a frame. -/
def frameMargin (number column : Nat) : Text :=
  Text.cat [" ", List.replicate (Text.ofNat number).length 0x20, " | ",
    List.replicate (column - 1) 0x20]

theorem codeFrame_eq (hnumber : 0 < number) (hcolumn : clampColumn line column = column) :
    codeFrame number line column = Text.joinWith [Text.lf]
      [frameHead number column, frameGutter number ++ line, frameMargin number column ++ [0x5e]] := by
  have hrow : Text.ofString "\n " = Text.lf :: Text.ofString " " := rfl
  have hcaret : Text.ofString "^" = [0x5e] := rfl
  have hlabel : Text.ofInt (number : Int) = Text.ofNat number := rfl
  rw [codeFrame, if_neg (by omega)]
  simp only [hcolumn, hlabel, hrow, hcaret, Text.cat, joinWith_cons_cons, joinWith_singleton,
    frameHead, frameGutter, frameMargin, List.flatten_cons, List.flatten_nil, List.append_nil,
    List.append_assoc, List.cons_append]

theorem toNat_lt_of_mem_frameGutter {b : UInt8} (h : b ∈ frameGutter number) :
    b.toNat < 0x80 := by
  have hblank : Text.ofString " " = [0x20] := rfl
  have hbar : Text.ofString " | " = [0x20, 0x7c, 0x20] := rfl
  simp only [frameGutter, Text.cat, hblank, hbar, List.flatten_cons, List.flatten_nil,
    List.append_nil, List.mem_append, List.mem_cons, List.not_mem_nil, or_false] at h
  rcases h with rfl | h | rfl | rfl | rfl
  · decide
  · exact Text.toNat_lt_of_mem_ofNat h
  all_goals decide

theorem eq_of_mem_frameMargin {b : UInt8} (h : b ∈ frameMargin number column) :
    b = 0x20 ∨ b = 0x7c := by
  have hblank : Text.ofString " " = [0x20] := rfl
  have hbar : Text.ofString " | " = [0x20, 0x7c, 0x20] := rfl
  simp only [frameMargin, Text.cat, hblank, hbar, List.flatten_cons, List.flatten_nil,
    List.append_nil, List.mem_append, List.mem_cons, List.not_mem_nil, or_false,
    List.mem_replicate] at h
  tauto

theorem symbols_frameMargin :
    Text.symbols (frameMargin number column) =
      (frameMargin number column).map fun b => .char (Char.ofNat b.toNat) := by
  apply Text.symbols_of_forall_lt
  intro b hb
  rcases eq_of_mem_frameMargin hb with rfl | rfl <;> decide

theorem symbolCount_frameMargin :
    Text.symbolCount (frameMargin number column) =
      Text.symbolCount (frameGutter number) + (column - 1) := by
  have hblank : (Text.ofString " ").length = 1 := rfl
  have hbar : (Text.ofString " | ").length = 3 := rfl
  rw [Text.symbolCount, Text.symbolCount, symbols_frameMargin,
    Text.symbols_of_forall_lt (fun _ => toNat_lt_of_mem_frameGutter), List.length_map,
    List.length_map]
  simp only [frameMargin, frameGutter, Text.cat, List.flatten_cons, List.flatten_nil,
    List.append_nil, List.length_append, List.length_replicate, hblank, hbar]
  omega

theorem getElem?_caret_iff (i : Nat) :
    (Text.symbols (frameMargin number column ++ [0x5e]))[i]? = some (.char '^') ↔
      i = Text.symbolCount (frameGutter number) + (column - 1) := by
  have hmargin : Symbol.char '^' ∉ Text.symbols (frameMargin number column) := by
    rw [symbols_frameMargin, List.mem_map]
    rintro ⟨b, hb, hchar⟩
    rcases eq_of_mem_frameMargin hb with rfl | rfl <;> exact absurd hchar (by decide)
  rw [Text.symbols_append_cons (by decide), Text.symbols_nil, ← symbolCount_frameMargin,
    Text.symbolCount]
  have hcaret : Symbol.char (Char.ofNat (0x5e : UInt8).toNat) = .char '^' := by decide
  rw [hcaret]
  -- before, at and behind the end of the margin
  rcases Nat.lt_trichotomy i (Text.symbols (frameMargin number column)).length with hlt | rfl | hgt
  · rw [List.getElem?_append_left hlt]
    refine iff_of_false (fun h => hmargin (List.mem_of_getElem? h)) (by omega)
  · exact iff_of_true List.getElem?_concat_length rfl
  · refine iff_of_false (fun h => ?_) (by omega)
    rw [List.getElem?_eq_none (by simp; omega)] at h
    exact absurd h (by simp)

theorem splitOn_codeFrame (hline : Text.lf ∉ line) (hnumber : 0 < number)
    (hcolumn : clampColumn line column = column) :
    (codeFrame number line column).splitOn Text.lf =
      [frameHead number column, frameGutter number ++ line, frameMargin number column ++ [0x5e]] := by
  have hwords : Text.lf ∉ Text.ofString "  --> line " ∧ Text.lf ∉ Text.ofString ", column " ∧
      Text.lf ∉ Text.ofString " " ∧ Text.lf ∉ Text.ofString " | " ∧ Text.lf ∉ [0x5e] := by
    decide
  have hmargin : Text.lf ∉ frameMargin number column := by
    intro h
    rcases eq_of_mem_frameMargin h with h | h <;> exact absurd h (by decide)
  rw [codeFrame_eq hnumber hcolumn]
  refine List.splitOn_intercalate Text.lf ?_ (by simp)
  intro row hrow
  simp only [List.mem_cons, List.not_mem_nil, or_false] at hrow
  rcases hrow with rfl | rfl | rfl
  · simp [frameHead, Text.cat, Text.lf_not_mem_ofNat, hwords]
  · simp [frameGutter, Text.cat, Text.lf_not_mem_ofNat, hwords, hline]
  · simp [hmargin, hwords]

end LineScript
