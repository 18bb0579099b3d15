import LineScript.Console
import Mathlib.Data.List.Basic

/-! What the input field holds. A text of acceptable characters that is not too long is held as it
is. -/

namespace LineScript.InputField

theorem value_settle (f : InputField) : f.settle.value = f.value := by
  unfold settle
  dsimp only
  split_ifs <;> rfl

theorem value_moveToEnd (f : InputField) : f.moveToEnd.value = f.value := value_settle _

theorem value_replace (f : InputField) (chars : List Char) :
    (f.replace chars).value = chars.take capacity := by
  rw [replace, value_settle]
  split_ifs
  · exact value_moveToEnd _
  · rfl

/-- A text that a field holds as it is: acceptable characters and not too many of them. -/
structure Holds (t : Text) : Prop where
  chars : Text.ofChars t.chars = t
  accepted : t.chars.filterMap accept? = t.chars
  fits : t.chars.length ≤ capacity

theorem Holds.text_setText {t : Text} (h : Holds t) (f : InputField) :
    (f.setText t).moveToEnd.text = t := by
  rw [text, value_moveToEnd, setText, value_replace, h.accepted, List.take_of_length_le h.fits,
    h.chars]

theorem text_clear (f : InputField) : f.clear.moveToEnd.text = [] := by
  have hholds : Holds [] := ⟨rfl, rfl, Nat.zero_le _⟩
  exact hholds.text_setText f

end LineScript.InputField
