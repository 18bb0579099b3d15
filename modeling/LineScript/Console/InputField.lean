import LineScript.Text.Symbol

/-!
A field for one line of text: its characters, the cursor among them and the part of the line that
is in view. It stands in for the text field of a terminal library and answers only some of the keys
that such a field does. The theorems about the console allow for any other edit of the field, and
they take from it only that a text is held which was put into it and which it can hold.
-/
namespace LineScript

structure InputField where
  value : List Char := []
  cursor : Nat := 0
  /-- How many columns the field may take up; zero or less means as many as it needs. -/
  width : Int := 60
  first : Nat := 0
  last : Nat := 0
  deriving DecidableEq

namespace InputField

def capacity : Nat := 500

def isControl (c : Char) : Bool := c.toNat < 0x20 || (0x7f ≤ c.toNat && c.toNat < 0xa0)

/-- The character that a field takes for a given one: tabs and line ends become blanks, and other
control characters and the replacement character are dropped. -/
def accept? (c : Char) : Option Char :=
  if c = '\t' || c = '\n' || c = '\r' then some ' '
  else if isControl c || c = '\ufffd' then none
  else some c

/-- A text that fits is all in view; otherwise the view moves as little as the cursor requires. -/
def settle (f : InputField) : InputField :=
  if f.width ≤ 0 ∨ (f.value.length : Int) ≤ f.width then
    { f with first := 0, last := f.value.length }
  else
    let w := f.width.toNat
    let last := min f.last f.value.length
    if f.cursor < f.first then
      { f with first := f.cursor, last := f.cursor + min (f.value.length - f.cursor) (w + 1) }
    else if last ≤ f.cursor then
      { f with first := f.cursor - min (f.cursor - 1) w, last := f.cursor }
    else { f with last }

def moveTo (f : InputField) (position : Nat) : InputField :=
  { f with cursor := min position f.value.length }.settle

def moveToEnd (f : InputField) : InputField := f.moveTo f.value.length

def replace (f : InputField) (chars : List Char) : InputField :=
  let value := chars.take capacity
  let g := { f with value }
  (if (f.cursor = 0 ∧ f.value = []) ∨ value.length < f.cursor then g.moveToEnd else g).settle

def setText (f : InputField) (t : Text) : InputField := f.replace (t.chars.filterMap accept?)

def clear (f : InputField) : InputField := f.setText []

def insert (f : InputField) (chars : List Char) : InputField :=
  let room := capacity - f.value.length
  let added := (chars.filterMap accept?).take room
  if room = 0 then f.settle
  else
    let value := f.value.take f.cursor ++ added ++ f.value.drop f.cursor
    let cursor := f.cursor + added.length
    if cursor = 0 ∧ f.value = [] then { f with value, cursor }.moveToEnd
    else { f with value, cursor }.settle

def left (f : InputField) : InputField := f.moveTo (f.cursor - 1)

def right (f : InputField) : InputField := f.moveTo (f.cursor + 1)

def backspace (f : InputField) : InputField :=
  if f.cursor = 0 then f.settle
  else
    let value := f.value.take (f.cursor - 1) ++ f.value.drop f.cursor
    { f with value }.moveTo (f.cursor - 1)

def text (f : InputField) : Text := Text.ofChars f.value

end InputField

end LineScript
