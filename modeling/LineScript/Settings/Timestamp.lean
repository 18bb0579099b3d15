import LineScript.Text

/-!
Dates and times of day as settings write them. This is part of the stand-in for a YAML library.
-/
namespace LineScript

inductive Zone where
  | universal
  | offset (minutes : Int)
  deriving DecidableEq

/-- Whether equal zones are the same zone: there is one zone for each whole hour up to twelve before
and fourteen after universal time, and any other offset makes a zone of its own. -/
def Zone.isShared : Zone → Bool
  | .universal => true
  | .offset minutes => -720 ≤ minutes && minutes ≤ 840 && minutes % 60 = 0

/-- Its numbers are in range, so that equal ones stand for the same point. -/
structure Timestamp where
  date : List Nat
  time : List Nat := [0, 0, 0, 0]
  zone : Zone := .universal
  deriving DecidableEq

namespace Timestamp

def isSame (s t : Timestamp) : Bool := s = t && s.zone.isShared

def shortNumber? (t : Text) : Option (Nat × Text) :=
  let ds := (t.take 2).takeWhile Text.isDigit
  if ds = [] then none else some (Text.digitsValue ds, t.drop ds.length)

def expect? (b : UInt8) (t : Text) : Option Text :=
  match t with
  | c :: rest => if c == b then some rest else none
  | [] => none

def isLeapYear (year : Nat) : Bool := year % 4 == 0 && (year % 100 != 0 || year % 400 == 0)

def daysOfMonth (year month : Nat) : Nat :=
  if month = 2 then if isLeapYear year then 29 else 28
  else if [4, 6, 9, 11].contains month then 30
  else 31

def date? (t : Text) : Option (List Nat × Text) := do
  let digits := t.takeWhile Text.isDigit
  if digits.length ≠ 4 then none
  let year := Text.digitsValue digits
  let rest ← expect? Text.minus (t.drop 4)
  let (month, rest) ← shortNumber? rest
  let rest ← expect? Text.minus rest
  let (day, rest) ← shortNumber? rest
  if 1 ≤ month ∧ month ≤ 12 ∧ 1 ≤ day ∧ day ≤ daysOfMonth year month then
    some ([year, month, day], rest)
  else none

/-- The nanoseconds that the digits of a fraction of a second stand for; those after the ninth do
not count. -/
def nanoseconds (digits : Text) : Nat :=
  Text.digitsValue ((digits ++ List.replicate 9 0x30).take 9)

def fraction (t : Text) : Text × Text :=
  match t with
  | [] => ([], [])
  | point :: rest =>
    let digits := rest.takeWhile Text.isDigit
    if (point == Text.dot || point == 0x2c) && digits ≠ [] then (digits, rest.drop digits.length)
    else ([], t)

def time? (t : Text) : Option (List Nat × Text) := do
  let (hour, rest) ← shortNumber? t
  let rest ← expect? Text.colon rest
  let (minute, rest) ← shortNumber? rest
  let rest ← expect? Text.colon rest
  let (second, rest) ← shortNumber? rest
  if 24 ≤ hour ∨ 60 ≤ minute ∨ 60 ≤ second then none
  let (digits, rest) := fraction rest
  some ([hour, minute, second, nanoseconds digits], rest)

def zone? (t : Text) : Option Zone :=
  match t with
  | [z] => if z == 0x5a then some .universal else none
  | [s, a, b, c, d, e] =>
    let hours := Text.digitsValue [a, b]
    let minutes := Text.digitsValue [d, e]
    if (s == Text.plus || s == Text.minus) && c == Text.colon && [a, b, d, e].all Text.isDigit &&
        hours ≤ 24 && minutes ≤ 60 then
      let offset : Int := 60 * hours + minutes
      some (.offset (if s == Text.minus then -offset else offset))
    else none
  | _ => none

/-- A time after a blank has no zone, and one after a letter has. -/
def ofText? (t : Text) : Option Timestamp := do
  let (date, rest) ← date? t
  match rest with
  | [] => some { date }
  | mark :: rest =>
    if mark == 0x20 then
      let (time, rest) ← time? (rest.dropWhile (· == 0x20))
      if rest = [] then some { date, time } else none
    else if mark == 0x54 || mark == 0x74 then
      let (time, rest) ← time? rest
      (zone? rest).map fun zone => { date, time, zone }
    else none

end Timestamp

end LineScript
