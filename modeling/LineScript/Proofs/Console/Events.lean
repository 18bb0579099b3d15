import LineScript.Console
import Mathlib.Data.List.Basic

/-! What is true of the console whatever has happened to it: the line called back is one that can be
called back, and the window is as wide as it was last said to be. -/

namespace LineScript.Console

/-- The line called back last, if the field shows one, is one that can be called back. -/
def RecallsPast (c : Console) : Prop := ∀ i, c.recallIndex = some i → i < c.pastLines.length

theorem recallsPast_of_none {c : Console} (h : c.recallIndex = none) : c.RecallsPast := by
  intro i hi
  rw [h] at hi
  cases hi

/-- What running lines and carrying out commands leave alone: the window and the lines called
back. -/
structure Keeps (before after : Console) : Prop where
  width : after.width = before.width
  ready : after.ready = before.ready
  pastLines : after.pastLines = before.pastLines
  recallIndex : after.recallIndex = before.recallIndex

theorem keeps_runNext (c : Console) : Keeps c c.runNext.1 := by
  cases hpending : c.pending with
  | nil =>
    simp only [runNext, hpending]
    exact ⟨rfl, rfl, rfl, rfl⟩
  | cons line rest =>
    simp only [runNext, hpending]
    repeat' split
    all_goals exact ⟨rfl, rfl, rfl, rfl⟩

theorem keeps_load (files : FileTree) (c : Console) (input : Text) (arguments : List Text) :
    Keeps c (load files c input arguments).1 := by
  unfold load
  repeat' split
  all_goals exact ⟨rfl, rfl, rfl, rfl⟩

theorem keeps_command (files : FileTree) (c : Console) (input : Text) :
    Keeps c (command files c input).1 := by
  unfold command
  cases Text.words input with
  | nil => exact ⟨rfl, rfl, rfl, rfl⟩
  | cons word arguments =>
    dsimp only
    split_ifs
    on_goal 5 => exact keeps_load files c input arguments
    all_goals exact ⟨rfl, rfl, rfl, rfl⟩

theorem keeps_complete (c : Console) : Keeps c c.complete := by
  unfold complete
  dsimp only
  repeat' split
  all_goals exact ⟨rfl, rfl, rfl, rfl⟩

/-- The width that a message gives to the window. -/
def widthOf : Message → Option Int
  | .resize width _ => some width
  | _ => none

/-- The window is known once a message has given it a size, and is then as wide as the last of them
says. -/
structure Resized (before after : Console) (given : Option Int) : Prop where
  width : after.width = given.getD before.width
  ready : after.ready = (before.ready || given.isSome)

theorem Keeps.resized {before after : Console} (h : Keeps before after) :
    Resized before after none :=
  ⟨h.width, by rw [h.ready, Option.isSome_none, Bool.or_false]⟩

theorem Keeps.recallsPast {before after : Console} (h : Keeps before after)
    (hbefore : before.RecallsPast) : after.RecallsPast := by
  intro i hi
  rw [h.pastLines]
  exact hbefore i (h.recallIndex ▸ hi)

theorem resized_enter (files : FileTree) (c : Console) : Resized c (c.enter files).1 none := by
  simp only [enter]
  split
  · exact ⟨rfl, by simp⟩
  · split
    · have hkeeps := keeps_command files c (Text.trim c.field.text)
      exact ⟨hkeeps.width, by simp [hkeeps.ready]⟩
    · exact ⟨rfl, by simp [record, log]⟩

theorem recallsPast_enter (files : FileTree) {c : Console} (h : c.RecallsPast) :
    (c.enter files).1.RecallsPast := by
  simp only [enter]
  split
  · exact h
  · exact recallsPast_of_none rfl

theorem recallsPast_showRecalled {c : Console} {i : Nat} (h : i < c.pastLines.length) :
    (c.showRecalled i).RecallsPast := by
  rintro j hj
  obtain rfl := Option.some.inj hj
  exact h

theorem recallsPast_recallUp {c : Console} (h : c.RecallsPast) : c.recallUp.RecallsPast := by
  rw [recallUp]
  split
  · exact h
  · rename_i hne
    have hpos := List.length_pos_of_ne_nil hne
    cases hindex : c.recallIndex with
    | none => exact recallsPast_showRecalled (by omega)
    | some i =>
      have hi := h i hindex
      exact recallsPast_showRecalled (by omega)

theorem recallsPast_recallDown {c : Console} (h : c.RecallsPast) : c.recallDown.RecallsPast := by
  rw [recallDown]
  cases hindex : c.recallIndex with
  | none => exact h
  | some i =>
    dsimp only
    split
    · rename_i hi
      exact recallsPast_showRecalled hi
    · exact recallsPast_of_none rfl

theorem resized_recallUp (c : Console) : Resized c c.recallUp none := by
  unfold recallUp
  repeat' split
  all_goals exact ⟨rfl, (Bool.or_false _).symm⟩

theorem resized_recallDown (c : Console) : Resized c c.recallDown none := by
  unfold recallDown
  repeat' split
  all_goals exact ⟨rfl, (Bool.or_false _).symm⟩

theorem resized_update (files : FileTree) (c : Console) (m : Message) :
    Resized c (c.update files m).1 (widthOf m) := by
  cases m with
  | resize width height => exact ⟨rfl, (Bool.or_true _).symm⟩
  | runPending => exact c.keeps_runNext.resized
  | key k =>
    cases k with
    | up => exact c.resized_recallUp
    | down => exact c.resized_recallDown
    | tab => exact c.keeps_complete.resized
    | enter => exact c.resized_enter files
    | _ => exact ⟨rfl, (Bool.or_false _).symm⟩
  | typed ch => exact ⟨rfl, (Bool.or_false _).symm⟩
  | pasted chars =>
    rw [update]
    split <;> exact ⟨rfl, (Bool.or_false _).symm⟩

theorem recallsPast_update (files : FileTree) {c : Console} (h : c.RecallsPast) (m : Message) :
    (c.update files m).1.RecallsPast := by
  cases m with
  | runPending => exact c.keeps_runNext.recallsPast h
  | key k =>
    cases k with
    | up => exact recallsPast_recallUp h
    | down => exact recallsPast_recallDown h
    | tab => exact c.keeps_complete.recallsPast h
    | enter => exact recallsPast_enter files h
    | _ => exact h
  | resize _ _ => exact h
  | typed ch => exact h
  | pasted chars =>
    rw [update]
    split
    · exact recallsPast_of_none rfl
    · exact h

/-- What can happen to the console: a message comes, which is answered with the files as they are by
then, or the field is edited. -/
inductive Event where
  | message (files : FileTree) (m : Message)
  | edit (field : InputField)

def Event.width? : Event → Option Int
  | .message _ m => widthOf m
  | .edit _ => none

def after (c : Console) : Event → Console
  | .message files m => (c.update files m).1
  | .edit field => { c with field }

def afterAll (c : Console) (events : List Event) : Console := events.foldl after c

/-- The widths that the window was given, in order. -/
def widths (events : List Event) : List Int := events.filterMap Event.width?

theorem resized_after (c : Console) (event : Event) : Resized c (c.after event) event.width? := by
  cases event with
  | message files m => exact c.resized_update files m
  | edit field => exact ⟨rfl, (Bool.or_false _).symm⟩

theorem recallsPast_after {c : Console} (h : c.RecallsPast) (event : Event) :
    (c.after event).RecallsPast := by
  cases event with
  | message files m => exact recallsPast_update files h m
  | edit field => exact h

theorem resized_afterAll (c : Console) (events : List Event) :
    Resized c (c.afterAll events) (widths events).getLast? := by
  induction events generalizing c with
  | nil => exact ⟨rfl, (Bool.or_false _).symm⟩
  | cons event events ih =>
    obtain ⟨hwidth, hready⟩ := ih (c.after event)
    obtain ⟨hfirst, hknown⟩ := c.resized_after event
    have hafter : c.afterAll (event :: events) = (c.after event).afterAll events := rfl
    rw [hafter]
    cases hevent : event.width? with
    | none =>
      rw [hevent] at hfirst hknown
      have hwidths : widths (event :: events) = widths events := List.filterMap_cons_none hevent
      rw [hwidths]
      exact ⟨by rw [hwidth, hfirst]; rfl, by rw [hready, hknown]; simp⟩
    | some width =>
      rw [hevent] at hfirst hknown
      have hwidths : widths (event :: events) = width :: widths events :=
        List.filterMap_cons_some hevent
      rw [hwidths]
      refine ⟨?_, ?_⟩
      · rw [hwidth, hfirst, List.getLast?_cons]
        rfl
      · rw [hready, hknown, List.getLast?_cons]
        simp

theorem recallsPast_afterAll {c : Console} (h : c.RecallsPast) (events : List Event) :
    (c.afterAll events).RecallsPast := by
  induction events generalizing c with
  | nil => exact h
  | cons event events ih => exact ih (recallsPast_after h event)

end LineScript.Console
