import LineScript.Proofs.Console.Events
import LineScript.Proofs.Console.Field

/-! The lines that can be called back. They are the inputs entered that are no commands and the
lines pasted, in order, and no event takes one of them away. From a field that shows none of them,
the up key goes back through them one by one and stays at the first, and the down key comes back the
same way and ends at an empty field. -/

namespace LineScript.Console

/-- The lines that an event adds to those that can be called back: an input that is entered and is
no command, and the lines of a paste that are not blank, the first one behind what stands in the
field. -/
def remembered (c : Console) : Event → List Text
  | .message _ (.key .enter) =>
    let input := Text.trim c.field.text
    if input = [] ∨ input.head? = some Text.colon then [] else [input]
  | .message _ (.pasted chars) =>
    if chars.any fun ch => ch = '\r' || ch = '\n' then
      Lines.statements (c.field.text ++ Text.ofChars chars)
    else []
  | _ => []

def rememberedAll : Console → List Event → List Text
  | _, [] => []
  | c, event :: events => c.remembered event ++ rememberedAll (c.after event) events

theorem Keeps.remembers_nothing {before after : Console} (h : Keeps before after) :
    after.pastLines = before.pastLines ++ [] := by
  rw [h.pastLines, List.append_nil]

theorem pastLines_enter (files : FileTree) (c : Console) : (c.enter files).1.pastLines =
    c.pastLines ++ c.remembered (.message files (.key .enter)) := by
  simp only [enter, remembered]
  by_cases hblank : Text.trim c.field.text = []
  · simp [hblank]
  · by_cases hcolon : (Text.trim c.field.text).head? = some Text.colon
    · have hkeeps := keeps_command files c (Text.trim c.field.text)
      simp [hblank, hcolon, hkeeps.pastLines]
    · simp [hblank, hcolon, record, log]

theorem pastLines_recallUp (c : Console) : c.recallUp.pastLines = c.pastLines := by
  unfold recallUp
  repeat' split
  all_goals rfl

theorem pastLines_recallDown (c : Console) : c.recallDown.pastLines = c.pastLines := by
  unfold recallDown
  repeat' split
  all_goals rfl

/-- An event adds lines at the end and leaves the others as they are. -/
theorem pastLines_after (c : Console) (event : Event) :
    (c.after event).pastLines = c.pastLines ++ c.remembered event := by
  cases event with
  | edit field => exact (List.append_nil _).symm
  | message files m =>
    cases m with
    | runPending => exact c.keeps_runNext.remembers_nothing
    | key k =>
      cases k with
      | enter => exact c.pastLines_enter files
      | tab => exact c.keeps_complete.remembers_nothing
      | up => exact c.pastLines_recallUp.trans (List.append_nil _).symm
      | down => exact c.pastLines_recallDown.trans (List.append_nil _).symm
      | _ => exact (List.append_nil _).symm
    | resize _ _ => exact (List.append_nil _).symm
    | typed ch => exact (List.append_nil _).symm
    | pasted chars =>
      simp only [after, update, remembered]
      split
      · rfl
      · exact (List.append_nil _).symm

theorem pastLines_afterAll (c : Console) (events : List Event) :
    (c.afterAll events).pastLines = c.pastLines ++ rememberedAll c events := by
  induction events generalizing c with
  | nil => exact (List.append_nil _).symm
  | cons event events ih =>
    rw [rememberedAll, ← List.append_assoc, ← pastLines_after]
    exact ih (c.after event)

def pressed (c : Console) (files : FileTree) (k : Key) (times : Nat) : Console :=
  c.afterAll (List.replicate times (.message files (.key k)))

theorem pressed_succ (c : Console) (files : FileTree) (k : Key) (times : Nat) :
    c.pressed files k (times + 1) = ((c.pressed files k times).press files k).1 := by
  rw [pressed, List.replicate_succ', afterAll, List.foldl_append]
  rfl

theorem pastLines_pressed (files : FileTree) (k : Key)
    (h : ∀ c : Console, (c.press files k).1.pastLines = c.pastLines) (c : Console) (times : Nat) :
    (c.pressed files k times).pastLines = c.pastLines := by
  induction times with
  | zero => rfl
  | succ times ih => rw [pressed_succ, h, ih]

/-- A line is called back: it is put into the field with its index noted, and nothing else
changes. -/
def CallsBack (before : Console) (i : Nat) (line : Text) (after : Console) : Prop :=
  after = { before with
    recallIndex := some i
    field := (before.field.setText line).moveToEnd }

theorem callsBack_showRecalled {c : Console} {i : Nat} {line : Text}
    (h : c.pastLines[i]? = some line) : c.CallsBack i line (c.showRecalled i) := by
  rw [CallsBack, showRecalled, List.getD_eq_getElem?_getD, h, Option.getD_some]

section Keys
variable {c : Console} {i : Nat}

theorem recallUp_of_none (hne : c.pastLines ≠ []) (h : c.recallIndex = none) :
    c.recallUp = c.showRecalled (c.pastLines.length - 1) := by
  simp only [recallUp, if_neg hne, h]

theorem recallUp_of_some (hne : c.pastLines ≠ []) (h : c.recallIndex = some i) :
    c.recallUp = c.showRecalled (i - 1) := by
  simp only [recallUp, if_neg hne, h]

theorem recallDown_of_lt (h : c.recallIndex = some i) (hi : i + 1 < c.pastLines.length) :
    c.recallDown = c.showRecalled (i + 1) := by
  simp only [recallDown, h, if_pos hi]

theorem recallDown_of_last (h : c.recallIndex = some i) (hi : i + 1 = c.pastLines.length) :
    c.recallDown = { c with recallIndex := none, field := c.field.clear.moveToEnd } := by
  simp only [recallDown, h, if_neg (Nat.not_lt.2 (Nat.le_of_eq hi.symm))]

variable (files : FileTree)

/-- Each press of the up key calls back one line further up, and the first line in the end. -/
theorem pressed_up_succ (hne : c.pastLines ≠ []) (h : c.recallIndex = none) (times : Nat) :
    c.pressed files .up (times + 1) =
      (c.pressed files .up times).showRecalled (c.pastLines.length - (times + 1)) := by
  induction times with
  | zero =>
    rw [pressed_succ]
    exact recallUp_of_none hne h
  | succ times ih =>
    have hpast := pastLines_pressed files .up pastLines_recallUp c (times + 1)
    have hindex : (c.pressed files .up (times + 1)).recallIndex =
        some (c.pastLines.length - (times + 1)) := by rw [ih]; rfl
    rw [pressed_succ]
    exact recallUp_of_some (hpast ▸ hne) hindex

/-- Each press of the down key calls back one line further down while there is one. -/
theorem pressed_down_succ (h : c.recallIndex = some i) {times : Nat}
    (hlt : i + (times + 1) < c.pastLines.length) : c.pressed files .down (times + 1) =
      (c.pressed files .down times).showRecalled (i + (times + 1)) := by
  induction times with
  | zero =>
    rw [pressed_succ]
    exact recallDown_of_lt h hlt
  | succ times ih =>
    have hpast := pastLines_pressed files .down pastLines_recallDown c (times + 1)
    have hindex : (c.pressed files .down (times + 1)).recallIndex = some (i + (times + 1)) := by
      rw [ih (by omega)]
      rfl
    rw [pressed_succ]
    exact recallDown_of_lt hindex (by rw [hpast]; exact hlt)

/-- Behind the last line, the field is empty and shows no line called back. -/
theorem pressed_down_last (h : c.recallIndex = some i) {times : Nat}
    (hlast : i + (times + 1) = c.pastLines.length) :
    (c.pressed files .down (times + 1)).recallIndex = none ∧
      (c.pressed files .down (times + 1)).field.text = [] := by
  have hpast := pastLines_pressed files .down pastLines_recallDown c times
  have hindex : (c.pressed files .down times).recallIndex = some (i + times) := by
    cases times with
    | zero => exact h
    | succ times =>
      rw [pressed_down_succ files h (by omega)]
      rfl
  have hdown : c.pressed files .down (times + 1) = (c.pressed files .down times).recallDown :=
    pressed_succ c files .down times
  rw [hdown, recallDown_of_last hindex (by rw [hpast]; exact hlast)]
  exact ⟨rfl, InputField.text_clear _⟩

end Keys

/-- Whatever has happened, the line called back last is one that can be called back, and these lines
are the inputs that were entered and the lines that were pasted, in order; what happens later only
adds to their end. If the field shows none of them, the up key calls them back from the last to the
first, where it stays. After as many presses of the up key as there are such lines or fewer, the
down key calls back those that follow, and as many presses lead to an empty field. -/
theorem recall_faithful (events : List Event) :
    let c := Console.start.afterAll events
    let n := c.pastLines.length
    c.RecallsPast ∧ c.pastLines = rememberedAll Console.start events ∧
    (∀ later, (c.afterAll later).pastLines = c.pastLines ++ rememberedAll c later) ∧
    (c.recallIndex = none → 1 ≤ n → ∀ files : FileTree,
      (∀ k, ∃ line, c.pastLines[n - (k + 1)]? = some line ∧
        (c.pressed files .up k).CallsBack (n - (k + 1)) line (c.pressed files .up (k + 1))) ∧
      ∀ k, 1 ≤ k → k ≤ n →
        let up := c.pressed files .up k
        (∀ j, j + 1 < k → ∃ line, c.pastLines[n - k + (j + 1)]? = some line ∧
          (up.pressed files .down j).CallsBack (n - k + (j + 1)) line
            (up.pressed files .down (j + 1))) ∧
        (up.pressed files .down k).recallIndex = none ∧
        (up.pressed files .down k).field.text = []) := by
  intro c n
  refine ⟨recallsPast_afterAll (recallsPast_of_none rfl) events,
    pastLines_afterAll Console.start events, pastLines_afterAll c, fun hnone hpos files => ?_⟩
  have hne : c.pastLines ≠ [] := List.ne_nil_of_length_pos hpos
  have hup (k : Nat) : (c.pressed files .up k).pastLines = c.pastLines :=
    pastLines_pressed files .up pastLines_recallUp c k
  refine ⟨fun k => ?_, fun k hk hkn => ?_⟩
  · have hline := List.getElem?_eq_getElem (show n - (k + 1) < c.pastLines.length by omega)
    refine ⟨_, hline, ?_⟩
    rw [pressed_up_succ files hne hnone k]
    exact callsBack_showRecalled (by rw [hup, hline])
  · intro up
    have hindex : up.recallIndex = some (n - k) := by
      obtain ⟨m, rfl⟩ := Nat.exists_eq_add_of_le' hk
      rw [show up = _ from pressed_up_succ files hne hnone m]
      rfl
    have hdown (j : Nat) : (up.pressed files .down j).pastLines = c.pastLines :=
      (pastLines_pressed files .down pastLines_recallDown up j).trans (hup k)
    refine ⟨fun j hj => ?_, ?_⟩
    · have hlt : n - k + (j + 1) < c.pastLines.length := by omega
      have hline := List.getElem?_eq_getElem hlt
      refine ⟨_, hline, ?_⟩
      rw [pressed_down_succ files hindex (by rw [hup]; exact hlt)]
      exact callsBack_showRecalled (by rw [hdown, hline])
    · obtain ⟨m, rfl⟩ := Nat.exists_eq_add_of_le' hk
      exact pressed_down_last files hindex (by rw [hup]; omega)

/-- Two lines are pasted, a third one is entered, and a command is entered that is not called back.
The third press of the up key calls back the first line, and three presses of the down key lead to
an empty field. -/
theorem recall_faithful_session :
    let files : FileTree := ⟨[], []⟩
    let enter := Event.message files (.key .enter)
    let events := [.message files (.pasted "1\n2".toList), .edit { value := "3".toList }, enter,
      .edit { value := ":vars".toList }, enter]
    let c := Console.start.afterAll events
    c.recallIndex = none ∧ c.pastLines = ["1", "2", "3"] ∧
      (c.pressed files .up 2).CallsBack 0 "1" (c.pressed files .up 3) ∧
      ((c.pressed files .up 3).pressed files .down 3).field.text = [] := by
  intro files enter events c
  have hnone : c.recallIndex = none := by decide +kernel
  have hpast : c.pastLines = ["1", "2", "3"] := by decide +kernel
  obtain ⟨hup, hdown⟩ := (recall_faithful events).2.2.2 hnone (by decide +kernel) files
  obtain ⟨line, hline, hcalls⟩ := hup 2
  have hlength : c.pastLines.length = 3 := by rw [hpast]; rfl
  rw [hlength, hpast] at hline
  rw [hlength] at hcalls
  obtain rfl := Option.some.inj hline
  exact ⟨hnone, hpast, hcalls, (hdown 3 (by decide) (Nat.le_of_eq hlength.symm)).2.2⟩

end LineScript.Console
