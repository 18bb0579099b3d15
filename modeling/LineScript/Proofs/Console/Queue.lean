import LineScript.Console
import Mathlib.Data.List.Basic

/-! What one message does to the queue of the console. It appends the lines it brings, empties the
queue if it resets the console, or runs the first line. It asks for a message to run a line exactly
if it brought lines or ran one and left others behind. -/

namespace LineScript.Console

/-- The words of the command in the field, if what stands there is a command. -/
def commandWords (c : Console) : List Text :=
  let input := Text.trim c.field.text
  if input.head? = some Text.colon then Text.words input else []

/-- Whether the words of a command are those that reset the console. -/
def isReset : List Text → Bool
  | [] => false
  | word :: _ => word = Text.ofString ":reset" || word = Text.ofString ":r"

/-- The lines of the file that the words of a command ask for. -/
def loaded (files : FileTree) : List Text → List Text
  | [word, path] =>
    if word = ":load" ∨ word = ":l" then
      match files.readFile path with
      | .ok t => Lines.statements t
      | .error _ => []
    else []
  | _ => []

/-- The lines that a message brings: those of a paste over several lines, after what stands in the
field, or those of a file that is loaded. -/
def queuedBy (files : FileTree) (c : Console) : Message → List Text
  | .pasted chars =>
    if chars.any fun ch => ch = '\r' || ch = '\n' then
      Lines.statements (c.field.text ++ Text.ofChars chars)
    else []
  | .key .enter => loaded files c.commandWords
  | _ => []

def resets (c : Console) : Message → Bool
  | .key .enter => isReset c.commandWords
  | _ => false

theorem history_record (c : Console) (input : Text) :
    ∃ entry, entry.input = input ∧ (c.record input).1.history = c.history ++ [entry] :=
  ⟨_, rfl, rfl⟩

/-- What a message other than the one to run a line does to the queue and asks for. -/
structure Queues (c : Console) (reset : Bool) (lines : List Text) (answer : Console × Effect) :
    Prop where
  pending : answer.1.pending = (if reset then [] else c.pending) ++ lines
  effect : answer.2 = .runPending ↔ lines ≠ []

theorem Queues.idle {c : Console} {answer : Console × Effect}
    (hpending : answer.1.pending = c.pending) (heffect : answer.2 ≠ .runPending) :
    Queues c false [] answer :=
  ⟨by rw [hpending]; simp, by simp [heffect]⟩

theorem queues_pasteLines (c : Console) (chars : List Char) :
    Queues c false (Lines.statements (c.field.text ++ Text.ofChars chars))
      (c.pasteLines chars) := by
  refine ⟨rfl, ?_⟩
  simp only [pasteLines]
  split <;> simp [*]

theorem loaded_eq_nil (files : FileTree) {word : Text} (h : ¬ (word = ":load" ∨ word = ":l"))
    (arguments : List Text) : loaded files (word :: arguments) = [] := by
  unfold loaded
  split
  · rename_i heq
    obtain ⟨rfl, rfl⟩ := List.cons.inj heq
    rw [if_neg h]
  · rfl

theorem queues_load (files : FileTree) (c : Console) (input : Text) {word : Text}
    (h : word = ":load" ∨ word = ":l") (arguments : List Text) :
    Queues c false (loaded files (word :: arguments)) (load files c input arguments) := by
  unfold load
  split
  · rename_i path
    simp only [loaded, if_pos h]
    cases files.readFile path with
    | error e => exact Queues.idle rfl Effect.noConfusion
    | ok t =>
      refine ⟨rfl, ?_⟩
      dsimp only
      split <;> simp [*]
  · rename_i hpath
    have hnil : loaded files (word :: arguments) = [] := by
      cases arguments with
      | nil => rfl
      | cons path more =>
        cases more with
        | nil => exact absurd rfl (hpath path)
        | cons _ _ => rfl
    rw [hnil]
    exact Queues.idle rfl Effect.noConfusion

theorem Queues.idle_command {c : Console} (files : FileTree) {word : Text}
    (hreset : ¬ (word = ":reset" ∨ word = ":r")) (hload : ¬ (word = ":load" ∨ word = ":l"))
    (arguments : List Text) {answer : Console × Effect}
    (hpending : answer.1.pending = c.pending) (heffect : answer.2 ≠ .runPending) :
    Queues c (isReset (word :: arguments)) (loaded files (word :: arguments)) answer := by
  have hnot : isReset (word :: arguments) = false := by
    rw [not_or] at hreset
    simp [isReset, hreset.1, hreset.2]
  rw [hnot, loaded_eq_nil files hload]
  exact Queues.idle hpending heffect

/-- A command resets the queue or appends to it as its words say. -/
theorem queues_command (files : FileTree) (c : Console) (input : Text) :
    Queues c (isReset (Text.words input)) (loaded files (Text.words input))
      (command files c input) := by
  unfold command
  cases Text.words input with
  | nil => exact Queues.idle rfl Effect.noConfusion
  | cons word arguments =>
    dsimp only
    -- only the words for a reset and for a file touch the queue
    split_ifs with hhelp hclear hvars hreset hload hquit
    · refine Queues.idle_command files ?_ ?_ arguments rfl Effect.noConfusion <;>
        rcases hhelp with rfl | rfl <;> decide
    · refine Queues.idle_command files ?_ ?_ arguments rfl Effect.noConfusion <;>
        rcases hclear with rfl | rfl <;> decide
    · refine Queues.idle_command files ?_ ?_ arguments rfl Effect.noConfusion <;>
        rcases hvars with rfl | rfl <;> decide
    · have hyes : isReset (word :: arguments) = true := by
        rcases hreset with rfl | rfl <;> rfl
      have hload : ¬ (word = Text.ofString ":load" ∨ word = Text.ofString ":l") := by
        rcases hreset with rfl | rfl <;> decide
      rw [hyes, loaded_eq_nil files hload]
      exact ⟨rfl, by simp⟩
    · have hno : isReset (word :: arguments) = false := by
        rcases hload with rfl | rfl <;> rfl
      rw [hno]
      exact queues_load files c input hload arguments
    · exact Queues.idle_command files hreset hload arguments rfl Effect.noConfusion
    · exact Queues.idle_command files hreset hload arguments rfl Effect.noConfusion

theorem queues_enter (files : FileTree) (c : Console) :
    Queues c (isReset c.commandWords) (loaded files c.commandWords) (enter files c) := by
  simp only [enter, commandWords]
  by_cases hcolon : (Text.trim c.field.text).head? = some Text.colon
  · have hblank : Text.trim c.field.text ≠ [] := by
      intro hnil
      rw [hnil] at hcolon
      exact absurd hcolon (by simp)
    rw [if_pos hcolon, if_neg hblank, if_pos hcolon]
    obtain ⟨hpending, heffect⟩ := queues_command files c (Text.trim c.field.text)
    exact ⟨hpending, heffect⟩
  · rw [if_neg hcolon, if_neg hcolon]
    split
    · exact Queues.idle rfl Effect.noConfusion
    · exact Queues.idle rfl Effect.noConfusion

theorem pending_complete (c : Console) : c.complete.pending = c.pending := by
  unfold complete
  dsimp only
  repeat' split
  all_goals rfl

theorem pending_recallUp (c : Console) : c.recallUp.pending = c.pending := by
  unfold recallUp
  repeat' split
  all_goals rfl

theorem pending_recallDown (c : Console) : c.recallDown.pending = c.pending := by
  unfold recallDown
  repeat' split
  all_goals rfl

/-- What a message does to the queue, unless it runs a line. -/
theorem queues_update (files : FileTree) (c : Console) {m : Message} (h : m ≠ .runPending) :
    Queues c (c.resets m) (c.queuedBy files m) (c.update files m) := by
  cases m with
  | resize width height => exact Queues.idle rfl Effect.noConfusion
  | runPending => exact absurd rfl h
  | typed ch => exact Queues.idle rfl Effect.noConfusion
  | pasted chars =>
    simp only [update, queuedBy, resets]
    split
    · exact queues_pasteLines c chars
    · exact Queues.idle rfl Effect.noConfusion
  | key k =>
    cases k with
    | enter => exact queues_enter files c
    | up => exact Queues.idle (pending_recallUp c) Effect.noConfusion
    | down => exact Queues.idle (pending_recallDown c) Effect.noConfusion
    | tab => exact Queues.idle (pending_complete c) Effect.noConfusion
    | _ => exact Queues.idle rfl Effect.noConfusion

theorem runNext_of_nil {c : Console} (h : c.pending = []) : c.runNext = (c, .none) := by
  simp only [runNext, h]

/-- Running the first line takes it out of the queue, and with it the lines behind it if it is
fatal; it asks for a further message exactly if lines are left. -/
theorem runNext_of_cons {c : Console} {line : Text} {rest : List Text}
    (h : c.pending = line :: rest) :
    c.runNext.1.pending = (if (run c.engine line).2.isFatal then [] else rest) ∧
      (c.runNext.2 = .runPending ↔ c.runNext.1.pending ≠ []) ∧
      ∃ entry more, entry.input = line ∧ c.runNext.1.history = c.history ++ entry :: more := by
  let next := { c with pending := rest }.record line
  have hpending : next.1.pending = rest := rfl
  obtain ⟨entry, hentry, hhistory⟩ := history_record { c with pending := rest } line
  have hrun : c.runNext =
      if next.2.isFatal then
        if rest = [] then ({ next.1 with pending := [] }, .none)
        else (({ next.1 with pending := [] } : Console).log
          { output := Text.cat ["Stopped; ", Text.ofNat rest.length, " queued line(s) dropped"],
            isError := true }, .none)
      else (next.1, if rest = [] then .none else .runPending) := by
    unfold runNext
    rw [h]
  have houtcome : next.2 = (run c.engine line).2 := rfl
  rw [hrun, ← houtcome]
  split
  · split
    · exact ⟨rfl, by simp, entry, [], hentry, hhistory⟩
    · exact ⟨rfl, by simp [log], entry, _, hentry,
        (congrArg (· ++ [_]) hhistory).trans (List.append_assoc ..)⟩
  · refine ⟨hpending, ?_, entry, [], hentry, hhistory⟩
    by_cases hrest : rest = [] <;> simp [hpending, hrest]

end LineScript.Console
