import LineScript.Proofs.Console.Queue

/-! The queue of the console under any order of messages. As long as lines wait, a message to run
them is under way. The lines ever queued are those that were executed, in the order in which they
were, those that were dropped, and at the end those that wait. -/

namespace LineScript.Console

/-- What has become of a line that was queued. -/
inductive Fate where
  | executed
  | dropped
  | pending
  deriving DecidableEq

/-- The lines ever queued, in that order, each with what has become of it. -/
abbrev Ledger := List (Text × Fate)

namespace Ledger

def withFate (l : Ledger) (f : Fate) : List Text := (l.filter (·.2 = f)).map Prod.fst

def enqueue (l : Ledger) (lines : List Text) : Ledger := l ++ lines.map (·, .pending)

/-- The first line that waits has been executed. -/
def execute : Ledger → Ledger
  | [] => []
  | (line, .pending) :: rest => (line, .executed) :: rest
  | (line, f) :: rest => (line, f) :: execute rest

def drop (l : Ledger) : Ledger :=
  l.map fun entry => (entry.1, if entry.2 = .pending then .dropped else entry.2)

def Settled (l : Ledger) : Prop := ∀ entry ∈ l, entry.2 ≠ .pending

theorem map_fst_execute (l : Ledger) : l.execute.map Prod.fst = l.map Prod.fst := by
  fun_induction execute l with
  | case1 => rfl
  | case2 line rest => rfl
  | case3 line f rest _ ih => rw [List.map_cons, List.map_cons, ih]

theorem map_fst_drop (l : Ledger) : l.drop.map Prod.fst = l.map Prod.fst := by
  rw [drop, List.map_map]
  rfl

section Settled
variable {settled : Ledger} (h : Settled settled)
include h

theorem execute_append (line : Text) (rest : Ledger) :
    execute (settled ++ (line, .pending) :: rest) = settled ++ (line, .executed) :: rest := by
  induction settled with
  | nil => rfl
  | cons entry settled ih =>
    obtain ⟨t, f⟩ := entry
    obtain ⟨hf, hsettled⟩ := List.forall_mem_cons.1 h
    rw [List.cons_append, execute, ih hsettled]
    · rfl
    · exact hf

theorem drop_append (lines : List Text) :
    drop (settled ++ lines.map (·, .pending)) = settled ++ lines.map (·, .dropped) := by
  have hkept : drop settled = settled := by
    refine (List.map_congr_left fun entry hentry => ?_).trans (List.map_id _)
    rw [if_neg (h entry hentry)]
    rfl
  unfold drop at hkept ⊢
  rw [List.map_append, hkept, List.map_map]
  rfl

theorem settled_append_executed (line : Text) : Settled (settled ++ [(line, .executed)]) := by
  intro entry hentry
  rcases List.mem_append.1 hentry with hmem | hmem
  · exact h entry hmem
  · rw [List.mem_singleton.1 hmem]
    exact Fate.noConfusion

theorem settled_append_dropped (lines : List Text) :
    Settled (settled ++ lines.map (·, .dropped)) := by
  intro entry hentry
  rcases List.mem_append.1 hentry with hmem | hmem
  · exact h entry hmem
  · obtain ⟨line, _, rfl⟩ := List.mem_map.1 hmem
    exact Fate.noConfusion

end Settled

theorem withFate_append (a b : Ledger) (f : Fate) :
    withFate (a ++ b) f = withFate a f ++ withFate b f := by
  rw [withFate, List.filter_append, List.map_append, withFate, withFate]

theorem withFate_map_of_ne {f g : Fate} (h : g ≠ f) (lines : List Text) :
    withFate (lines.map (·, g)) f = [] := by
  rw [withFate, List.map_eq_nil_iff, List.filter_eq_nil_iff]
  intro entry hentry
  obtain ⟨line, _, rfl⟩ := List.mem_map.1 hentry
  simpa using h

theorem withFate_map_self (f : Fate) (lines : List Text) :
    withFate (lines.map (·, f)) f = lines := by
  rw [withFate, List.filter_eq_self.2, List.map_map]
  · exact List.map_id _
  · intro entry hentry
    obtain ⟨line, _, rfl⟩ := List.mem_map.1 hentry
    exact decide_eq_true rfl

theorem withFate_pending_of_settled {settled : Ledger} (h : Settled settled) :
    withFate settled .pending = [] := by
  rw [withFate, List.map_eq_nil_iff, List.filter_eq_nil_iff]
  intro entry hentry
  simpa using h entry hentry

end Ledger

/-- A console, the messages to run a line that are on their way to it, and a record of its queue.
These messages are all alike, so that their number is all there is to know. -/
structure World where
  console : Console := start
  underWay : Nat := 0
  queued : List Text := []
  ledger : Ledger := []
  /-- The lines that messages have executed, in that order, as the history shows them. -/
  executed : List Text := []

namespace World

/-- The inputs that a message to run a line adds to the history: that of the line, if one runs. -/
def shownBy (before after : Console) : Message → List Text
  | .runPending => ((after.history.drop before.history.length).take 1).map (·.input)
  | _ => []

/-- The ledger after a message: a fatal line and a reset drop the lines that wait. -/
def ledgerAfter (w : World) (files : FileTree) : Message → Ledger
  | .runPending =>
    match w.console.pending with
    | [] => w.ledger
    | line :: _ =>
      if (run w.console.engine line).2.isFatal then w.ledger.execute.drop else w.ledger.execute
  | m =>
    (if w.console.resets m then w.ledger.drop else w.ledger).enqueue (w.console.queuedBy files m)

/-- The console answers a message. One to run a line has then arrived, and one that the console asks
for is sent. -/
def answer (w : World) (files : FileTree) (m : Message) : World :=
  let result := w.console.update files m
  { console := result.1
    underWay := (if m = .runPending then w.underWay - 1 else w.underWay) +
      if result.2 = .runPending then 1 else 0
    queued := w.queued ++ w.console.queuedBy files m
    ledger := w.ledgerAfter files m
    executed := w.executed ++ shownBy w.console result.1 m }

def edit (w : World) (field : InputField) : World := { w with console := { w.console with field } }

/-- What can come of any order of messages, edits and changes to the files. A message to run a line
arrives only if one is under way. -/
inductive Reachable : World → Prop
  | start : Reachable {}
  | answer {w : World} (files : FileTree) (m : Message) :
    Reachable w → (m = .runPending → 0 < w.underWay) → Reachable (w.answer files m)
  | edit {w : World} (field : InputField) : Reachable w → Reachable (w.edit field)

/-- Waiting lines are awaited, and the ledger tells of every line what became of it: before the
lines that wait stand those that were executed, in the order in which they were, and those that were
dropped. -/
structure Accounted (w : World) : Prop where
  awaited : w.console.pending ≠ [] → 0 < w.underWay
  lines : w.ledger.map Prod.fst = w.queued
  order : ∃ settled, Ledger.Settled settled ∧
    w.ledger = settled ++ w.console.pending.map (·, .pending) ∧
    settled.withFate .executed = w.executed

theorem Accounted.run {w : World} (h : w.Accounted) (files : FileTree) :
    (w.answer files .runPending).Accounted := by
  have hupdate : w.console.update files .runPending = w.console.runNext := rfl
  have hqueued : w.console.queuedBy files .runPending = [] := rfl
  cases hpending : w.console.pending with
  | nil =>
    have hnext := runNext_of_nil hpending
    have hledger : w.ledgerAfter files .runPending = w.ledger := by
      simp only [ledgerAfter, hpending]
    have hshown : shownBy w.console w.console .runPending = [] := by simp [shownBy]
    refine ⟨?_, ?_, ?_⟩
    · simp only [World.answer, hupdate, hnext]
      exact fun hne => absurd hpending hne
    · simp only [World.answer, hledger, hqueued, List.append_nil, h.lines]
    · simp only [World.answer, hledger, hupdate, hnext, hshown, List.append_nil]
      exact h.order
  | cons line rest =>
    obtain ⟨hafter, heffect, entry, more, hentry, hhistory⟩ := runNext_of_cons hpending
    obtain ⟨settled, hsettled, hledger, hexecuted⟩ := h.order
    have hshown : shownBy w.console w.console.runNext.1 .runPending = [line] := by
      simp [shownBy, hhistory, hentry]
    have hnow : w.ledgerAfter files .runPending =
        if (Console.run w.console.engine line).2.isFatal then w.ledger.execute.drop
        else w.ledger.execute := by
      simp only [ledgerAfter, hpending]
    -- the first line of the queue is the first that waits in the ledger
    have hexecute : w.ledger.execute =
        (settled ++ [(line, .executed)]) ++ rest.map (·, .pending) := by
      rw [hledger, hpending, List.map_cons, Ledger.execute_append hsettled, List.append_assoc]
      rfl
    have hsettled' := Ledger.settled_append_executed hsettled line
    have hexecuted' : Ledger.withFate (settled ++ [(line, .executed)]) .executed =
        w.executed ++ [line] := by
      rw [Ledger.withFate_append, hexecuted]
      rfl
    refine ⟨?_, ?_, ?_⟩
    · simp only [World.answer, hupdate]
      intro hne
      rw [if_pos (heffect.2 hne)]
      omega
    · simp only [World.answer, hnow, hqueued, List.append_nil]
      split
      · rw [Ledger.map_fst_drop, Ledger.map_fst_execute, h.lines]
      · rw [Ledger.map_fst_execute, h.lines]
    · simp only [World.answer, hnow, hupdate, hafter, hshown]
      split
      · refine ⟨_, Ledger.settled_append_dropped hsettled' rest, ?_, ?_⟩
        · rw [hexecute, Ledger.drop_append hsettled', List.map_nil, List.append_nil]
        · rw [Ledger.withFate_append, hexecuted', Ledger.withFate_map_of_ne Fate.noConfusion,
            List.append_nil]
      · exact ⟨_, hsettled', hexecute, hexecuted'⟩

/-- A reset settles the lines that wait, and otherwise they go on waiting. -/
theorem Accounted.exists_settled_of_reset {w : World} (h : w.Accounted) (reset : Bool) :
    ∃ settled, Ledger.Settled settled ∧
      (if reset then w.ledger.drop else w.ledger) =
        settled ++ (if reset then [] else w.console.pending).map (·, .pending) ∧
      settled.withFate .executed = w.executed := by
  obtain ⟨settled, hsettled, hledger, hexecuted⟩ := h.order
  cases reset with
  | false => exact ⟨settled, hsettled, hledger, hexecuted⟩
  | true =>
    refine ⟨_, Ledger.settled_append_dropped hsettled w.console.pending, ?_, ?_⟩
    · rw [if_pos rfl, if_pos rfl, hledger, Ledger.drop_append hsettled, List.map_nil,
        List.append_nil]
    · rw [Ledger.withFate_append, Ledger.withFate_map_of_ne Fate.noConfusion, List.append_nil,
        hexecuted]

theorem Accounted.queue {w : World} (h : w.Accounted) (files : FileTree) {m : Message}
    (hm : m ≠ .runPending) : (w.answer files m).Accounted := by
  obtain ⟨hpending, heffect⟩ := queues_update files w.console hm
  have hledger : w.ledgerAfter files m =
      (if w.console.resets m then w.ledger.drop else w.ledger).enqueue
        (w.console.queuedBy files m) := by
    cases m with
    | runPending => exact absurd rfl hm
    | _ => rfl
  have hshown : shownBy w.console (w.console.update files m).1 m = [] := by
    cases m with
    | runPending => exact absurd rfl hm
    | _ => rfl
  refine ⟨?_, ?_, ?_⟩
  · simp only [World.answer, if_neg hm]
    rw [hpending]
    intro hne
    -- lines that wait were waiting before, or this message brought them and asks for another
    by_cases hlines : w.console.queuedBy files m = []
    · have hold : w.console.pending ≠ [] := by
        rw [hlines, List.append_nil] at hne
        split at hne
        · exact absurd rfl hne
        · exact hne
      exact Nat.add_pos_left (h.awaited hold) _
    · rw [if_pos (heffect.2 hlines)]
      exact Nat.succ_pos _
  · simp only [World.answer, hledger, Ledger.enqueue, List.map_append, List.map_map]
    refine congrArg₂ (· ++ ·) ?_ (List.map_id _)
    split
    · rw [Ledger.map_fst_drop, h.lines]
    · exact h.lines
  · obtain ⟨settled, hsettled, hreset, hexecuted⟩ := h.exists_settled_of_reset (w.console.resets m)
    refine ⟨settled, hsettled, ?_, ?_⟩
    · simp only [World.answer, hledger, Ledger.enqueue, hreset, hpending, List.map_append,
        List.append_assoc]
    · simp only [World.answer, hshown, List.append_nil, hexecuted]

theorem Reachable.accounted {w : World} (h : Reachable w) : w.Accounted := by
  induction h with
  | start => exact ⟨fun hne => absurd rfl hne, rfl, [], List.forall_mem_nil _, rfl, rfl⟩
  | @answer w files m _ _ ih =>
    by_cases hm : m = .runPending
    · subst hm
      exact ih.run files
    · exact ih.queue files hm
  | edit field _ ih => exact ⟨ih.awaited, ih.lines, ih.order⟩

end World

/-- The queue never stalls and loses no line. In every state that any order of messages leads to, a
message to run a line is under way if lines wait; and every line ever queued was executed, was
dropped by a reset or behind a fatal line, or waits. The executed ones were executed in the order in
which they were queued, and the lines that wait are the last of all. -/
theorem queue_safe {w : World} (reachable : w.Reachable) :
    (w.console.pending ≠ [] → 0 < w.underWay) ∧
    w.ledger.map Prod.fst = w.queued ∧
    w.ledger.withFate .executed = w.executed ∧
    w.ledger.withFate .pending = w.console.pending ∧
    ∃ settled, Ledger.Settled settled ∧
      w.ledger = settled ++ w.console.pending.map (·, .pending) := by
  obtain ⟨hawaited, hlines, settled, hsettled, hledger, hexecuted⟩ := reachable.accounted
  refine ⟨hawaited, hlines, ?_, ?_, settled, hsettled, hledger⟩
  · rw [hledger, Ledger.withFate_append, hexecuted, Ledger.withFate_map_of_ne Fate.noConfusion,
      List.append_nil]
  · rw [hledger, Ledger.withFate_append, Ledger.withFate_pending_of_settled hsettled,
      Ledger.withFate_map_self, List.nil_append]

/-- Three lines are pasted and two of them run, the second of which is fatal; then another line is
pasted. -/
theorem queue_safe_pasted :
    let files : FileTree := ⟨[], []⟩
    let first := World.answer {} files (.pasted "echo a\nlet int x = y\necho b\r\n".toList)
    let stopped := (first.answer files .runPending).answer files .runPending
    let w := stopped.answer files (.pasted "echo c\n".toList)
    w.Reachable ∧ w.console.pending = [Text.ofString "echo c"] ∧ 0 < w.underWay ∧
      w.ledger.withFate .executed = [Text.ofString "echo a", Text.ofString "let int x = y"] ∧
      w.ledger.withFate .dropped = [Text.ofString "echo b"] := by
  intro files first stopped w
  have hfirst : first.Reachable := .answer files _ .start Message.noConfusion
  have hnext : (first.answer files .runPending).Reachable :=
    .answer files _ hfirst fun _ => by decide +kernel
  have hstopped : stopped.Reachable := .answer files _ hnext fun _ => by decide +kernel
  have hw : w.Reachable := .answer files _ hstopped Message.noConfusion
  have hpending : w.console.pending = [Text.ofString "echo c"] := by decide +kernel
  obtain ⟨hawaited, _⟩ := queue_safe hw
  exact ⟨hw, hpending, hawaited (by simp [hpending]), by decide +kernel, by decide +kernel⟩

end LineScript.Console
