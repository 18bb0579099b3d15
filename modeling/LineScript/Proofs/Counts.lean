import LineScript.Proofs.Exec
import LineScript.Proofs.History
import LineScript.Proofs.LostOutput
import Mathlib.Algebra.Ring.Nat

/-! The counts of an engine. They are compared with what is seen from outside: the lines that have
been executed, the writes that these attempted, and the reports. Every line adds to the counts what
it does, however it ends, and nothing else adds to them; a reset starts all of them anew, and a run
only the number of the line. -/

namespace LineScript

/-- How many lines of a kind have been executed. -/
def Stats.ofKind (stats : Stats) : Statement → Nat
  | .ignored => stats.ignored
  | .echo => stats.echoes
  | .declaration => stats.declarations

namespace Engine

/-- The counts of an engine agree with each other, and a line has been counted by its number. -/
structure Balanced (e : Engine) : Prop where
  lines : e.stats.lines = e.stats.echoes + e.stats.declarations + e.stats.ignored
  diagnostics : e.stats.diagnostics ≤ e.stats.echoes
  line : e.line ≤ e.stats.lines

section Exec
variable (e : Engine) (refusal : Option Text) (raw : Text)

theorem write_exec_length :
    (e.exec refusal raw).write.toList.length =
      if Line.classify raw.trim = .echo then 1 else 0 := by
  cases hkind : Line.classify raw.trim with
  | ignored =>
    rw [exec_ignored hkind]
    rfl
  | echo =>
    rw [exec_echo hkind, write_echo]
    rfl
  | declaration =>
    rw [exec_declaration hkind, write_declare]
    rfl

theorem count_ofKind (e : Engine) (s kind : Statement) :
    (e.count s).stats.ofKind kind = e.stats.ofKind kind + if s = kind then 1 else 0 := by
  cases s <;> cases kind <;> rfl

theorem exec_counts :
    let stats := (e.exec refusal raw).engine.stats
    stats.lines = e.stats.lines + 1 ∧
    (∀ kind, stats.ofKind kind =
      e.stats.ofKind kind + if Line.classify raw.trim = kind then 1 else 0) ∧
    stats.diagnostics = e.stats.diagnostics + (e.exec refusal raw).diagnostic.toList.length := by
  rw [exec_engine]
  refine ⟨?_, fun kind => ?_, ?_⟩
  · cases Line.classify raw.trim <;> rfl
  · rw [← count_ofKind]
    cases kind <;> rfl
  · cases Line.classify raw.trim <;> rfl

theorem diagnostic_exec_length :
    (e.exec refusal raw).diagnostic.toList.length ≤
      if Line.classify raw.trim = .echo then 1 else 0 := by
  cases hkind : Line.classify raw.trim with
  | ignored =>
    rw [exec_ignored hkind]
    exact Nat.le_refl 0
  | echo =>
    -- whether the echo makes a report does not matter here: it makes at most one
    rw [if_pos rfl]
    cases (e.exec refusal raw).diagnostic with
    | none => exact Nat.zero_le 1
    | some d => exact Nat.le_refl 1
  | declaration =>
    rw [exec_declaration hkind, declare]
    split <;> exact Nat.le_refl 0

end Exec

theorem new_stats {globals : Store} {maxLine : Int} {e : Engine}
    (h : new globals maxLine = .ok e) : e.stats = {} ∧ e.Balanced := by
  obtain ⟨-, rfl⟩ := new_eq h
  exact ⟨rfl, rfl, Nat.le_refl 0, Nat.le_refl 0⟩

theorem Balanced.exec {e : Engine} (h : e.Balanced) (refusal : Option Text) (raw : Text) :
    (e.exec refusal raw).engine.Balanced := by
  obtain ⟨hlines, hkinds, hdiagnostics⟩ := e.exec_counts refusal raw
  have hreport := e.diagnostic_exec_length refusal raw
  have hechoes := hkinds .echo
  have hdeclarations := hkinds .declaration
  have hignored := hkinds .ignored
  simp only [Stats.ofKind] at hechoes hdeclarations hignored
  refine ⟨?_, ?_, ?_⟩
  · rw [hlines, hechoes, hdeclarations, hignored, h.lines]
    cases Line.classify raw.trim <;> simp only [reduceCtorEq, if_true, if_false] <;> omega
  · rw [hdiagnostics, hechoes]
    exact Nat.add_le_add h.diagnostics hreport
  · rw [exec_line, hlines]
    exact Nat.succ_le_succ h.line

end Engine

namespace Session

theorem lasting_balanced (sink : Sink) : Lasting sink fun s => s.engine.Balanced where
  exec s raw hs := by
    rw [exec_engine]
    exact hs.exec _ raw
  start s cancelled hs := ⟨hs.lines, hs.diagnostics, Nat.zero_le _⟩
  assign s line hs := by
    obtain ⟨store, hassign⟩ := exists_assign s line
    rw [hassign]
    exact ⟨hs.lines, hs.diagnostics, hs.line⟩
  write s t hs := hs
  reset s hs := ⟨rfl, Nat.le_refl 0, Nat.le_refl 0⟩

/-- How many writes a turn attempts. -/
def Turn.attempts (sink : Sink) (turn : Turn) : Nat :=
  (turn.session.exec sink turn.raw).1.attempts - turn.session.attempts

/-- How many of the turns are of a kind. -/
def countKind (kind : Statement) (turns : List Turn) : Nat :=
  turns.countP fun turn => Line.classify turn.raw.trim = kind

theorem countKind_append (kind : Statement) (a b : List Turn) :
    countKind kind (a ++ b) = countKind kind a + countKind kind b := List.countP_append

theorem attempts_turn (sink : Sink) (turn : Turn) :
    turn.attempts sink = if Line.classify turn.raw.trim = .echo then 1 else 0 := by
  rw [Turn.attempts, exec_attempts, Engine.write_exec_length, Nat.add_sub_cancel_left]

/-- A turn attempts a write exactly if it is an echo. -/
theorem sum_attempts (sink : Sink) (turns : List Turn) :
    (turns.map (·.attempts sink)).sum = countKind .echo turns := by
  induction turns with
  | nil => rfl
  | cons turn turns ih =>
    rw [List.map_cons, List.sum_cons, ih, attempts_turn, countKind, countKind, List.countP_cons,
      Nat.add_comm]
    simp only [decide_eq_true_eq]

/-- Between two sessions the counts grow by the given turns, and the writes by the given number
besides. -/
structure Counted (s : Session) (turns : List Turn) (expansions : Nat) (t : Session) : Prop where
  lines : t.engine.stats.lines = s.engine.stats.lines + turns.length
  kinds : ∀ kind, t.engine.stats.ofKind kind = s.engine.stats.ofKind kind + countKind kind turns
  attempts : t.attempts = s.attempts + countKind .echo turns + expansions
  reports : t.diagnostics.length + s.engine.stats.diagnostics =
    s.diagnostics.length + t.engine.stats.diagnostics

namespace Counted

variable {s t u : Session} {a b : List Turn} {m n : Nat}

theorem refl (s : Session) : Counted s [] 0 s := ⟨rfl, fun _ => rfl, rfl, rfl⟩

theorem trans (h : Counted s a m t) (h' : Counted t b n u) : Counted s (a ++ b) (m + n) u := by
  refine ⟨?_, fun kind => ?_, ?_, ?_⟩
  · rw [h'.lines, h.lines, List.length_append, Nat.add_assoc]
  · rw [h'.kinds, h.kinds, countKind_append, Nat.add_assoc]
  · rw [h'.attempts, h.attempts, countKind_append]
    omega
  · have hfirst := h.reports
    have hsecond := h'.reports
    omega

theorem exec (s : Session) (sink : Sink) (raw : Text) :
    Counted s [⟨s, raw⟩] 0 (s.exec sink raw).1 := by
  obtain ⟨hlines, hkinds, hdiagnostics⟩ := s.engine.exec_counts (sink.refusal s.attempts) raw
  have hcount (kind : Statement) : countKind kind [⟨s, raw⟩] =
      if Line.classify raw.trim = kind then 1 else 0 := by
    rw [countKind, List.countP_singleton]
    simp only [decide_eq_true_eq]
  refine ⟨?_, fun kind => ?_, ?_, ?_⟩
  · rw [exec_engine, hlines]
    rfl
  · rw [exec_engine, hkinds, hcount]
  · rw [exec_attempts, Engine.write_exec_length, hcount]
    rfl
  · rw [exec_diagnostics, exec_engine, hdiagnostics, List.length_append]
    omega

theorem runLinesHalting (sink : Sink) (halts : Nat → Bool) (s : Session) (lines : List Text) :
    Counted s (turnsHalting sink halts s lines) 0 (runLinesHalting sink halts s lines).1 :=
  @runLinesHalting_relates sink halts (fun s turns t => Counted s turns 0 t) refl
    (fun s raw _ _ hrest => (exec s sink raw).trans hrest) s lines

theorem perform (s : Session) (sink : Sink) {action : Action} (h : action.isReset = false) :
    Counted s (s.actionTurns sink action) (if action.isSharedExpansion then 1 else 0)
      (s.perform sink action) := by
  cases action with
  | exec raw => exact exec s sink raw
  | run halts cancelled script =>
    have hstart : Counted s [] 0 (s.atStart cancelled) := ⟨rfl, fun _ => rfl, rfl, rfl⟩
    exact hstart.trans (runLinesHalting sink halts _ _)
  | evaluate expr => exact refl s
  | assign line =>
    obtain ⟨store, hassign⟩ := exists_assign s line
    rw [Session.perform, hassign]
    exact ⟨rfl, fun _ => rfl, rfl, rfl⟩
  | interpolate shared t =>
    cases shared with
    | true => exact ⟨rfl, fun _ => rfl, rfl, rfl⟩
    | false => exact refl s
  | reset => exact absurd h (by decide)

theorem performAll (s : Session) (sink : Sink) {actions : List Action}
    (h : ∀ action ∈ actions, action.isReset = false) :
    Counted s (history sink s actions) (actions.countP (·.isSharedExpansion))
      (s.performAll sink actions) := by
  induction actions generalizing s with
  | nil => exact refl s
  | cons action rest ih =>
    obtain ⟨hfirst, hrest⟩ := List.forall_mem_cons.1 h
    -- the action comes first in the history, but last in the count of the list
    rw [List.countP_cons, Nat.add_comm]
    exact (perform s sink hfirst).trans (ih _ hrest)

end Counted

/-- The actions up to the last reset, and that reset. -/
def untilReset (actions : List Action) : List Action := actions.rdropWhile fun a => !a.isReset

/-- The actions after the last reset. -/
def sinceReset (actions : List Action) : List Action := actions.rtakeWhile fun a => !a.isReset

theorem stats_untilReset {s : Session} (h : s.engine.stats = {}) (sink : Sink)
    (actions : List Action) : (s.performAll sink (untilReset actions)).engine.stats = {} := by
  by_cases hnil : untilReset actions = []
  · rw [hnil]
    exact h
  · have hlast : ¬ (!((untilReset actions).getLast hnil).isReset) = true :=
      List.rdropWhile_last_not _ actions hnil
    rw [← List.dropLast_append_getLast hnil, performAll_append]
    generalize (untilReset actions).getLast hnil = last at hlast
    cases last with
    | reset => rfl
    | _ => exact (hlast rfl).elim

end Session

/-- Whatever has been done with an engine, its counts say what has happened since it was new or last
reset. The lines are those executed, each under its kind. The echoes are the writes that these
attempted, refused ones among them; expansions outside of lines add to the writes alone. The
diagnostics are the reports made, at most one for an echo. The number of the line is at most the
number of lines. The runs among the actions are ordinary ones, unless they are cancelled from
outside. -/
theorem counts_since_reset {globals : Store} {maxLine : Int} {e : Engine}
    (accepted : Engine.new globals maxLine = .ok e) (sink : Sink)
    (actions : List Session.Action) :
    let s : Session := { engine := e }
    let start := s.performAll sink (Session.untilReset actions)
    let since := Session.sinceReset actions
    let now := s.performAll sink actions
    let turns := Session.history sink start since
    let stats := now.engine.stats
    stats.lines = stats.echoes + stats.declarations + stats.ignored ∧
    stats.lines = turns.length ∧
    (∀ kind, stats.ofKind kind = Session.countKind kind turns) ∧
    stats.echoes = (turns.map (·.attempts sink)).sum ∧
    now.attempts = start.attempts + stats.echoes + since.countP (·.isSharedExpansion) ∧
    now.diagnostics.length = start.diagnostics.length + stats.diagnostics ∧
    stats.diagnostics ≤ stats.echoes ∧ now.engine.line ≤ stats.lines ∧
    ∀ (t : Session) cancelled script,
      t.perform sink (.run (fun _ => false) cancelled script) = (t.run sink cancelled script).1 := by
  intro s start since now turns stats
  obtain ⟨hstats, hnew⟩ := Engine.new_stats accepted
  have hbalanced : now.engine.Balanced := (Session.lasting_balanced sink).performAll hnew actions
  have hstart : start.engine.stats = {} := Session.stats_untilReset hstats sink actions
  have hnow : now = start.performAll sink since := by
    have hsplit : Session.untilReset actions ++ since = actions :=
      List.rdropWhile_append_rtakeWhile
    rw [← Session.performAll_append, hsplit]
  have hcounted : Session.Counted start turns (since.countP (·.isSharedExpansion)) now := by
    rw [hnow]
    refine Session.Counted.performAll start sink fun action haction => ?_
    simpa using List.mem_rtakeWhile_imp haction
  obtain ⟨hlines, hkinds, hattempts, hreports⟩ := hcounted
  simp only [hstart] at hlines hkinds hreports
  have hechoes : stats.echoes = Session.countKind .echo turns :=
    (hkinds .echo).trans (Nat.zero_add _)
  refine ⟨hbalanced.lines, hlines.trans (Nat.zero_add _), fun kind => ?_, ?_, ?_, hreports,
    hbalanced.diagnostics, hbalanced.line, fun t cancelled script => ?_⟩
  · rw [hkinds kind]
    cases kind <;> exact Nat.zero_add _
  · rw [hechoes, Session.sum_attempts]
  · rw [hattempts, hechoes]
  · rw [Session.perform, Session.runHalting_never]

/-- A reset, an expansion between two runs, a refused echo that leaves a span open, a run that is
cancelled behind it, and a line that fails. -/
theorem counts_since_reset_cancelled :
    let e : Engine := { globals := Store.empty, lineLimit := 1048576, store := Store.empty }
    let sink : Sink := { refusal := fun n => if n = 2 then some "sink closed" else none }
    let actions : List Session.Action := [.exec "echo a", .reset, .interpolate true "b",
      .run (fun i => i = 2) false "\necho \x7bx\necho c", .exec "let int y = z"]
    Engine.new Store.empty 0 = .ok e ∧
      (Session.performAll { engine := e } sink actions).engine.stats = ⟨3, 1, 1, 1, 1⟩ ∧
      (Session.sinceReset actions).countP (·.isSharedExpansion) = 1 ∧
      (Session.performAll { engine := e } sink actions).attempts =
        (Session.performAll { engine := e } sink (Session.untilReset actions)).attempts +
          (Session.performAll { engine := e } sink actions).engine.stats.echoes +
          (Session.sinceReset actions).countP (·.isSharedExpansion) ∧
      (Session.performAll { engine := e } sink actions).diagnostics.length =
        (Session.performAll { engine := e } sink (Session.untilReset actions)).diagnostics.length +
          (Session.performAll { engine := e } sink actions).engine.stats.diagnostics := by
  intro e sink actions
  have accepted : Engine.new Store.empty 0 = .ok e := by decide +kernel
  have hstats : (Session.performAll { engine := e } sink actions).engine.stats =
      ⟨3, 1, 1, 1, 1⟩ := by decide +kernel
  have hexpansions : (Session.sinceReset actions).countP (·.isSharedExpansion) = 1 := by
    decide +kernel
  obtain ⟨-, -, -, -, hattempts, hreports, -⟩ := counts_since_reset accepted sink actions
  exact ⟨accepted, hstats, hexpansions, hattempts, hreports⟩

end LineScript
