import LineScript.Proofs.Composition

/-! What is done with an engine over its life: lines and scripts are executed, expressions are
evaluated, declarations are carried out apart from a script, texts are expanded, and the engine is
reset. Whatever one line, one declaration and one write keep is kept by all of it. -/

namespace LineScript

namespace Session

/-- The turns of a run that can also be cancelled from outside. -/
def turnsHalting (sink : Sink) (halts : Nat → Bool) : Session → List Text → List Turn
  | _, [] => []
  | s, raw :: rest =>
    if s.cancelled || halts s.engine.line then []
    else
      ⟨s, raw⟩ :: match s.exec sink raw with
        | (_, some _) => []
        | (s, none) => turnsHalting sink halts s rest

def runTurnsHalting (s : Session) (sink : Sink) (halts : Nat → Bool) (cancelled : Bool)
    (script : Text) : List Turn :=
  turnsHalting sink halts (s.atStart cancelled) (Lines.read s.engine.lineLimit script).lines

section Halting
variable {sink : Sink} {halts : Nat → Bool} {s : Session} {raw : Text}

theorem turnsHalting_of_stop (h : (s.cancelled || halts s.engine.line) = true)
    (lines : List Text) : turnsHalting sink halts s lines = [] := by
  cases lines with
  | nil => rfl
  | cons raw rest => rw [turnsHalting, if_pos h]

theorem turnsHalting_cons_of_failure (h : (s.cancelled || halts s.engine.line) = false)
    {f : Failure} (hf : (s.exec sink raw).2 = some f) (rest : List Text) :
    turnsHalting sink halts s (raw :: rest) = [⟨s, raw⟩] := by
  rw [turnsHalting, if_neg (by simp [h])]
  rcases hexec : s.exec sink raw with ⟨t, failure⟩
  rw [hexec] at hf
  cases hf
  rfl

theorem turnsHalting_cons_of_none (h : (s.cancelled || halts s.engine.line) = false)
    (hf : (s.exec sink raw).2 = none) (rest : List Text) :
    turnsHalting sink halts s (raw :: rest) =
      ⟨s, raw⟩ :: turnsHalting sink halts (s.exec sink raw).1 rest := by
  rw [turnsHalting, if_neg (by simp [h])]
  rcases hexec : s.exec sink raw with ⟨t, failure⟩
  rw [hexec] at hf
  cases hf
  rfl

/-- What relates the session before a line to all that follows relates the session before a run to
the session after it, by the turns in between. -/
theorem runLinesHalting_relates {related : Session → List Turn → Session → Prop}
    (refl : ∀ s, related s [] s)
    (step : ∀ s raw turns t, related (s.exec sink raw).1 turns t →
      related s (⟨s, raw⟩ :: turns) t) (s : Session) (lines : List Text) :
    related s (turnsHalting sink halts s lines) (runLinesHalting sink halts s lines).1 := by
  induction s, lines using exec_induction sink (fun s => s.cancelled || halts s.engine.line) with
  | nil s => exact refl s
  | stop s raw rest hgo =>
    rw [turnsHalting_of_stop hgo, runLinesHalting_of_stop hgo]
    exact refl s
  | fail s raw rest f hgo hf =>
    rw [turnsHalting_cons_of_failure hgo hf, runLinesHalting_cons_of_failure hgo hf]
    exact step s raw [] _ (refl _)
  | next s raw rest hgo hf ih =>
    rw [turnsHalting_cons_of_none hgo hf, runLinesHalting_cons_of_none hgo hf]
    exact step s raw _ _ ih

end Halting

inductive Action where
  | exec (raw : Text)
  /-- `halts` says while which lines the run is cancelled from outside. -/
  | run (halts : Nat → Bool) (cancelled : Bool) (script : Text)
  | evaluate (expr : Text)
  | assign (line : Text)
  /-- The expansion goes to the sink of the session, or else to some other one. -/
  | interpolate (shared : Bool) (t : Text)
  | reset

namespace Action

def isReset : Action → Bool
  | .reset => true
  | _ => false

/-- Whether the action hands a line to the sink without executing one. -/
def isSharedExpansion : Action → Bool
  | .interpolate shared _ => shared
  | _ => false

end Action

def perform (s : Session) (sink : Sink) : Action → Session
  | .exec raw => (s.exec sink raw).1
  | .run halts cancelled script => (s.runHalting sink halts cancelled script).1
  | .evaluate _ => s
  | .assign line => (s.assign line).1
  | .interpolate shared t => if shared then (s.interpolate sink t).1 else s
  | .reset => s.reset

def performAll (s : Session) (sink : Sink) (actions : List Action) : Session :=
  actions.foldl (·.perform sink ·) s

/-- The lines that an action executes. -/
def actionTurns (s : Session) (sink : Sink) : Action → List Turn
  | .exec raw => [⟨s, raw⟩]
  | .run halts cancelled script => s.runTurnsHalting sink halts cancelled script
  | _ => []

def history (sink : Sink) : Session → List Action → List Turn
  | _, [] => []
  | s, action :: rest => s.actionTurns sink action ++ history sink (s.perform sink action) rest

theorem performAll_append (s : Session) (sink : Sink) (before since : List Action) :
    s.performAll sink (before ++ since) = (s.performAll sink before).performAll sink since :=
  List.foldl_append

/-- A declaration apart from a script changes the variables alone. -/
theorem exists_assign (s : Session) (line : Text) :
    ∃ store, (s.assign line).1 = { s with engine := { s.engine with store } } := by
  unfold Session.assign
  split
  · exact ⟨_, rfl⟩
  · exact ⟨s.engine.store, rfl⟩

/-- A property of sessions that a line, a declaration, a write, the start of a run and a reset
keep. -/
structure Lasting (sink : Sink) (kept : Session → Prop) : Prop where
  exec : ∀ s raw, kept s → kept (s.exec sink raw).1
  start : ∀ s cancelled, kept s → kept (s.atStart cancelled)
  assign : ∀ s line, kept s → kept (s.assign line).1
  write : ∀ s t, kept s → kept (s.write sink t)
  reset : ∀ s, kept s → kept s.reset

namespace Lasting

variable {sink : Sink} {kept : Session → Prop}

theorem perform (h : Lasting sink kept) {s : Session} (hs : kept s) (action : Action) :
    kept (s.perform sink action) := by
  cases action with
  | exec raw => exact h.exec s raw hs
  | run halts cancelled script =>
    -- each line keeps the property, and so do the lines up to where the run ends
    let related : Session → List Turn → Session → Prop := fun s _ t => kept s → kept t
    have hline (s : Session) (raw : Text) (turns : List Turn) (t : Session)
        (hrest : related (s.exec sink raw).1 turns t) : related s (⟨s, raw⟩ :: turns) t :=
      fun hs => hrest (h.exec s raw hs)
    have hlines := @runLinesHalting_relates sink halts related (fun _ hs => hs) hline
      (s.atStart cancelled) (Lines.read s.engine.lineLimit script).lines
    exact hlines (h.start s cancelled hs)
  | evaluate expr => exact hs
  | assign line => exact h.assign s line hs
  | interpolate shared t =>
    cases shared with
    | true => exact h.write s _ hs
    | false => exact hs
  | reset => exact h.reset s hs

theorem performAll (h : Lasting sink kept) {s : Session} (hs : kept s) (actions : List Action) :
    kept (s.performAll sink actions) := by
  induction actions generalizing s with
  | nil => exact hs
  | cons action rest ih => exact ih (h.perform hs action)

end Lasting

end Session

end LineScript
