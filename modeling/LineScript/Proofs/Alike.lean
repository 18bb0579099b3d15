import LineScript.Proofs.Run

/-! Lines that mean the same. Two lines are alike if they are of one kind and echo the same text or
declare the same fields; a run cannot tell alike lines apart except by the columns it reports, and
it does not notice blank lines at the end of a script. -/

namespace LineScript

/-- Raw lines of one kind that print the same text or declare the same fields. -/
structure Line.Alike (a b : Text) : Prop where
  kind : classify a.trim = classify b.trim
  text : classify a.trim = .echo → a.trim = b.trim
  fields : classify a.trim = .declaration → fieldTexts a.trim = fieldTexts b.trim

/-- A failure and the number of its line, without the place within the line. -/
def Located.cause (l : Located) : Nat × EvalError := (l.line, l.error)

/-- Neither run fails, or both fail in lines of one number with the same error. -/
def EndAlike (f g : Option Failure) : Prop :=
  (f = none ∧ g = none) ∨
    ∃ a b : Located, f = some (.runtime a) ∧ g = some (.runtime b) ∧ a.cause = b.cause

theorem EndAlike.symm {f g : Option Failure} (h : EndAlike f g) : EndAlike g f := by
  rcases h with ⟨hf, hg⟩ | ⟨a, b, hf, hg, hcause⟩
  · exact Or.inl ⟨hg, hf⟩
  · exact Or.inr ⟨b, a, hg, hf, hcause.symm⟩

namespace Engine

/-- What an engine has come to: its variables and the counts of the lines that had an effect. -/
def tally (e : Engine) : Store × Nat × Nat × Nat :=
  (e.store, e.stats.echoes, e.stats.declarations, e.stats.diagnostics)

theorem count_alike {a b : Engine} (h : a.tally = b.tally) (s : Statement) :
    (a.count s).tally = (b.count s).tally := by
  simp only [tally, Prod.mk.injEq] at h ⊢
  obtain ⟨hstore, hechoes, hdeclarations, hdiagnostics⟩ := h
  cases s <;> simp [count, hstore, hechoes, hdeclarations, hdiagnostics]

end Engine

/-- Steps that lead to the same counts and variables, write the same and fail alike. -/
structure Step.Alike (x y : Step) : Prop where
  tally : x.engine.tally = y.engine.tally
  write : x.write = y.write
  diagnostic : x.diagnostic.map Located.cause = y.diagnostic.map Located.cause
  failure : EndAlike x.failure y.failure

namespace Engine

theorem echo_alike {a b : Engine} (h : a.tally = b.tally) (hline : a.line = b.line)
    (raw raw' line : Text) : (a.echo none raw line).Alike (b.echo none raw' line) := by
  have hstore : a.store = b.store := congrArg Prod.fst h
  simp only [echo, hstore]
  cases (b.store.expand (Line.echoText line)).error with
  | none => exact ⟨h, rfl, rfl, Or.inl ⟨rfl, rfl⟩⟩
  | some err =>
    have hcause (m n : Nat) : (Located.ofOffset a.line raw m err).cause =
        (Located.ofOffset b.line raw' n err).cause := by
      rw [hline]
      rfl
    dsimp only
    split
    · refine ⟨?_, rfl, congrArg some (hcause _ _), Or.inl ⟨rfl, rfl⟩⟩
      simp only [tally, Prod.mk.injEq] at h ⊢
      obtain ⟨hstore, hechoes, hdeclarations, hdiagnostics⟩ := h
      exact ⟨trivial, hechoes, hdeclarations, by rw [hdiagnostics]⟩
    · exact ⟨h, rfl, rfl, Or.inr ⟨_, _, rfl, rfl, hcause _ _⟩⟩

theorem declare_alike {a b : Engine} (h : a.tally = b.tally) (hline : a.line = b.line)
    (raw raw' : Text) {line line' : Text} (hf : Line.fieldTexts line = Line.fieldTexts line') :
    (a.declare raw line).Alike (b.declare raw' line') := by
  simp only [tally, Prod.mk.injEq] at h
  obtain ⟨hstore, hstats⟩ := h
  simp only [declare, hstore, b.store.assign_congr hf]
  cases b.store.assign line' with
  | ok store =>
    refine ⟨?_, rfl, rfl, Or.inl ⟨rfl, rfl⟩⟩
    simp only [tally, Prod.mk.injEq]
    exact ⟨trivial, hstats⟩
  | error err =>
    refine ⟨?_, rfl, rfl, Or.inr ⟨_, _, rfl, rfl, ?_⟩⟩
    · simp only [tally, Prod.mk.injEq]
      exact ⟨hstore, hstats⟩
    · simp only [Located.cause, Located.ofOffset, hline]

theorem exec_alike {a b : Engine} (h : a.tally = b.tally) (hline : a.line = b.line)
    {raw raw' : Text} (hraw : Line.Alike raw raw') :
    (a.exec none raw).Alike (b.exec none raw') := by
  have hcount (s : Statement) : (a.count s).line = (b.count s).line := by
    rw [count_line, count_line, hline]
  cases hkind : Line.classify raw.trim with
  | ignored =>
    rw [exec_ignored hkind, exec_ignored (hraw.kind ▸ hkind)]
    exact ⟨count_alike h .ignored, rfl, rfl, Or.inl ⟨rfl, rfl⟩⟩
  | echo =>
    rw [exec_echo hkind, exec_echo (hraw.kind ▸ hkind), ← hraw.text hkind]
    exact echo_alike (count_alike h .echo) (hcount .echo) raw raw' raw.trim
  | declaration =>
    rw [exec_declaration hkind, exec_declaration (hraw.kind ▸ hkind)]
    exact declare_alike (count_alike h .declaration) (hcount .declaration) raw raw'
      (hraw.fields hkind)

end Engine

namespace Session

/-- What a session shows: its output, its variables, the diagnostics without their columns, and the
counts of echoes, declarations and diagnostics. -/
def report (s : Session) : (Store × Nat × Nat × Nat) × List Text × List (Nat × EvalError) :=
  (s.engine.tally, s.writes, s.diagnostics.map Located.cause)

variable {sink : Sink}

theorem exec_alike (hsink : sink.IsSteady) {s t : Session} (h : s.report = t.report)
    (hline : s.engine.line = t.engine.line) {raw raw' : Text} (hraw : Line.Alike raw raw') :
    (s.exec sink raw).1.report = (t.exec sink raw').1.report ∧
      EndAlike (s.exec sink raw).2 (t.exec sink raw').2 := by
  simp only [report, Prod.mk.injEq] at h ⊢
  obtain ⟨htally, hwrites, hdiagnostics⟩ := h
  have step := Engine.exec_alike htally hline hraw
  simp only [exec_engine, exec_failure, exec_diagnostics, exec_writes hsink.1, hsink.1,
    List.map_append, hwrites, hdiagnostics, step.write]
  have hdiagnostic := step.diagnostic
  refine ⟨⟨step.tally, trivial, ?_⟩, step.failure⟩
  rw [← Option.toList_map, hdiagnostic, Option.toList_map]

/-- Runs over lines that are alike one by one show the same and end alike. -/
theorem runLines_alike (hsink : sink.IsSteady) {lines lines' : List Text}
    (hlines : List.Forall₂ Line.Alike lines lines') {s t : Session} (h : s.report = t.report)
    (hline : s.engine.line = t.engine.line) (hs : s.cancelled = false) (ht : t.cancelled = false) :
    (runLines sink s lines).1.report = (runLines sink t lines').1.report ∧
      EndAlike (runLines sink s lines).2 (runLines sink t lines').2 := by
  induction hlines generalizing s t with
  | nil => exact ⟨h, Or.inl ⟨rfl, rfl⟩⟩
  | @cons raw raw' lines lines' hraw _ ih =>
    obtain ⟨hreport, hend⟩ := exec_alike hsink h hline hraw
    -- both runs go on from sessions that show the same, or both stop at this line
    rcases hend with ⟨hf, hg⟩ | ⟨a, b, hf, hg, hcause⟩
    · rw [runLines_cons_of_none hs hf, runLines_cons_of_none ht hg]
      refine ih hreport ?_ ?_ ?_
      · rw [exec_engine, exec_engine, Engine.exec_line, Engine.exec_line, hline]
      · rw [exec_cancelled hsink, hs]
      · rw [exec_cancelled hsink, ht]
    · rw [runLines_cons_of_failure hs hf, runLines_cons_of_failure ht hg]
      exact ⟨hreport, Or.inr ⟨a, b, rfl, rfl, hcause⟩⟩

theorem runLines_blank (hsink : sink.IsSteady) {s : Session} (hs : s.cancelled = false) (k : Nat) :
    (runLines sink s (List.replicate k [])).1.report = s.report ∧
      (runLines sink s (List.replicate k [])).2 = none := by
  induction k generalizing s with
  | zero => exact ⟨rfl, rfl⟩
  | succ k ih =>
    have hstep : s.engine.exec none [] = { engine := s.engine.count .ignored } := rfl
    have hfailure : (s.exec sink []).2 = none := by rw [exec_failure, hsink.1, hstep]
    rw [List.replicate_succ, runLines_cons_of_none hs hfailure]
    have hcancelled : (s.exec sink []).1.cancelled = false := by rw [exec_cancelled hsink, hs]
    obtain ⟨hreport, hnone⟩ := ih hcancelled
    refine ⟨hreport.trans ?_, hnone⟩
    simp only [report, exec_engine, exec_writes hsink.1, exec_diagnostics, hsink.1, hstep]
    rfl

theorem runLines_append_blank (hsink : sink.IsSteady) {s : Session} (hs : s.cancelled = false)
    (lines : List Text) (k : Nat) :
    (runLines sink s (lines ++ List.replicate k [])).1.report = (runLines sink s lines).1.report ∧
      (runLines sink s (lines ++ List.replicate k [])).2 = (runLines sink s lines).2 := by
  cases h : (runLines sink s lines).2 with
  | some f => rw [runLines_append_of_failure h, h]; exact ⟨rfl, rfl⟩
  | none =>
    rw [runLines_append_of_none h]
    exact runLines_blank hsink (runLines_cancelled hsink s lines ▸ hs) k

/-- Scripts whose lines are alike one by one, up to blank ones at the end, show the same and end
alike. -/
theorem run_alike (hsink : sink.IsSteady) (s : Session) {script script' : Text}
    (hshort : ∀ line ∈ Lines.terminated script, line.length < s.engine.lineLimit)
    (hshort' : ∀ line ∈ Lines.terminated script', line.length < s.engine.lineLimit)
    {lines lines' : List Text} (hlines : List.Forall₂ Line.Alike lines lines')
    (hj : ∃ j, lines = (Lines.terminated script).map Lines.strip ++ List.replicate j [])
    (hk : ∃ k, lines' = (Lines.terminated script').map Lines.strip ++ List.replicate k []) :
    (s.run sink false script).1.report = (s.run sink false script').1.report ∧
      EndAlike (s.run sink false script).2 (s.run sink false script').2 := by
  obtain ⟨j, rfl⟩ := hj
  obtain ⟨k, rfl⟩ := hk
  rw [run_eq_runLines s sink hshort, run_eq_runLines s sink hshort']
  generalize hstart : { s with engine := { s.engine with line := 0 }, cancelled := false } = start
  have hcancelled : start.cancelled = false := by rw [← hstart]
  obtain ⟨hreport, hend⟩ := runLines_append_blank hsink hcancelled
    ((Lines.terminated script).map Lines.strip) j
  obtain ⟨hreport', hend'⟩ := runLines_append_blank hsink hcancelled
    ((Lines.terminated script').map Lines.strip) k
  rw [← hreport, ← hend, ← hreport', ← hend']
  exact runLines_alike hsink hlines rfl rfl hcancelled hcancelled

end Session

end LineScript
