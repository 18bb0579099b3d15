import LineScript.Proofs.Console.Queue
import LineScript.Proofs.Exec
import LineScript.Proofs.Turns

/-! Loading a script into the console and running it come to the same. The console runs the lines
that wait one by one, up to the first that is fatal; a run executes the same lines and blank ones
between them, up to the first that fails. Line by line the two agree on what is fatal and on what an
echo prints, and they leave the same variables. -/

namespace LineScript

/-- What a line does, apart from the places it points at and from what is counted. -/
def Step.gist (step : Step) : Store × Option Text × Bool × Bool :=
  (step.engine.store, step.write, step.diagnostic.isSome, step.failure.isSome)

namespace Engine

variable {a b : Engine} (h : a.store = b.store)
include h

theorem echo_gist (refusal : Option Text) (raw raw' line : Text) :
    (a.echo refusal raw line).gist = (b.echo refusal raw' line).gist := by
  simp only [echo, h]
  split
  · cases refusal <;> simp [Step.gist, h]
  · split <;> simp [Step.gist, h]

theorem declare_gist (raw raw' line : Text) :
    (a.declare raw line).gist = (b.declare raw' line).gist := by
  simp only [declare, h]
  split
  · rfl
  · simp [Step.gist, h]

/-- What a line does depends on the variables and on the trimmed line. -/
theorem exec_gist (refusal : Option Text) {raw raw' : Text} (htrim : raw.trim = raw'.trim) :
    (a.exec refusal raw).gist = (b.exec refusal raw').gist := by
  have hcount (kind : Statement) : (a.count kind).store = (b.count kind).store := h
  cases hkind : Line.classify raw.trim with
  | ignored =>
    rw [exec_ignored hkind, exec_ignored (htrim ▸ hkind)]
    exact Prod.ext h rfl
  | echo =>
    rw [exec_echo hkind, exec_echo (htrim ▸ hkind), htrim]
    exact echo_gist (hcount .echo) refusal raw raw' raw'.trim
  | declaration =>
    rw [exec_declaration hkind, exec_declaration (htrim ▸ hkind), htrim]
    exact declare_gist (hcount .declaration) raw raw' raw'.trim

end Engine

theorem Text.dropLastByte_concat (b : UInt8) (t : Text) : dropLastByte b (t ++ [b]) = t := by
  rw [dropLastByte, if_pos (List.getLast?_concat ..), List.dropLast_concat]

namespace Console

/-- A queued line and what came of it. -/
structure Execution where
  line : Text
  outcome : Outcome

def Execution.entry (x : Execution) : HistoryEntry :=
  ⟨x.line, x.outcome.output, x.outcome.isError⟩

/-- Runs lines in order, up to the first that is fatal. -/
def runAll : Engine → List Text → Engine × List Execution
  | e, [] => (e, [])
  | e, line :: rest =>
    if (run e line).2.isFatal then ((run e line).1, [⟨line, (run e line).2⟩])
    else
      let after := runAll (run e line).1 rest
      (after.1, ⟨line, (run e line).2⟩ :: after.2)

/-- What the history says about lines that are dropped behind a fatal one. -/
def stopEntries (dropped : Nat) : List HistoryEntry :=
  if dropped = 0 then []
  else [{ output := Text.cat ["Stopped; ", Text.ofNat dropped, " queued line(s) dropped"],
          isError := true }]

/-- The console after its first waiting line has run. -/
def ranFirst (c : Console) (line : Text) (rest : List Text) : Console :=
  { c with
    engine := (run c.engine line).1
    pending := rest
    history := c.history ++ [Execution.entry ⟨line, (run c.engine line).2⟩] }

section RunNext
variable {c : Console} {line : Text} {rest : List Text} (h : c.pending = line :: rest)
include h

theorem runNext_of_fatal (hfatal : (run c.engine line).2.isFatal = true) :
    c.runNext = ({ c.ranFirst line [] with
      history := (c.ranFirst line []).history ++ stopEntries rest.length }, .none) := by
  have houtcome : (record { c with pending := rest } line).2.isFatal = true := hfatal
  simp only [runNext, h, if_pos houtcome]
  cases rest with
  | nil =>
    rw [if_pos rfl, stopEntries, List.length_nil, if_pos rfl, List.append_nil]
    rfl
  | cons next rest =>
    rw [if_neg (List.cons_ne_nil _ _), stopEntries, List.length_cons, if_neg (Nat.succ_ne_zero _)]
    rfl

theorem runNext_of_not_fatal (hfatal : (run c.engine line).2.isFatal = false) :
    c.runNext = (c.ranFirst line rest, if rest = [] then .none else .runPending) := by
  have houtcome : (record { c with pending := rest } line).2.isFatal = false := hfatal
  simp only [runNext, h, houtcome]
  rfl

end RunNext

theorem runAll_of_fatal {e : Engine} {line : Text} (h : (run e line).2.isFatal = true)
    (rest : List Text) : runAll e (line :: rest) = ((run e line).1, [⟨line, (run e line).2⟩]) := by
  rw [runAll, if_pos h]

theorem runAll_of_not_fatal {e : Engine} {line : Text} (h : (run e line).2.isFatal = false)
    (rest : List Text) :
    runAll e (line :: rest) =
      ((runAll (run e line).1 rest).1, ⟨line, (run e line).2⟩ :: (runAll (run e line).1 rest).2) := by
  rw [runAll, if_neg (by simp [h])]

theorem deliver_of_none {c c' : Console} (h : c.runNext = (c', .none)) (fuel delivered : Nat) :
    deliver (fuel + 1) delivered c = (c', delivered + 1) := by
  rw [deliver, h]

theorem deliver_of_runPending {c c' : Console} (h : c.runNext = (c', .runPending))
    (fuel delivered : Nat) :
    deliver (fuel + 1) delivered c = deliver fuel (delivered + 1) c' := by
  rw [deliver, h]

/-- The console after the given lines have run one by one, without those that then wait. -/
def ranAll (c : Console) (lines : List Text) : Console :=
  { c with
    engine := (runAll c.engine lines).1
    pending := []
    history := c.history ++ (runAll c.engine lines).2.map Execution.entry ++
      stopEntries (lines.length - (runAll c.engine lines).2.length) }

theorem ranAll_nil {c : Console} (h : c.pending = []) : c.ranAll [] = c := by
  obtain ⟨field, engine, pending, history⟩ := c
  obtain rfl : pending = [] := h
  simp [ranAll, runAll, stopEntries]

theorem ranAll_of_fatal {c : Console} {line : Text}
    (h : (run c.engine line).2.isFatal = true) (rest : List Text) :
    c.ranAll (line :: rest) = { c.ranFirst line [] with
      history := (c.ranFirst line []).history ++ stopEntries rest.length } := by
  rw [ranAll, runAll_of_fatal h]
  rfl

theorem ranAll_of_not_fatal {c : Console} {line : Text}
    (h : (run c.engine line).2.isFatal = false) (rest : List Text) :
    c.ranAll (line :: rest) = (c.ranFirst line rest).ranAll rest := by
  rw [ranAll, runAll_of_not_fatal h, ranAll, ranFirst]
  simp

/-- Delivering messages until none is asked for runs the lines that wait. -/
theorem deliver_eq_ranAll {lines : List Text} {fuel : Nat} (hfuel : lines.length < fuel)
    {c : Console} (h : c.pending = lines) (delivered : Nat) :
    (deliver fuel delivered c).1 = c.ranAll lines := by
  induction lines generalizing fuel c delivered with
  | nil =>
    obtain ⟨fuel, rfl⟩ := Nat.exists_eq_add_one_of_ne_zero (Nat.ne_zero_of_lt hfuel)
    rw [deliver_of_none (runNext_of_nil h), ranAll_nil h]
  | cons line rest ih =>
    obtain ⟨fuel, rfl⟩ := Nat.exists_eq_add_one_of_ne_zero (Nat.ne_zero_of_lt hfuel)
    cases hfatal : (run c.engine line).2.isFatal with
    | true => rw [deliver_of_none (runNext_of_fatal h hfatal), ranAll_of_fatal hfatal]
    | false =>
      have hnext := runNext_of_not_fatal h hfatal
      rw [ranAll_of_not_fatal hfatal]
      split at hnext
      · rename_i hrest
        subst hrest
        rw [deliver_of_none hnext, ranAll_nil rfl]
      · rw [deliver_of_runPending hnext]
        exact ih (Nat.lt_of_succ_lt_succ hfuel) rfl (delivered + 1)

theorem drain_enqueue {c : Console} (h : c.pending = []) (script : Text) :
    (c.enqueue script).drain.1 = c.ranAll (Lines.statements script) := by
  have hpending : (c.enqueue script).pending = Lines.statements script := by
    rw [enqueue, h, List.nil_append]
  rw [drain, hpending, deliver_eq_ranAll (Nat.lt_succ_self _) hpending]
  rfl

/-- A line of a run and a queued line agree: they are one statement, fatal in both or in neither,
and an echo without errors prints what the run writes. -/
structure Agrees (sink : Sink) (turn : Session.Turn) (x : Execution) : Prop where
  line : x.line = turn.raw.trim
  fatal : x.outcome.isFatal = true ↔ (turn.step sink).failure ≠ none
  output : Line.classify x.line = .echo → (turn.step sink).failure = none →
    (turn.step sink).diagnostic = none →
    (turn.step sink).write = some (x.outcome.output ++ [Text.lf])

theorem isFatal_statementOutcome (input : Text) (step : Step) :
    (statementOutcome input step).isFatal = step.failure.isSome := by
  unfold statementOutcome
  cases hf : step.failure with
  | some f => cases f <;> rfl
  | none =>
    cases step.diagnostic with
    | some d => rfl
    | none => dsimp only; split <;> rfl

theorem output_statementOutcome {input : Text} {step : Step} (hfailure : step.failure = none)
    (hdiagnostic : step.diagnostic = none) (hkind : Line.classify input = .echo) :
    (statementOutcome input step).output = (step.write.getD []).dropLastByte Text.lf := by
  simp only [statementOutcome, hfailure, hdiagnostic, hkind]

theorem run_of_ignored {e : Engine} {input : Text} (h : Line.classify input = .ignored) :
    (run e input).1 = e ∧ (run e input).2.isFatal = false := by
  simp only [run, h]
  split <;> exact ⟨rfl, rfl⟩

theorem run_of_statement (e : Engine) {input : Text} (h : Line.classify input ≠ .ignored) :
    run e input = ((e.exec none input).engine, statementOutcome input (e.exec none input)) := by
  unfold run
  cases hkind : Line.classify input with
  | ignored => exact absurd hkind h
  | echo => rfl
  | declaration => rfl

section Simulation
variable {sink : Sink} (steady : sink.IsSteady)
include steady

/-- A line agrees with its trimmed form in the queue, and both leave the same variables. -/
theorem agrees_run (turn : Session.Turn) {e : Engine}
    (h : e.store = turn.session.engine.store) :
    Agrees sink turn ⟨turn.raw.trim, (run e turn.raw.trim).2⟩ ∧
      (run e turn.raw.trim).1.store = (turn.step sink).engine.store := by
  have hstep : turn.step sink = turn.session.engine.exec none turn.raw := by
    rw [Session.Turn.step, steady.1]
  rw [hstep]
  by_cases hkind : Line.classify turn.raw.trim = .ignored
  · obtain ⟨hengine, hfatal⟩ := run_of_ignored (e := e) hkind
    have hignored := Engine.exec_ignored hkind turn.session.engine none
    rw [hengine, hignored]
    refine ⟨⟨rfl, ?_, fun hecho => ?_⟩, h⟩
    · rw [hfatal, hstep, hignored]
      simp
    · exact absurd (hkind.symm.trans hecho) (by decide)
  · have hgist := Engine.exec_gist h none (Text.trim_trim turn.raw)
    simp only [Step.gist, Prod.mk.injEq] at hgist
    obtain ⟨hstore, hwrite, hdiagnostic, hfailure⟩ := hgist
    rw [run_of_statement e hkind]
    refine ⟨⟨rfl, ?_, fun hecho hnone hclean => ?_⟩, hstore⟩
    · rw [isFatal_statementOutcome, hfailure, hstep, Option.isSome_iff_ne_none]
    · -- the console runs the trimmed line, which neither fails nor is reported
      rw [hstep] at hnone hclean
      rw [hnone] at hfailure
      rw [hclean] at hdiagnostic
      have htrimmed : Line.classify turn.raw.trim.trim = .echo := by
        rw [Text.trim_trim]
        exact hecho
      have hprinted := Engine.write_echo (e.count .echo) none turn.raw.trim turn.raw.trim.trim
      rw [← Engine.exec_echo htrimmed] at hprinted
      rw [output_statementOutcome (Option.not_isSome_iff_eq_none.1 (by simp [hfailure]))
        (Option.not_isSome_iff_eq_none.1 (by simp [hdiagnostic])) hecho, hstep, ← hwrite, hprinted,
        Option.getD_some, Text.dropLastByte_concat]

/-- Running trimmed lines without the blank ones agrees with a run over the lines. -/
theorem runAll_agrees (lines : List Text) {s : Session} (hs : s.cancelled = false) {e : Engine}
    (h : e.store = s.engine.store) :
    (runAll e ((lines.map Text.trim).filter (· ≠ []))).1.store =
        (Session.runLines sink s lines).1.engine.store ∧
      List.Forall₂ (Agrees sink) ((Session.turns sink s lines).filter (·.raw.trim ≠ []))
        (runAll e ((lines.map Text.trim).filter (· ≠ []))).2 ∧
      ((∃ x ∈ (runAll e ((lines.map Text.trim).filter (· ≠ []))).2, x.outcome.isFatal = true) ↔
        (Session.runLines sink s lines).2 ≠ none) := by
  induction lines generalizing s e with
  | nil => exact ⟨h, .nil, by simp [Session.runLines, runAll]⟩
  | cons raw rest ih =>
    have hcancelled : (s.exec sink raw).1.cancelled = false := by
      rw [Session.exec_cancelled steady, hs]
    rw [List.map_cons]
    by_cases hblank : raw.trim = []
    -- a run ignores a blank line, and the queue does not hold it
    · have hignored : s.engine.exec (sink.refusal s.attempts) raw =
          { engine := s.engine.count .ignored } :=
        Engine.exec_ignored (by rw [hblank]; rfl) _ _
      have hexec : (s.exec sink raw).2 = none := by rw [Session.exec_failure, hignored]
      have hstore : e.store = (s.exec sink raw).1.engine.store := by
        rw [Session.exec_engine, hignored]
        exact h
      rw [Session.runLines_cons_of_none hs hexec, Session.turns_cons_of_none hs hexec,
        List.filter_cons_of_neg (by simp [hblank]), List.filter_cons_of_neg (by simp [hblank])]
      exact ih hcancelled hstore
    · obtain ⟨hagrees, hrun⟩ := agrees_run steady ⟨s, raw⟩ h
      have hstore : (run e raw.trim).1.store = (s.exec sink raw).1.engine.store := by
        rw [Session.exec_engine]
        exact hrun
      have hfatal : (run e raw.trim).2.isFatal = true ↔ (s.exec sink raw).2 ≠ none :=
        hagrees.fatal
      rw [List.filter_cons_of_pos (by simp [hblank])]
      cases hexec : (s.exec sink raw).2 with
      | some f =>
        have hyes : (run e raw.trim).2.isFatal = true := hfatal.2 (by simp [hexec])
        rw [Session.runLines_cons_of_failure hs hexec, Session.turns_cons_of_failure hs hexec,
          List.filter_cons_of_pos (by simp [hblank]), runAll_of_fatal hyes]
        exact ⟨hstore, .cons hagrees .nil, by simp [hyes]⟩
      | none =>
        have hno : (run e raw.trim).2.isFatal = false := by
          rw [Bool.eq_false_iff]
          exact fun hyes => hfatal.1 hyes hexec
        obtain ⟨hlast, hturns, hend⟩ := ih hcancelled hstore
        rw [Session.runLines_cons_of_none hs hexec, Session.turns_cons_of_none hs hexec,
          List.filter_cons_of_pos (by simp [hblank]), runAll_of_not_fatal hno]
        refine ⟨hlast, .cons hagrees hturns, ?_⟩
        rw [← hend]
        simp [hno]

end Simulation

theorem statements_eq_filter {script : Text} (h : Lines.PairedReturns script) :
    Lines.statements script =
      ((((Lines.terminated script).map Lines.strip).map Text.trim).filter (· ≠ [])) := by
  obtain ⟨k, hk⟩ := Lines.exists_divided_eq_append h
  have hblank : ((List.replicate k []).map Text.trim).filter (· ≠ []) = [] := by
    rw [List.map_replicate, List.filter_replicate]
    rfl
  rw [Lines.statements, Lines.universal_eq_divided h, hk, List.map_append, List.filter_append,
    hblank, List.append_nil]

/-- Loading a script agrees with running it. Queueing its lines in an idle console and delivering
messages until none is asked for leaves no line waiting and the variables that a run from the same
variables leaves. The lines executed, as the history shows them, agree one by one with the lines of
the run that are not blank, and the run fails exactly if one of them is fatal, as the line of the run
that agrees with it does. -/
theorem load_agrees_with_run {c : Console} {s : Session} {sink : Sink} {script : Text}
    (idle : c.pending = []) (same : s.engine.store = c.engine.store) (steady : sink.IsSteady)
    (paired : Lines.PairedReturns script)
    (short : ∀ line ∈ Lines.terminated script, line.length < s.engine.lineLimit) :
    let loaded := (c.enqueue script).drain.1
    let ran := s.run sink false script
    let turns := s.runTurns sink false script
    let executed := (runAll c.engine (Lines.statements script)).2
    loaded.pending = [] ∧
    loaded.history = c.history ++ executed.map Execution.entry ++
      stopEntries ((Lines.statements script).length - executed.length) ∧
    loaded.engine.store = ran.1.engine.store ∧
    List.Forall₂ (Agrees sink) (turns.filter (·.raw.trim ≠ [])) executed ∧
    ((∃ x ∈ executed, x.outcome.isFatal = true) ↔ ran.2 ≠ none) ∧
    ∀ turn ∈ turns, ∀ f, (turn.step sink).failure = some f → ran.2 = some f := by
  intro loaded ran turns executed
  have hloaded : loaded = c.ranAll (Lines.statements script) := drain_enqueue idle script
  have hlines : (Lines.read s.engine.lineLimit script).lines =
      (Lines.terminated script).map Lines.strip := by rw [Lines.read_eq short]
  have hran : ran = Session.runLines sink (s.atStart false)
      ((Lines.terminated script).map Lines.strip) := Session.run_eq_runLines s sink short
  have hturns : turns = Session.turns sink (s.atStart false)
      ((Lines.terminated script).map Lines.strip) := by
    rw [← hlines]
    rfl
  obtain ⟨hstore, hagree, hfatal⟩ := runAll_agrees steady
    ((Lines.terminated script).map Lines.strip) (s := s.atStart false) rfl same.symm
  rw [← statements_eq_filter paired, ← hran] at hstore hfatal
  rw [← statements_eq_filter paired, ← hturns] at hagree
  rw [hloaded]
  refine ⟨rfl, rfl, hstore, hagree, hfatal, fun turn hturn f hf => ?_⟩
  rw [hran]
  exact Session.runLines_of_mem_turns (hturns ▸ hturn) hf

/-- A script with a blank line, an expression, an echo, an unterminated span, a declaration that
fails and an echo behind it. -/
theorem load_agrees_with_run_stopped :
    let script : Text :=
      " let int x = 4\r\n\nx\n\techo \x7bx\x7d!\necho \x7bx\n let int x = y\necho never\n"
    let s : Session :=
      { engine := { globals := Store.empty, lineLimit := 65536, store := Store.empty } }
    (start.enqueue script).drain.1.engine.store = (s.run {} false script).1.engine.store ∧
      (s.run {} false script).2 ≠ none ∧
      (start.enqueue script).drain.1.history.map (·.input) =
        ["let int x = 4", "x", "echo \x7bx\x7d!", "echo \x7bx", "let int x = y", ""].map
          Text.ofString := by
  intro script s
  have steady : Sink.IsSteady {} := ⟨fun _ => rfl, fun _ => rfl⟩
  have paired : Lines.PairedReturns script := by decide
  have short : ∀ line ∈ Lines.terminated script, line.length < s.engine.lineLimit := by decide
  have same : s.engine.store = start.engine.store := rfl
  obtain ⟨_, hhistory, hstore, _, hfatal, _⟩ :=
    load_agrees_with_run (c := start) rfl same steady paired short
  refine ⟨hstore, hfatal.1 ?_, ?_⟩
  · decide +kernel
  · rw [hhistory]
    decide +kernel

end Console

end LineScript
