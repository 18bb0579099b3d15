import LineScript.Proofs.CleanLint
import LineScript.Proofs.Turns

/-! The variables that the linter holds. It replays the declarations of a script line by line, and
up to the line at which a run fails it holds what the run holds. -/

namespace LineScript

namespace Lint

/-- The variables that the linter holds after some lines. -/
def held (s : Store) (lines : List Text) : Store :=
  lines.foldl (fun s raw => (lineNotes s raw).2) s

theorem held_cons (s : Store) (raw : Text) (rest : List Text) :
    held s (raw :: rest) = held (s.after raw) rest := by
  rw [← lineNotes_store]
  rfl

/-- The warnings about one line of a script. -/
theorem filter_line_warningsFrom {number : Nat} {s : Store} {lines : List Text} {i : Nat}
    {raw : Text} (h : lines[i]? = some raw) :
    (warningsFrom number s [] lines).filter (·.line = number + i) =
      (lineNotes (held s (lines.take i)) raw).1.map (·.toWarning (number + i) raw) := by
  induction lines generalizing number s i with
  | nil => exact absurd h (by simp)
  | cons first rest ih =>
    rw [warningsFrom_cons, List.filter_append]
    cases i with
    | zero =>
      obtain rfl := Option.some.inj h
      have hlater : (warningsFrom (number + 1) (s.after first) [] rest).filter
          (·.line = number + 0) = [] := by
        refine List.filter_eq_nil_iff.2 fun w hw => ?_
        have hle := le_line_of_mem_warningsFrom hw
        simp only [decide_eq_true_eq]
        omega
      rw [hlater, List.append_nil, List.filter_eq_self.2]
      · rfl
      · intro w hw
        obtain ⟨n, -, rfl⟩ := List.mem_map.1 hw
        exact decide_eq_true rfl
    | succ i =>
      have hfirst : ((lineNotes s first).1.map (·.toWarning number first)).filter
          (·.line = number + (i + 1)) = [] := by
        refine List.filter_eq_nil_iff.2 fun w hw => ?_
        obtain ⟨n, -, rfl⟩ := List.mem_map.1 hw
        simp [Note.toWarning]
      rw [hfirst, List.nil_append, List.take_succ_cons, held_cons, Nat.add_comm i, ← Nat.add_assoc]
      exact ih (List.getElem?_cons_succ ▸ h)

theorem held_congr {lines lines' : List Text} (h : List.Forall₂ Line.Kin lines lines')
    (s : Store) : held s lines = held s lines' := by
  induction h generalizing s with
  | nil => rfl
  | cons hkin _ ih => rw [held_cons, held_cons, hkin.after, ih]

theorem held_append_blank (s : Store) (lines : List Text) (k : Nat) :
    held s (lines ++ List.replicate k []) = held s lines := by
  have hblanks (s : Store) : held s (List.replicate k []) = s := by
    induction k with
    | zero => rfl
    | succ k ih =>
      rw [List.replicate_succ, held_cons]
      exact ih
  rw [held, List.foldl_append]
  exact hblanks _

end Lint

theorem Engine.failure_exec_accepted {e : Engine} {raw : Text} {f : Failure}
    (h : (e.exec none raw).failure = some f) :
    ∃ place, f = .runtime place ∧ place.line = e.line + 1 := by
  cases hkind : Line.classify raw.trim with
  | ignored =>
    rw [exec_ignored hkind] at h
    exact absurd h (by simp)
  | echo =>
    rw [exec_echo hkind] at h
    cases hf : e.store.failure? (Line.echoText raw.trim) with
    | some err =>
      rw [(echo_of_failure (e := e.count .echo) hf none raw).1] at h
      exact ⟨_, (Option.some.inj h).symm, rfl⟩
    | none =>
      cases hend : (segments (Line.echoText raw.trim)).error with
      | some err =>
        rw [(echo_of_unterminated (e := e.count .echo) hf hend none raw).1] at h
        exact absurd h (by simp)
      | none =>
        rw [(echo_of_terminated (e := e.count .echo) hf hend none raw).1] at h
        exact absurd h (by simp)
  | declaration =>
    rw [exec_declaration hkind] at h
    cases hassign : e.store.assign raw.trim with
    | ok store =>
      rw [declare_of_ok (e := e.count .declaration) hassign] at h
      exact absurd h (by simp)
    | error err =>
      rw [declare_of_error (e := e.count .declaration) hassign] at h
      exact ⟨_, (Option.some.inj h).symm, rfl⟩

namespace Session

variable {sink : Sink} {s : Session} {lines : List Text}

/-- Before each of its turns, a run holds what the linter holds after the lines before it. -/
theorem getElem?_turns {k : Nat} {turn : Turn} (h : (turns sink s lines)[k]? = some turn) :
    lines[k]? = some turn.raw ∧ turn.session.engine.line = s.engine.line + k ∧
      turn.session.engine.store = Lint.held s.engine.store (lines.take k) := by
  induction s, lines using exec_induction sink (·.cancelled) generalizing k with
  | nil s => exact absurd h (by simp [turns])
  | stop s raw rest hs =>
    rw [turns_of_cancelled hs] at h
    exact absurd h (by simp)
  | fail s raw rest f hs hf =>
    rw [turns_cons_of_failure hs hf, List.getElem?_singleton] at h
    split at h
    · obtain rfl := Option.some.inj h
      subst k
      exact ⟨rfl, rfl, rfl⟩
    · exact absurd h (by simp)
  | next s raw rest hs hf ih =>
    rw [turns_cons_of_none hs hf] at h
    cases k with
    | zero =>
      obtain rfl := Option.some.inj h
      exact ⟨rfl, rfl, rfl⟩
    | succ k =>
      obtain ⟨hraw, hline, hstore⟩ := ih h
      rw [line_exec, Nat.add_right_comm, Nat.add_assoc] at hline
      rw [exec_store] at hstore
      exact ⟨hraw, hline, hstore.trans (Lint.held_cons ..).symm⟩

theorem turns_of_runLines_eq_none (h : (runLines sink s lines).2 = none) :
    (turns sink s lines).length = lines.length ∧
      (runLines sink s lines).1.engine.store = Lint.held s.engine.store lines := by
  induction s, lines using exec_induction sink (·.cancelled) with
  | nil s => exact ⟨rfl, rfl⟩
  | stop s raw rest hs =>
    rw [runLines_of_cancelled hs] at h
    exact absurd h (by simp)
  | fail s raw rest f hs hf =>
    rw [runLines_cons_of_failure hs hf] at h
    exact absurd h (by simp)
  | next s raw rest hs hf ih =>
    rw [runLines_cons_of_none hs hf] at h ⊢
    obtain ⟨hlength, hstore⟩ := ih h
    rw [turns_cons_of_none hs hf, List.length_cons, List.length_cons, hlength, hstore, exec_store,
      Lint.held_cons]
    exact ⟨rfl, rfl⟩

/-- A run into a steady sink fails at its last turn. -/
theorem turns_of_runLines_eq_some (steady : sink.IsSteady) (hs : s.cancelled = false) {f : Failure}
    (h : (runLines sink s lines).2 = some f) :
    ∃ place, f = .runtime place ∧ place.line = s.engine.line + (turns sink s lines).length := by
  induction s, lines using exec_induction sink (·.cancelled) with
  | nil s => exact absurd h (by simp [runLines])
  | stop s raw rest hstop => exact absurd (hs.symm.trans hstop) (by simp)
  | fail s raw rest g _ hf =>
    rw [runLines_cons_of_failure hs hf] at h
    obtain rfl := Option.some.inj h
    rw [turns_cons_of_failure hs hf]
    rw [exec_failure, steady.1] at hf
    exact Engine.failure_exec_accepted hf
  | next s raw rest _ hf ih =>
    rw [runLines_cons_of_none hs hf] at h
    obtain ⟨place, hplace, hline⟩ := ih (by rw [exec_cancelled steady, hs]) h
    refine ⟨place, hplace, ?_⟩
    rw [hline, line_exec, turns_cons_of_none hs hf, List.length_cons, Nat.add_right_comm,
      Nat.add_assoc]

end Session

theorem Lines.exists_divided_of_executed {source raw : Text} {k : Nat}
    (h : ((terminated source).map strip)[k]? = some raw) :
    ∃ line, (divided source)[k]? = some line ∧ withoutReturns line = withoutReturns raw := by
  obtain ⟨n, hn⟩ := exists_map_strip_append source
  have hsplit : ((source.splitOn Text.lf).map strip)[k]? = some raw := by
    rw [hn, List.getElem?_append_left (List.getElem?_eq_some_iff.1 h).1, h]
  have hsame := congrArg (·[k]?) (map_withoutReturns_strip source)
  rw [List.getElem?_map, hsplit, List.getElem?_map] at hsame
  exact Option.map_eq_some_iff.1 hsame.symm

/-- The linter judges each line by the variables that it holds before it, and these are what a run
of a new engine holds there, up to the line at which the run fails or else to the end. -/
theorem lint_holds_run_store {globals : Store} {maxLine : Int} {e : Engine} {sink : Sink}
    {source : Text} (accepted : Engine.new globals maxLine = .ok e) (steady : sink.IsSteady)
    (short : ∀ line ∈ Lines.terminated source, line.length < e.lineLimit) :
    let s : Session := { engine := e }
    let lines := Lines.divided source
    let turns := s.runTurns sink false source
    let result := s.run sink false source
    (∀ k raw, lines[k]? = some raw → (lint globals source).filter (·.line = k + 1) =
      (Lint.lineNotes (Lint.held globals (lines.take k)) raw).1.map (·.toWarning (k + 1) raw)) ∧
    (∀ k turn, turns[k]? = some turn → turn.session.engine.line = k ∧
      turn.session.engine.store = Lint.held globals (lines.take k) ∧
      ∃ line, lines[k]? = some line ∧
        Lines.withoutReturns line = Lines.withoutReturns turn.raw) ∧
    (result.2 = none → turns.length = (Lines.terminated source).length ∧
      result.1.engine.store = Lint.held globals lines) ∧
    ∀ f, result.2 = some f → ∃ place, f = .runtime place ∧ place.line = turns.length := by
  intro s lines turns result
  let start := s.atStart false
  let executed := (Lines.terminated source).map Lines.strip
  have hstore : start.engine.store = globals := (Engine.new_store accepted :)
  have hturns : turns = Session.turns sink start executed := by
    simp only [turns, Session.runTurns, executed, start]
    rw [Lines.read_eq short]
  have hresult : result = Session.runLines sink start executed :=
    Session.run_eq_runLines s sink short
  -- the linter may see a blank line more than the run executes
  obtain ⟨n, hn⟩ := Lines.exists_map_strip_append source
  have hkin : List.Forall₂ Line.Kin lines (executed ++ List.replicate n []) :=
    hn ▸ Lines.forall₂_kin_divided source
  refine ⟨fun k raw hraw => ?_, fun k turn hturn => ?_, fun hnone => ?_, fun f hf => ?_⟩
  · rw [Nat.add_comm k]
    exact Lint.filter_line_warningsFrom hraw
  · rw [hturns] at hturn
    obtain ⟨hraw, hline, hheld⟩ := Session.getElem?_turns hturn
    have hk : k < executed.length := (List.getElem?_eq_some_iff.1 hraw).1
    have htake := List.forall₂_take k hkin
    rw [List.take_append_of_le_length hk.le] at htake
    rw [hstore, ← Lint.held_congr htake] at hheld
    exact ⟨hline.trans (Nat.zero_add k), hheld, Lines.exists_divided_of_executed hraw⟩
  · rw [hresult] at hnone
    obtain ⟨hlength, hleft⟩ := Session.turns_of_runLines_eq_none hnone
    rw [hturns, hresult, hlength, hleft, hstore, Lint.held_congr hkin, Lint.held_append_blank]
    exact ⟨List.length_map .., rfl⟩
  · rw [hresult] at hf
    obtain ⟨place, hplace, hline⟩ := Session.turns_of_runLines_eq_some steady rfl hf
    rw [hturns]
    exact ⟨place, hplace, hline.trans (Nat.zero_add _)⟩

/-- A script with carriage returns within and at the ends of its lines, a declaration without effect
and a line that fails. Each line is judged by the variables that the run holds before it. -/
theorem lint_holds_run_store_returns :
    let e : Engine := { globals := Store.empty, lineLimit := 65536, store := Store.empty }
    let s : Session := { engine := e }
    let source : Text := "let int x = 4\r\r\r\nlet int\ry\r = 5\r\nlet void x = 6\nlet int z = w\n"
    let last : Text := "let int z = w"
    ∃ turn, (s.runTurns {} false source)[3]? = some turn ∧
      turn.session.engine.store = .ofList [("x", .int 4), ("y", .int 5)] ∧
      (lint Store.empty source).filter (·.line = 4) =
        (Lint.lineNotes turn.session.engine.store last).1.map (·.toWarning 4 last) ∧
      ∃ place, (s.run {} false source).2 = some (.runtime place) ∧ place.line = 4 := by
  intro e s source last
  have accepted : Engine.new Store.empty 1 = .ok e := rfl
  have steady : Sink.IsSteady {} := ⟨fun _ => rfl, fun _ => rfl⟩
  have short : ∀ line ∈ Lines.terminated source, line.length < e.lineLimit := by decide
  obtain ⟨hjudged, hheld, _, hfails⟩ := lint_holds_run_store accepted steady short
  have hlength : (s.runTurns {} false source).length = 4 := by decide +kernel
  obtain ⟨turn, hturn⟩ : ∃ turn, (s.runTurns {} false source)[3]? = some turn :=
    ⟨_, List.getElem?_eq_getElem (by rw [hlength]; decide)⟩
  obtain ⟨f, hf⟩ : ∃ f, (s.run {} false source).2 = some f :=
    Option.isSome_iff_exists.1 (by decide +kernel)
  obtain ⟨place, rfl, hplace⟩ := hfails f hf
  have hstore := (hheld 3 turn hturn).2.1
  refine ⟨turn, hturn, ?_, ?_, place, hf, hplace.trans hlength⟩
  · rw [hstore]
    decide +kernel
  · rw [hstore]
    exact hjudged 3 last (by decide +kernel)

end LineScript
