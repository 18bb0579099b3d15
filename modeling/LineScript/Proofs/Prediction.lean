import LineScript.Proofs.Lint

/-! The warnings of the linter say how a run ends. -/

namespace LineScript

theorem Store.evaluate_trim (s : Store) (expr : Text) : s.evaluate expr.trim = s.evaluate expr := by
  simp only [evaluate, Text.trim_trim]

/-- The warnings about a line that an engine executes foretell the step: it fails where the first
abort stands, or there is no abort and it reports what stands unterminated. -/
def Step.Foretold (step : Step) (number : Nat) (ws : List Warning) : Prop :=
  (step.failure = none ∧ ws.find? Warning.isAbort = none ∧
    step.diagnostic.toList.map Located.position =
      (ws.filter Warning.isUnterminated).map Warning.position) ∨
  ∃ place w, step.failure = some (.runtime place) ∧ place.line = number ∧
    step.diagnostic = none ∧ ws.find? Warning.isAbort = some w ∧ w.Announces place

namespace Lint

theorem find?_toWarning (notes : List Note) (number : Nat) (raw : Text) :
    (notes.map (·.toWarning number raw)).find? Warning.isAbort =
      (notes.find? (·.remark.isAbort)).map (·.toWarning number raw) := by
  rw [List.find?_map]
  rfl

theorem filter_toWarning (notes : List Note) (number : Nat) (raw : Text) :
    (notes.map (·.toWarning number raw)).filter Warning.isUnterminated =
      (notes.filter (·.remark.isUnterminated)).map (·.toWarning number raw) := by
  rw [List.filter_map]
  rfl

theorem foretold_of_mild {notes : List Note} (h : ∀ n ∈ notes, n.remark.IsMild) {step : Step}
    (hfailure : step.failure = none) (hdiagnostic : step.diagnostic = none) (number : Nat)
    (raw : Text) : step.Foretold number (notes.map (·.toWarning number raw)) := by
  have hfind : notes.find? (·.remark.isAbort) = none := by
    rw [List.find?_eq_none]
    intro n hn
    simp [(h n hn).1]
  have hfilter : notes.filter (·.remark.isUnterminated) = [] := by
    rw [List.filter_eq_nil_iff]
    intro n hn
    simp [(h n hn).2]
  refine Or.inl ⟨hfailure, ?_, ?_⟩
  · rw [find?_toWarning, hfind, Option.map_none]
  · rw [filter_toWarning, hfilter, hdiagnostic]
    rfl

theorem announces_aborts (number : Nat) (raw : Text) (offset : Nat) (e : EvalError) :
    (Note.toWarning ⟨offset, .aborts { e with offset := none }⟩ number raw).Announces
      (Located.ofOffset number raw offset e) := by
  refine ⟨rfl, rfl, ?_⟩
  simp only [Note.toWarning, Remark.message, EvalError.message_offset, Text.cat, List.flatten_cons,
    List.flatten_nil, List.append_nil]
  rfl

theorem foretold_echo {e : Engine} {raw : Text}
    (h : ∀ source ∈ (segments (Line.echoText raw.trim)).spans,
      e.store.evaluate (Text.trimWhite source) = e.store.evaluate source) :
    (e.echo none raw raw.trim).Foretold e.line
      ((echoNotes e.store (raw.indent + Line.echoKeyword.length) (Line.echoText raw.trim)).map
        (·.toWarning e.line raw)) := by
  have hfind := find?_echoNotes (raw.indent + Line.echoKeyword.length) h
  -- the engine looks at the failures of spans before it looks at an open one; so do the notes
  cases hf : e.store.failure? (Line.echoText raw.trim) with
  | some err =>
    obtain ⟨hfailure, hdiagnostic⟩ := Engine.echo_of_failure hf none raw
    rw [hf, Option.map_some] at hfind
    refine Or.inr ⟨_, _, hfailure, rfl, hdiagnostic, ?_, announces_aborts _ _ _ _⟩
    rw [find?_toWarning, hfind]
    rfl
  | none =>
    rw [hf, Option.map_none] at hfind
    cases hend : (segments (Line.echoText raw.trim)).error with
    | some err =>
      obtain ⟨hfailure, hdiagnostic⟩ := Engine.echo_of_unterminated hf hend none raw
      refine Or.inl ⟨hfailure, ?_, ?_⟩
      · rw [find?_toWarning, hfind, Option.map_none]
      · rw [filter_toWarning, filter_echoNotes, hend, hdiagnostic]
        rfl
    | none =>
      obtain ⟨hfailure, hdiagnostic⟩ := Engine.echo_of_terminated hf hend none raw
      refine Or.inl ⟨hfailure, ?_, ?_⟩
      · rw [find?_toWarning, hfind, Option.map_none]
      · rw [filter_toWarning, filter_echoNotes, hend, hdiagnostic]
        rfl

theorem foretold_declare (e : Engine) (raw : Text) :
    (e.declare raw raw.trim).Foretold e.line
      ((declarationNotes e.store raw.indent raw.trim).1.map (·.toWarning e.line raw)) := by
  simp only [declarationNotes]
  cases hremark : ignoredRemark? (Declaration.ofLine raw.trim) with
  | some r =>
    have hassign : e.store.assign raw.trim = .ok e.store := by
      rw [Store.assign, Declaration.run, effect?_of_ignoredRemark hremark]
    simp only [Engine.declare, hassign]
    refine foretold_of_mild ?_ rfl rfl e.line raw
    simp only [List.mem_singleton, forall_eq]
    exact mild_of_ignoredRemark hremark
  | none =>
    cases hassign : e.store.assign raw.trim with
    | ok store =>
      simp only [Engine.declare, hassign]
      exact foretold_of_mild (fun n => mild_of_mem_formNotes) rfl rfl e.line raw
    | error err =>
      have hoffset : err.offset = none := by
        obtain ⟨l, rfl⟩ := Store.assign_error hassign
        rfl
      have hforms : ∀ n ∈ formNotes (Declaration.ofLine raw.trim) raw.indent
          (Line.fields raw.trim).length, ¬ n.remark.isAbort = true := by
        intro n hn
        simp [(mild_of_mem_formNotes hn).1]
      simp only [Engine.declare, hassign]
      refine Or.inr ⟨_, _, rfl, rfl, rfl, ?_, announces_aborts e.line raw _ err⟩
      rw [find?_toWarning, List.find?_append, List.find?_eq_none.2 hforms, ← hoffset]
      rfl

/-- What the linter notes about a line foretells its execution, if the white space around the
spans of the line makes no difference. -/
theorem foretold_exec {e : Engine} {raw : Text}
    (h : ∀ source ∈ Line.spans raw,
      e.store.evaluate (Text.trimWhite source) = e.store.evaluate source) :
    (e.exec none raw).Foretold (e.line + 1)
      ((lineNotes e.store raw).1.map (·.toWarning (e.line + 1) raw)) := by
  simp only [lineNotes]
  split
  · rename_i hblank
    have hkind : Line.classify raw.trim = .ignored := by
      rw [hblank]
      rfl
    rw [Engine.exec_ignored hkind]
    exact Or.inl ⟨rfl, rfl, rfl⟩
  · cases hkind : Line.classify raw.trim with
    | ignored =>
      rw [Engine.exec_ignored hkind]
      exact Or.inl ⟨rfl, rfl, rfl⟩
    | echo =>
      rw [Line.spans, if_pos hkind] at h
      rw [Engine.exec_echo hkind]
      exact foretold_echo h
    | declaration =>
      rw [Engine.exec_declaration hkind]
      exact foretold_declare (e.count .declaration) raw

theorem warningsFrom_append_blank (number : Nat) (s : Store) (lines : List Text) (k : Nat) :
    warningsFrom number s [] (lines ++ List.replicate k []) = warningsFrom number s [] lines := by
  induction lines generalizing number s with
  | nil =>
    induction k generalizing number with
    | zero => rfl
    | succ k ih =>
      rw [List.replicate_succ, List.nil_append, warningsFrom_cons]
      exact ih (number + 1)
  | cons raw rest ih => rw [List.cons_append, warningsFrom_cons, warningsFrom_cons, ih]

end Lint

/-- Warnings foretell a run that reports at the given positions: it ends where the first abort
stands, or there is no abort and it does not fail, and until then it reports what stands
unterminated. -/
def RunForetold (reported : List (Nat × Nat)) (outcome : Option Failure) (ws : List Warning) :
    Prop :=
  (outcome = none ∧ ws.find? Warning.isAbort = none ∧
    reported = (ws.filter Warning.isUnterminated).map Warning.position) ∨
  ∃ place w, outcome = some (.runtime place) ∧ ws.find? Warning.isAbort = some w ∧
    w.Announces place ∧
    reported = ((ws.filter Warning.isUnterminated).filter (·.line < place.line)).map
      Warning.position

theorem filter_line_lt {ws : List Warning} {n m : Nat} (h : ∀ w ∈ ws, w.line = n) (hn : n < m) :
    ws.filter (·.line < m) = ws := by
  rw [List.filter_eq_self]
  intro w hw
  simpa [h w hw] using hn

theorem RunForetold.cons {step : Step} {number : Nat} {first others : List Warning}
    (hstep : step.Foretold number first) (hnone : step.failure = none)
    (hfirst : ∀ w ∈ first, w.line = number) (hothers : ∀ w ∈ others, number + 1 ≤ w.line)
    {reported : List (Nat × Nat)} {outcome : Option Failure}
    (h : RunForetold reported outcome others) :
    RunForetold (step.diagnostic.toList.map Located.position ++ reported) outcome
      (first ++ others) := by
  rcases hstep with ⟨_, hfind, hdiagnostic⟩ | ⟨place, w, hfailure, _⟩
  · rw [hdiagnostic]
    rcases h with ⟨houtcome, hfind', hreported⟩ | ⟨place, w, houtcome, hfind', hw, hreported⟩
    · refine Or.inl ⟨houtcome, ?_, ?_⟩
      · rw [List.find?_append, hfind, hfind', Option.or_none]
      · rw [List.filter_append, List.map_append, hreported]
    -- the abort stands on a later line, so that all warnings on this one count
    · have hline : number < place.line := by
        have hle := hothers w (List.mem_of_find?_eq_some hfind')
        rw [hw.1] at hle
        exact hle
      have hkept : ∀ w ∈ first.filter Warning.isUnterminated, w.line = number :=
        fun w hw => hfirst w (List.mem_filter.1 hw).1
      refine Or.inr ⟨place, w, houtcome, ?_, hw, ?_⟩
      · rw [List.find?_append, hfind, hfind', Option.none_or]
      · rw [List.filter_append, List.filter_append, filter_line_lt hkept hline, List.map_append,
          hreported]
  · rw [hnone] at hfailure
    exact absurd hfailure (by simp)

theorem RunForetold.of_failure {step : Step} {number : Nat} {first others : List Warning}
    (hstep : step.Foretold number first) {f : Failure} (hf : step.failure = some f)
    (hlines : ∀ w ∈ first ++ others, number ≤ w.line) :
    step.diagnostic = none ∧ RunForetold [] (some f) (first ++ others) := by
  rcases hstep with ⟨hnone, _⟩ | ⟨place, w, hfailure, hline, hdiagnostic, hfind, hw⟩
  · rw [hf] at hnone
    exact absurd hnone (by simp)
  · refine ⟨hdiagnostic, Or.inr ⟨place, w, hf.symm.trans hfailure, ?_, hw, ?_⟩⟩
    · rw [List.find?_append, hfind, Option.some_or]
    · have hlater : ((first ++ others).filter Warning.isUnterminated).filter
          (·.line < place.line) = [] := by
        rw [List.filter_eq_nil_iff]
        intro w hw
        have hle := hlines w (List.mem_filter.1 hw).1
        simp only [decide_eq_true_eq]
        omega
      rw [hlater, List.map_nil]

namespace Session

variable {sink : Sink}

/-- The warnings about lines foretell their run from the variables that the linter starts with. -/
theorem runLines_foretold (steady : sink.IsSteady) {lines : List Text}
    (h : ∀ raw ∈ lines, ∀ source ∈ Line.spans raw, Text.trimWhite source = source.trim)
    {s : Session} (hs : s.cancelled = false) :
    ∃ reported : List Diagnostic,
      (runLines sink s lines).1.diagnostics = reported.reverse ++ s.diagnostics ∧
      RunForetold (reported.map Located.position) (runLines sink s lines).2
        (Lint.warningsFrom (s.engine.line + 1) s.engine.store [] lines) := by
  induction lines generalizing s with
  | nil => exact ⟨[], rfl, Or.inl ⟨rfl, rfl, rfl⟩⟩
  | cons raw rest ih =>
    obtain ⟨hraw, hrest⟩ := List.forall_mem_cons.1 h
    let first := (Lint.lineNotes s.engine.store raw).1.map (·.toWarning (s.engine.line + 1) raw)
    have hstep : (s.engine.exec none raw).Foretold (s.engine.line + 1) first :=
      Lint.foretold_exec fun source hsource => by
        rw [hraw source hsource, Store.evaluate_trim]
    have hfirst : ∀ w ∈ first, w.line = s.engine.line + 1 := by
      intro w hw
      obtain ⟨n, _, rfl⟩ := List.mem_map.1 hw
      rfl
    rw [Lint.warningsFrom_cons]
    have hrefusal : sink.refusal s.attempts = none := steady.1 _
    have hdiagnostics := exec_diagnostics s sink raw
    rw [hrefusal] at hdiagnostics
    cases hf : (s.engine.exec none raw).failure with
    | some f =>
      have hexec : (s.exec sink raw).2 = some f := by rw [exec_failure, hrefusal, hf]
      have hlater : ∀ w ∈ Lint.warningsFrom (s.engine.line + 1 + 1) (s.engine.store.after raw) []
          rest, s.engine.line + 1 ≤ w.line :=
        fun w hw => (Nat.le_succ _).trans (Lint.le_line_of_mem_warningsFrom hw)
      obtain ⟨hdiagnostic, hforetold⟩ := RunForetold.of_failure hstep hf
        (List.forall_mem_append.2 ⟨fun w hw => (hfirst w hw).ge, hlater⟩)
      refine ⟨[], ?_, ?_⟩
      · rw [runLines_cons_of_failure hs hexec, hdiagnostics, hdiagnostic]
        rfl
      · rw [runLines_cons_of_failure hs hexec]
        exact hforetold
    | none =>
      have hexec : (s.exec sink raw).2 = none := by rw [exec_failure, hrefusal, hf]
      have hcancelled : (s.exec sink raw).1.cancelled = false := by rw [exec_cancelled steady, hs]
      obtain ⟨reported, hreported, hforetold⟩ := ih hrest hcancelled
      rw [exec_engine, hrefusal, Engine.exec_line, Engine.exec_store] at hforetold
      refine ⟨(s.engine.exec none raw).diagnostic.toList ++ reported, ?_, ?_⟩
      · rw [runLines_cons_of_none hs hexec, hreported, hdiagnostics, List.reverse_append]
        cases (s.engine.exec none raw).diagnostic <;> simp
      · rw [runLines_cons_of_none hs hexec, List.map_append]
        exact RunForetold.cons hstep hf hfirst (fun w => Lint.le_line_of_mem_warningsFrom) hforetold

end Session

/-- The only white space is blanks and the ends of lines, with or without a carriage return. -/
def Lines.PlainSpace (source : Text) : Prop :=
  (∀ x ∈ source.symbols, Text.isWhite x = true → x ∈ [' ', '\t', '\n', '\r'].map Symbol.char) ∧
    PairedReturns source

instance (source : Text) : Decidable (Lines.PlainSpace source) :=
  inferInstanceAs (Decidable (_ ∧ _))

theorem Lines.trimWhite_of_mem_spans {source raw expr : Text} (plain : PlainSpace source)
    (hraw : raw ∈ divided source) (hexpr : expr ∈ Line.spans raw) :
    Text.trimWhite expr = expr.trim := by
  have hbraced := Line.braced_of_mem_spans hexpr
  have hin : expr ⊆ raw := by
    intro b hb
    exact hbraced.subset (by simp [hb])
  have hlf : Text.lf ∉ expr := fun h => lf_not_mem_of_mem_divided hraw (hin h)
  have hcr : Text.cr ∉ expr := fun h => cr_not_mem_of_mem_divided plain.2 hraw (hin h)
  have hsource : raw <:+: source := by
    rw [← map_strip_splitOn plain.2] at hraw
    obtain ⟨piece, hpiece, rfl⟩ := List.mem_map.1 hraw
    exact (strip_isPrefix piece).isInfix.trans (infix_of_mem_splitOn hpiece)
  apply Text.trimWhite_eq_trim
  intro x hx hwhite
  have hmem := plain.1 x (Text.mem_symbols_of_braced hx (hbraced.trans hsource)) hwhite
  have hencode : x.encode ⊆ expr := by
    rw [← Text.ofSymbols_symbols expr]
    exact fun b hb => List.mem_flatMap.2 ⟨x, hx, hb⟩
  simp only [List.map_cons, List.map_nil, List.mem_cons, List.not_mem_nil, or_false] at hmem
  rcases hmem with rfl | rfl | rfl | rfl
  · exact Or.inl rfl
  · exact Or.inr rfl
  · exact absurd (hencode (by decide)) hlf
  · exact absurd (hencode (by decide)) hcr

/-- The warnings about a script foretell its run on a new engine. -/
theorem Session.run_foretold {globals : Store} {maxLine : Int} {e : Engine} {sink : Sink}
    {source : Text} (accepted : Engine.new globals maxLine = .ok e) (steady : sink.IsSteady)
    (plain : Lines.PlainSpace source)
    (short : ∀ line ∈ Lines.terminated source, line.length < e.lineLimit) :
    let result := Session.run { engine := e } sink false source
    RunForetold (result.1.diagnostics.reverse.map Located.position) result.2
      (lint globals source) := by
  intro result
  let start : Session := { engine := { e with line := 0 } }
  have hstore : start.engine.store = globals := (Engine.new_store accepted :)
  have hresult : result = runLines sink start ((Lines.terminated source).map Lines.strip) :=
    run_eq_runLines { engine := e } sink short
  -- the linter may see a blank line more than the run executes
  obtain ⟨k, hk⟩ := Lines.exists_divided_eq_append plain.2
  have hwarnings : lint globals source = Lint.warningsFrom 1 start.engine.store []
      ((Lines.terminated source).map Lines.strip) := by
    rw [hstore, ← Lint.warningsFrom_append_blank _ _ _ k, ← hk]
    rfl
  have hspans : ∀ raw ∈ (Lines.terminated source).map Lines.strip, ∀ expr ∈ Line.spans raw,
      Text.trimWhite expr = expr.trim := by
    intro raw hraw expr
    exact Lines.trimWhite_of_mem_spans plain (hk ▸ List.mem_append_left _ hraw)
  obtain ⟨places, hplaces, hforetold⟩ := runLines_foretold steady hspans (s := start) rfl
  rw [← hresult, List.append_nil] at hplaces
  rw [← hresult] at hforetold
  rw [hplaces, List.reverse_reverse, hwarnings]
  exact hforetold

/-- The linter predicts the run. The run fails to evaluate a line exactly if some warning is an
abort; the first of these then has its line, its column and its message. The diagnostics of the run
stand where the warnings on unterminated spans do, up to the line that fails if there is one. -/
theorem lint_predicts_run {globals : Store} {maxLine : Int} {e : Engine} {sink : Sink}
    {source : Text} (accepted : Engine.new globals maxLine = .ok e) (steady : sink.IsSteady)
    (plain : Lines.PlainSpace source)
    (short : ∀ line ∈ Lines.terminated source, line.length < e.lineLimit) :
    let result := Session.run { engine := e } sink false source
    let warnings := lint globals source
    let reported := result.1.diagnostics.reverse.map Located.position
    ((∃ place, result.2 = some (.runtime place)) ↔ ∃ w ∈ warnings, w.isAbort = true) ∧
    (∀ place, result.2 = some (.runtime place) →
      (∃ w, warnings.find? Warning.isAbort = some w ∧ w.line = place.line ∧
        w.column = place.column ∧
        w.remark.message = place.error.message ++ Text.ofString " (aborts the script)") ∧
      reported = ((warnings.filter Warning.isUnterminated).filter (·.line < place.line)).map
        Warning.position) ∧
    ((∀ place, result.2 ≠ some (.runtime place)) → result.2 = none ∧
      reported = (warnings.filter Warning.isUnterminated).map Warning.position) := by
  intro result warnings reported
  have hforetold : RunForetold reported result.2 warnings :=
    Session.run_foretold accepted steady plain short
  rcases hforetold with ⟨hnone, hfind, hreported⟩ | ⟨place, w, hfailure, hfind, hw, hreported⟩
  · refine ⟨⟨?_, ?_⟩, ?_, fun _ => ⟨hnone, hreported⟩⟩
    · rintro ⟨place, hplace⟩
      exact absurd (hnone.symm.trans hplace) (by simp)
    · rintro ⟨w, hw, habort⟩
      exact absurd habort (List.find?_eq_none.1 hfind w hw)
    · intro place hplace
      exact absurd (hnone.symm.trans hplace) (by simp)
  · refine ⟨⟨fun _ => ⟨w, List.mem_of_find?_eq_some hfind, List.find?_some hfind⟩,
      fun _ => ⟨place, hfailure⟩⟩, ?_, fun hnot => absurd hfailure (hnot place)⟩
    intro place' hplace
    obtain rfl : place = place' := by simpa using hfailure.symm.trans hplace
    exact ⟨⟨w, hfind, hw⟩, hreported⟩

/-- A script with a tab, a carriage return, an unterminated span, a line that ends the run and an
unterminated span that is not reached. -/
theorem lint_predicts_run_aborted :
    let e : Engine := { globals := Store.empty, lineLimit := 65536, store := Store.empty }
    let source : Text := "let string x = 4\r\n\techo \x7bx\x7d \x7b\n let int y = z w\necho \x7b"
    let result := Session.run { engine := e } {} false source
    Lines.PlainSpace source ∧ (∃ place, result.2 = some (.runtime place) ∧
      place.position = (3, 14)) ∧
      result.1.diagnostics.reverse.map Located.position = [(2, 11)] := by
  intro e source result
  have accepted : Engine.new Store.empty 1 = .ok e := rfl
  have steady : Sink.IsSteady {} := ⟨fun _ => rfl, fun _ => rfl⟩
  have plain : Lines.PlainSpace source := by decide
  have short : ∀ line ∈ Lines.terminated source, line.length < e.lineLimit := by decide
  have habort : (lint Store.empty source).find? Warning.isAbort =
      some ⟨3, 14, .aborts { cause := .literal .expectedDigits, source := "z" }⟩ := by
    decide +kernel
  obtain ⟨hiff, hplace, _⟩ := lint_predicts_run accepted steady plain short
  obtain ⟨place, hfailure⟩ := hiff.2 ⟨_, List.mem_of_find?_eq_some habort, rfl⟩
  obtain ⟨⟨w, hw, hline, hcolumn, _⟩, hreported⟩ := hplace place hfailure
  obtain rfl := Option.some.inj (hw.symm.trans habort)
  refine ⟨plain, ⟨place, hfailure, ?_⟩, ?_⟩
  · rw [Located.position, ← hline, ← hcolumn]
  · rw [← hline] at hreported
    rw [hreported]
    decide +kernel

end LineScript
