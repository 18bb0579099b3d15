import LineScript.Proofs.Bindings
import LineScript.Proofs.Counts
import LineScript.Proofs.LineLimit
import LineScript.Proofs.Numeral
import LineScript.Proofs.Unparse

/-! The lines of the output. Variables that hold no line feed never come to hold one, since what is
declared is a field of one line. Neither does an expansion have one, whether it fails or not: it is
made of bytes of the line and of values. Hence an echo writes one line, and nothing else writes. -/

namespace LineScript

/-- A text that ends in a line feed and has no other. -/
def Text.IsLine (t : Text) : Prop := ∃ body, t = body ++ [lf] ∧ lf ∉ body

theorem Text.IsLine.count_lf {t : Text} (h : t.IsLine) : t.count lf = 1 := by
  obtain ⟨body, rfl, hbody⟩ := h
  rw [List.count_append, List.count_eq_zero_of_not_mem hbody, List.count_singleton_self]

theorem Text.count_lf_flatten {lines : List Text} (h : ∀ t ∈ lines, t.IsLine) :
    lines.flatten.count lf = lines.length := by
  induction lines with
  | nil => rfl
  | cons t lines ih =>
    obtain ⟨ht, hlines⟩ := List.forall_mem_cons.1 h
    rw [List.flatten_cons, List.count_append, ht.count_lf, ih hlines, List.length_cons,
      Nat.add_comm]

theorem Piece.subset_unparse_literal (t : Text) : t ⊆ (Piece.literal t).unparse := by
  intro b hb
  refine List.mem_flatMap.2 ⟨b, hb, ?_⟩
  split <;> simp

theorem Piece.subset_unparse_span (source : Text) : source ⊆ (Piece.span source).unparse := by
  rw [Piece.unparse_span]
  exact fun b hb => List.mem_append_left _ (List.mem_cons_of_mem _ hb)

theorem DeclaredType.eq_of_read_string {type : DeclaredType} {value t : Text}
    (h : type.read value = .ok (.string t)) : t = value := by
  cases type with
  | int => cases hint : Literal.int value <;> simp [read, hint, Except.map] at h
  | float => cases hfloat : Literal.float value <;> simp [read, hfloat, Except.map] at h
  | string =>
    simp only [read, Except.ok.injEq, Value.string.injEq] at h
    exact h.symm
  | boolean => simp [read] at h

namespace Store

/-- No string in the store has a line feed in it. -/
def IsSingleLine (s : Store) : Prop := ∀ name t, s.get? name = some (.string t) → Text.lf ∉ t

end Store

theorem Value.lf_not_mem_text {v : Value} (h : ∀ t, v = .string t → Text.lf ∉ t) :
    Text.lf ∉ v.text := by
  by_cases hstring : ∃ t, v = .string t
  · obtain ⟨t, rfl⟩ := hstring
    exact h t rfl
  · intro hmem
    have hspace := isSpace_of_mem_text (fun t ht => hstring ⟨t, ht⟩) Text.lf hmem
    exact absurd hspace (by decide)

theorem lf_not_mem_of_evaluateUnbound {t : Text} (ht : Text.lf ∉ t) {v : Value}
    (h : evaluateUnbound t = .ok v) : Text.lf ∉ v.text := by
  apply Value.lf_not_mem_text
  rintro u rfl
  unfold evaluateUnbound at h
  -- only the last rule yields a string, and that is the text itself
  repeat' split at h
  all_goals cases h
  exact ht

namespace Store

variable {s : Store}

theorem IsSingleLine.evaluate (hs : s.IsSingleLine) {expr : Text} (hexpr : Text.lf ∉ expr)
    {v : Value} (h : s.evaluate expr = .ok v) : Text.lf ∉ v.text := by
  have htrim : Text.lf ∉ expr.trim := fun hlf => hexpr ((Text.trim_isInfix expr).subset hlf)
  cases hget : s.get? expr.trim with
  | some w =>
    rw [evaluate_of_get? hget] at h
    obtain rfl := Except.ok.inj h
    exact Value.lf_not_mem_text fun t ht => hs _ t (ht ▸ hget)
  | none =>
    rw [evaluate_of_unbound hget] at h
    exact lf_not_mem_of_evaluateUnbound htrim h

theorem IsSingleLine.expandFrom (hs : s.IsSingleLine) (atEnd : Option EvalError)
    {segs : List Segment} (hsegs : ∀ seg ∈ segs, Text.lf ∉ seg.piece.unparse) {seen : List Text}
    (hseen : ∀ t ∈ seen, Text.lf ∉ t) : Text.lf ∉ (s.expandFrom atEnd seen segs).output := by
  have houtput {seen : List Text} (hseen : ∀ t ∈ seen, Text.lf ∉ t) :
      Text.lf ∉ seen.reverse.flatten := by
    intro hlf
    obtain ⟨t, ht, hlf⟩ := List.mem_flatten.1 hlf
    exact hseen t (List.mem_reverse.1 ht) hlf
  induction segs generalizing seen with
  | nil => exact houtput hseen
  | cons seg segs ih =>
    obtain ⟨hseg, hrest⟩ := List.forall_mem_cons.1 hsegs
    obtain ⟨piece, offset⟩ := seg
    cases piece with
    | literal t =>
      have ht : Text.lf ∉ t := fun hlf => hseg (Piece.subset_unparse_literal t hlf)
      exact ih hrest (List.forall_mem_cons.2 ⟨ht, hseen⟩)
    | span source =>
      have hsource : Text.lf ∉ source := fun hlf => hseg (Piece.subset_unparse_span source hlf)
      cases hv : s.evaluate source with
      | ok v =>
        have hvalue : Text.lf ∉ v.text := hs.evaluate hsource hv
        rw [Store.expandFrom, hv]
        exact ih hrest (List.forall_mem_cons.2 ⟨hvalue, hseen⟩)
      | error e =>
        -- what comes before the failing span is written all the same
        rw [Store.expandFrom, hv]
        exact houtput hseen

theorem IsSingleLine.expand (hs : s.IsSingleLine) {t : Text} (ht : Text.lf ∉ t) :
    Text.lf ∉ (s.expand t).output := by
  apply hs.expandFrom
  · intro seg hseg hlf
    have hpiece := unparse_isInfix (List.mem_map_of_mem (f := (·.piece)) hseg)
    have hstands : seg.piece.unparse <:+: t := hpiece.trans ⟨[], _, unparse_segments t⟩
    exact ht (hstands.subset hlf)
  · exact fun u hu => absurd hu List.not_mem_nil

/-- A line binds no string but one of its fields. -/
theorem IsSingleLine.after (hs : s.IsSingleLine) (raw : Text) : (s.after raw).IsSingleLine := by
  intro name t hget
  by_cases hbinds : ∃ v, Line.binding? raw = some (name, v)
  · obtain ⟨v, hv⟩ := hbinds
    rw [get?_after_of_binding hv] at hget
    obtain rfl := Option.some.inj hget
    obtain ⟨type, value, ⟨-, keyword, -, more, hfields, rfl⟩, hread⟩ :=
      Line.exists_declares_of_binding? hv
    obtain rfl := DeclaredType.eq_of_read_string hread
    -- the value is the fifth field, or nothing if there is none
    intro hlf
    cases hvalue : more[1]? with
    | none => simp [hvalue] at hlf
    | some word =>
      rw [hvalue] at hlf
      have hmem : word ∈ Line.fieldTexts raw.trim := by
        rw [hfields]
        simp [List.mem_of_getElem? hvalue]
      have hspace := Line.isSpace_of_mem_fieldTexts hmem hlf
      exact absurd hspace (by decide)
  · have hnone : ∀ v, Line.binding? raw ≠ some (name, v) := fun v hv => hbinds ⟨v, hv⟩
    rw [get?_after_of_no_binding hnone] at hget
    exact hs name t hget

end Store

theorem Engine.isLine_of_write_exec {e : Engine} (hs : e.store.IsSingleLine)
    {refusal : Option Text} {raw w : Text} (hraw : Text.lf ∉ raw)
    (h : (e.exec refusal raw).write = some w) : w.IsLine := by
  cases hkind : Line.classify raw.trim with
  | ignored =>
    rw [exec_ignored hkind] at h
    exact absurd h (by simp)
  | declaration =>
    rw [exec_declaration hkind, write_declare] at h
    exact absurd h (by simp)
  | echo =>
    rw [exec_echo hkind, write_echo] at h
    obtain rfl := Option.some.inj h
    have htext : Line.echoText raw.trim <:+: raw :=
      (Line.echoText_isSuffix _).isInfix.trans (Text.trim_isInfix raw)
    exact ⟨_, rfl, Store.IsSingleLine.expand hs fun hlf => hraw (htext.subset hlf)⟩

namespace Session

/-- From one session to another, each echo among the turns has written one line. -/
structure WritesLines (s : Session) (turns : List Turn) (t : Session) : Prop where
  single : t.engine.store.IsSingleLine
  written : ∃ lines, t.writes = lines ++ s.writes ∧ lines.length = countKind .echo turns ∧
    ∀ w ∈ lines, w.IsLine

namespace WritesLines

variable {s t u : Session} {a b : List Turn}

theorem trans (h : WritesLines s a t) (h' : WritesLines t b u) : WritesLines s (a ++ b) u := by
  obtain ⟨lines, hwrites, hlength, hlines⟩ := h.written
  obtain ⟨lines', hwrites', hlength', hlines'⟩ := h'.written
  refine ⟨h'.single, lines' ++ lines, ?_, ?_, ?_⟩
  · rw [hwrites', hwrites, List.append_assoc]
  · rw [List.length_append, hlength, hlength', countKind_append, Nat.add_comm]
  · exact List.forall_mem_append.2 ⟨hlines', hlines⟩

variable {sink : Sink} (accepts : ∀ n, sink.refusal n = none)
include accepts

theorem exec (hs : s.engine.store.IsSingleLine) {raw : Text} (hraw : Text.lf ∉ raw) :
    WritesLines s [⟨s, raw⟩] (s.exec sink raw).1 := by
  have hsingle : (s.exec sink raw).1.engine.store.IsSingleLine := by
    rw [exec_store]
    exact hs.after raw
  refine ⟨hsingle, _, exec_writes accepts s raw, ?_, ?_⟩
  · rw [Engine.write_exec_length, countKind, List.countP_singleton]
    simp only [decide_eq_true_eq]
  · intro w hw
    exact Engine.isLine_of_write_exec hs hraw (Option.mem_toList.1 hw)

theorem runLinesHalting (halts : Nat → Bool) {s : Session} (hs : s.engine.store.IsSingleLine)
    {lines : List Text} (hlines : ∀ raw ∈ lines, Text.lf ∉ raw) :
    WritesLines s (turnsHalting sink halts s lines) (runLinesHalting sink halts s lines).1 := by
  let related : Session → List Turn → Session → Prop := fun s turns t =>
    s.engine.store.IsSingleLine → (∀ turn ∈ turns, Text.lf ∉ turn.raw) → WritesLines s turns t
  have hnone (s : Session) : related s [] s :=
    fun hs _ => ⟨hs, [], rfl, rfl, fun _ hw => absurd hw List.not_mem_nil⟩
  have hline (s : Session) (raw : Text) (turns : List Turn) (t : Session)
      (hrest : related (s.exec sink raw).1 turns t) : related s (⟨s, raw⟩ :: turns) t := by
    intro hs hturns
    obtain ⟨hraw, hturns⟩ := List.forall_mem_cons.1 hturns
    have hfirst := exec accepts hs hraw
    exact hfirst.trans (hrest hfirst.single hturns)
  have hall := @runLinesHalting_relates sink halts related hnone hline s lines
  exact hall hs fun turn hturn => hlines _ (raw_mem_of_mem_turnsHalting hturn)

end WritesLines

end Session

/-- One echo, one line of output. If no string among the variables has a line feed in it, and the
sink accepts every write, then a run makes one write for each echo that it executes, however it
ends. Each of these writes ends in a line feed and has no other, so that the output grows by as many
line feeds as the count of echoes, and there is still none among the variables. -/
theorem one_line_per_echo {s : Session} (single : s.engine.store.IsSingleLine) {sink : Sink}
    (accepts : ∀ n, sink.refusal n = none) (halts : Nat → Bool) (cancelled : Bool)
    (script : Text) :
    let t := (s.runHalting sink halts cancelled script).1
    let echoes := Session.countKind .echo (s.runTurnsHalting sink halts cancelled script)
    (∃ lines, t.writes = lines ++ s.writes ∧ lines.length = echoes ∧ ∀ w ∈ lines, w.IsLine) ∧
    t.output.count Text.lf = s.output.count Text.lf + echoes ∧
    t.engine.stats.echoes = s.engine.stats.echoes + echoes ∧
    t.engine.store.IsSingleLine := by
  intro t echoes
  have hread : ∀ raw ∈ (Lines.read s.engine.lineLimit script).lines, Text.lf ∉ raw := by
    intro raw hraw hlf
    obtain ⟨line, hline, rfl, -⟩ := Lines.exists_of_mem_lines_read hraw
    exact Lines.lf_not_mem_of_mem_terminated hline ((Lines.strip_isPrefix line).subset hlf)
  have hstart : (s.atStart cancelled).engine.store.IsSingleLine := single
  have hran : Session.WritesLines (s.atStart cancelled)
      (s.runTurnsHalting sink halts cancelled script) t :=
    Session.WritesLines.runLinesHalting accepts halts hstart hread
  have hcounted := Session.Counted.runLinesHalting sink halts (s.atStart cancelled)
    (Lines.read s.engine.lineLimit script).lines
  obtain ⟨lines, hwrites, hlength, hlines⟩ := hran.written
  have houtput : t.output = s.output ++ lines.reverse.flatten := by
    rw [Session.output, hwrites, List.reverse_append, List.flatten_append]
    rfl
  have hcount : lines.reverse.flatten.count Text.lf = echoes := by
    rw [Text.count_lf_flatten fun w hw => hlines w (List.mem_reverse.1 hw), List.length_reverse,
      hlength]
  refine ⟨⟨lines, hwrites, hlength, hlines⟩, ?_, hcounted.kinds .echo, hran.single⟩
  rw [houtput, List.count_append, hcount]

/-- The value ends in a backslash, one span is left open, and the run fails within the last echo. -/
theorem one_line_per_echo_failing :
    let store : Store := .ofList [("who", .string "all")]
    let s : Session := { engine := { globals := Store.empty, lineLimit := 65536, store } }
    let script : Text := "let string n = a\\n\r\necho \x7bwho\x7d\x7bn\x7d\necho a\x7bopen\n" ++
      "echo \x7b.5\x7d \x7b1/0\x7d end\necho late"
    let ran := s.run {} false script
    store.IsSingleLine ∧ ran.2 ≠ none ∧ ran.1.output = Text.ofString " alla\\n\n a\n 0.5 \n" ∧
      ran.1.output.count Text.lf = ran.1.engine.stats.echoes := by
  intro store s script ran
  have single : store.IsSingleLine := by
    intro name value hget
    obtain ⟨before, rest, hentries, -⟩ := List.lookup_eq_some_iff.1 hget
    have hmem : (name, Value.string value) ∈ store.entries := by simp [hentries]
    have hvalue : value = "all" := by
      have hentry := List.mem_singleton.1 hmem
      simpa using congrArg Prod.snd hentry
    rw [hvalue]
    decide
  have accepts : ∀ n, Sink.refusal {} n = none := fun _ => rfl
  obtain ⟨-, hcount, hechoes, -⟩ := one_line_per_echo (s := s) single accepts (fun _ => false) false
    script
  rw [Session.runHalting_never] at hcount hechoes
  have hfails : ran.2 ≠ none := by decide +kernel
  have houtput : ran.1.output = Text.ofString " alla\\n\n a\n 0.5 \n" := by decide +kernel
  have hnone : s.output.count Text.lf = s.engine.stats.echoes := rfl
  have hboth : ran.1.output.count Text.lf = ran.1.engine.stats.echoes := by
    rw [hcount, hechoes, hnone]
  exact ⟨single, hfails, houtput, hboth⟩

end LineScript
