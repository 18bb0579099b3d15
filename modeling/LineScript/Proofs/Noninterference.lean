import LineScript.Proofs.Bindings

/-! Variables that a script does not read. A line reads a variable only where the text of a span is
its whole name: arithmetic knows no names, and declarations read nothing. Hence two runs that start
from variables which agree on the texts of the spans do the same, whatever else is bound. -/

namespace LineScript

/-- The texts of the spans in the echo lines of a script, without the blanks around them. -/
def Lines.spanNames (script : Text) : List Text :=
  ((terminated script).map strip).flatMap fun raw => (Line.spans raw).map Text.trim

theorem Lines.trim_mem_spanNames {script raw source : Text} {limit : Nat}
    (hraw : raw ∈ (read limit script).lines) (h : source ∈ Line.spans raw) :
    source.trim ∈ spanNames script := by
  obtain ⟨line, hline, rfl⟩ := List.mem_map.1 hraw
  have hmem := List.mem_map_of_mem (f := strip) ((List.takeWhile_subset _) hline)
  exact List.mem_flatMap.2 ⟨strip line, hmem, List.mem_map_of_mem h⟩

namespace Store

variable {s t : Store}

theorem evaluate_congr {expr : Text} (h : t.get? expr.trim = s.get? expr.trim) :
    t.evaluate expr = s.evaluate expr := by
  simp only [evaluate, h]

theorem expandFrom_congr (atEnd : Option EvalError) (seen : List Text) {segs : List Segment}
    (h : ∀ source offset, ⟨.span source, offset⟩ ∈ segs → t.evaluate source = s.evaluate source) :
    t.expandFrom atEnd seen segs = s.expandFrom atEnd seen segs := by
  induction segs generalizing seen with
  | nil => rfl
  | cons seg segs ih =>
    have hrest (seen : List Text) := ih seen fun source offset hmem =>
      h source offset (List.mem_cons_of_mem seg hmem)
    obtain ⟨piece, offset⟩ := seg
    cases piece with
    | literal text => exact hrest (text :: seen)
    | span source =>
      rw [expandFrom, expandFrom, h source offset List.mem_cons_self]
      cases s.evaluate source with
      | ok v => exact hrest (v.text :: seen)
      | error e => rfl

theorem expand_congr {text : Text}
    (h : ∀ source ∈ (segments text).spans, t.get? source.trim = s.get? source.trim) :
    t.expand text = s.expand text := by
  refine expandFrom_congr _ [] fun source offset hmem => evaluate_congr (h source ?_)
  exact List.mem_filterMap.2 ⟨_, hmem, rfl⟩

/-- Behind a line, stores agree on the name that it binds and on those they agreed on before. -/
theorem get?_after_congr {raw name : Text}
    (h : t.get? name = s.get? name ∨ ∃ v, Line.binding? raw = some (name, v)) :
    (t.after raw).get? name = (s.after raw).get? name := by
  by_cases hbinds : ∃ v, Line.binding? raw = some (name, v)
  · obtain ⟨v, hv⟩ := hbinds
    rw [get?_after_of_binding hv, get?_after_of_binding hv]
  · have hnone : ∀ v, Line.binding? raw ≠ some (name, v) := fun v hv => hbinds ⟨v, hv⟩
    rw [get?_after_of_no_binding hnone, get?_after_of_no_binding hnone]
    exact h.resolve_right hbinds

end Store

namespace Engine

/-- The same engine with other variables. -/
def withStore (e : Engine) (store : Store) : Engine := { e with store }

theorem count_withStore (e : Engine) (store : Store) (kind : Statement) :
    (e.withStore store).count kind = (e.count kind).withStore store := rfl

variable {e : Engine} {store : Store} (refusal : Option Text) (raw : Text)

theorem echo_withStore {line : Text}
    (h : store.expand (Line.echoText line) = e.store.expand (Line.echoText line)) :
    (e.withStore store).echo refusal raw line =
      { e.echo refusal raw line with
        engine := (e.echo refusal raw line).engine.withStore store } := by
  have hexpand : (e.withStore store).store.expand (Line.echoText line) =
      e.store.expand (Line.echoText line) := h
  simp only [echo, hexpand]
  cases (e.store.expand (Line.echoText line)).error with
  | none => rfl
  | some err =>
    dsimp only
    split <;> rfl

theorem declare_withStore (h : Line.classify raw.trim = .declaration) :
    (e.withStore store).declare raw raw.trim =
      { e.declare raw raw.trim with
        engine := (e.declare raw raw.trim).engine.withStore (store.after raw) } := by
  have hassign : (e.withStore store).store.assign raw.trim =
      (Declaration.ofLine raw.trim).binding.map store.withBinding := store.assign_eq raw.trim
  simp only [declare, Store.after, h, hassign, Store.assign_eq]
  -- what the line binds, or how it fails, is the same for both
  cases (Declaration.ofLine raw.trim).binding <;> rfl

/-- With other variables that its spans do not tell apart, a line does the same. -/
theorem exec_withStore
    (h : ∀ source ∈ Line.spans raw, store.get? source.trim = e.store.get? source.trim) :
    (e.withStore store).exec refusal raw =
      { e.exec refusal raw with
        engine := (e.exec refusal raw).engine.withStore (store.after raw) } := by
  cases hkind : Line.classify raw.trim with
  | ignored =>
    have hafter : store.after raw = store := by simp only [Store.after, hkind]
    rw [exec_ignored hkind, exec_ignored hkind, hafter]
    rfl
  | echo =>
    have hafter : store.after raw = store := by simp only [Store.after, hkind]
    have hspans : Line.spans raw = (segments (Line.echoText raw.trim)).spans := by
      rw [Line.spans, if_pos hkind]
    rw [hspans] at h
    rw [exec_echo hkind, exec_echo hkind, hafter, count_withStore]
    exact echo_withStore refusal raw (Store.expand_congr h)
  | declaration =>
    rw [exec_declaration hkind, exec_declaration hkind, count_withStore]
    exact declare_withStore raw hkind

end Engine

namespace Session

def withStore (s : Session) (store : Store) : Session :=
  { s with engine := s.engine.withStore store }

theorem output_withStore (s : Session) (store : Store) :
    (s.withStore store).output = s.output := rfl

variable {s : Session} {store : Store} (sink : Sink)

theorem exec_withStore {raw : Text}
    (h : ∀ source ∈ Line.spans raw, store.get? source.trim = s.engine.store.get? source.trim) :
    (s.withStore store).exec sink raw =
      ((s.exec sink raw).1.withStore (store.after raw), (s.exec sink raw).2) := by
  have hstep := Engine.exec_withStore (sink.refusal s.attempts) raw h
  have hattempts : (s.withStore store).attempts = s.attempts := rfl
  have hengine : (s.withStore store).engine = s.engine.withStore store := rfl
  simp only [exec, hattempts, hengine, hstep]
  cases (s.engine.exec (sink.refusal s.attempts) raw).write <;> rfl

/-- Runs over lines whose spans do not tell the variables apart do the same. The variables that they
leave agree on every name on which they agreed before or that a line in between binds. -/
theorem runLinesHalting_withStore (halts : Nat → Bool) {lines : List Text}
    (h : ∀ raw ∈ lines, ∀ source ∈ Line.spans raw,
      store.get? source.trim = s.engine.store.get? source.trim) :
    ∃ left : Store, runLinesHalting sink halts (s.withStore store) lines =
        ((runLinesHalting sink halts s lines).1.withStore left,
          (runLinesHalting sink halts s lines).2) ∧
      ∀ name, (store.get? name = s.engine.store.get? name ∨
          ∃ turn ∈ turnsHalting sink halts s lines, ∃ v, Line.binding? turn.raw = some (name, v)) →
        left.get? name = (runLinesHalting sink halts s lines).1.engine.store.get? name := by
  induction s, lines using exec_induction sink (fun s => s.cancelled || halts s.engine.line)
    generalizing store with
  | nil s =>
    refine ⟨store, rfl, ?_⟩
    rintro name (hname | ⟨turn, hturn, -⟩)
    · exact hname
    · exact absurd hturn (by simp [turnsHalting])
  | stop s raw lines hgo =>
    have hother : ((s.withStore store).cancelled || halts (s.withStore store).engine.line) = true :=
      hgo
    rw [runLinesHalting_of_stop hgo, runLinesHalting_of_stop hother, turnsHalting_of_stop hgo]
    refine ⟨store, rfl, ?_⟩
    rintro name (hname | ⟨turn, hturn, -⟩)
    · exact hname
    · exact absurd hturn List.not_mem_nil
  | fail s raw lines f hgo hf =>
    have hother : ((s.withStore store).cancelled || halts (s.withStore store).engine.line) = false :=
      hgo
    have hexec := exec_withStore sink (h raw List.mem_cons_self)
    rw [runLinesHalting_cons_of_failure hgo hf, turnsHalting_cons_of_failure hgo hf,
      runLinesHalting_cons_of_failure hother ((congrArg Prod.snd hexec).trans hf), hexec]
    refine ⟨store.after raw, rfl, fun name hname => ?_⟩
    rw [exec_store]
    refine Store.get?_after_congr (hname.imp_right ?_)
    rintro ⟨turn, hturn, hbinds⟩
    obtain rfl := List.mem_singleton.1 hturn
    exact hbinds
  | next s raw lines hgo hf ih =>
    have hother : ((s.withStore store).cancelled || halts (s.withStore store).engine.line) = false :=
      hgo
    obtain ⟨hraw, hlines⟩ := List.forall_mem_cons.1 h
    have hexec := exec_withStore sink hraw
    rw [runLinesHalting_cons_of_none hgo hf, turnsHalting_cons_of_none hgo hf,
      runLinesHalting_cons_of_none hother ((congrArg Prod.snd hexec).trans hf), hexec]
    have hrest : ∀ line ∈ lines, ∀ source ∈ Line.spans line,
        (store.after raw).get? source.trim = (s.exec sink raw).1.engine.store.get? source.trim := by
      intro line hline source hsource
      rw [exec_store]
      exact Store.get?_after_congr (Or.inl (hlines line hline source hsource))
    obtain ⟨left, hrun, hagree⟩ := ih hrest
    refine ⟨left, hrun, fun name hname => hagree name ?_⟩
    rw [exec_store]
    rcases hname with hname | ⟨turn, hturn, hbinds⟩
    · exact Or.inl (Store.get?_after_congr (Or.inl hname))
    · rcases List.mem_cons.1 hturn with rfl | hturn
      · exact Or.inl (Store.get?_after_congr (Or.inr hbinds))
      · exact Or.inr ⟨turn, hturn, hbinds⟩

end Session

/-- A script cannot tell variables apart that it does not read. If two sessions differ in their
variables only, and these agree on the texts of the spans of a script, then the runs of the script
fail alike and leave sessions that again differ in their variables only. These agree on the texts of
the spans and on every name that a line of the run has declared. -/
theorem run_noninterference (s : Session) (store : Store) (sink : Sink) (halts : Nat → Bool)
    (cancelled : Bool) (script : Text)
    (agree : ∀ name ∈ Lines.spanNames script, store.get? name = s.engine.store.get? name) :
    let one := s.runHalting sink halts cancelled script
    let other := (s.withStore store).runHalting sink halts cancelled script
    other.2 = one.2 ∧ other.1 = one.1.withStore other.1.engine.store ∧
    (∀ name ∈ Lines.spanNames script,
      other.1.engine.store.get? name = one.1.engine.store.get? name) ∧
    ∀ turn ∈ s.runTurnsHalting sink halts cancelled script, ∀ type name value v,
      Line.Declares turn.raw type name value → type.read value = .ok v →
      other.1.engine.store.get? name = one.1.engine.store.get? name := by
  intro one other
  have hspans : ∀ raw ∈ (Lines.read s.engine.lineLimit script).lines, ∀ source ∈ Line.spans raw,
      store.get? source.trim = (s.atStart cancelled).engine.store.get? source.trim :=
    fun raw hraw source hsource => agree _ (Lines.trim_mem_spanNames hraw hsource)
  obtain ⟨left, hrun, hleft⟩ := Session.runLinesHalting_withStore sink halts hspans
  have hother : other = (one.1.withStore left, one.2) := by
    have hlimit : (s.withStore store).engine.lineLimit = s.engine.lineLimit := rfl
    have hstart : (s.withStore store).atStart cancelled = (s.atStart cancelled).withStore store := rfl
    simp only [other, one, Session.runHalting, hlimit, hstart, hrun]
  rw [hother]
  refine ⟨rfl, rfl, fun name hname => hleft name (Or.inl (agree name hname)), ?_⟩
  intro turn hturn type name value v hdeclares hread
  exact hleft name (Or.inr ⟨turn, hturn, v, Line.binding?_of_declares hdeclares hread⟩)

/-- Only `x` is read: what `y` and `1 + z` hold makes no difference, and `w` is declared anew. -/
theorem run_noninterference_arithmetic :
    let here : Store := .ofList [("w", .int 1), ("x", .int 2), ("y", .int 3), ("z", .int 4)]
    let e : Engine := { globals := Store.empty, lineLimit := 65536, store := here }
    let s : Session := { engine := e }
    let store : Store := .ofList [("x", .int 2), ("y", .bool true), ("z", .float 2.5)]
    let script : Text := "let int w = 5\necho \x7bx\x7d \x7b1 + z\x7d\nlet int v = y\n"
    let one := s.run {} false script
    let other := (s.withStore store).run {} false script
    Lines.spanNames script = [Text.ofString "x", Text.ofString "1 + z"] ∧
      other.1.output = one.1.output ∧ other.2 = one.2 ∧ one.2 ≠ none ∧
      other.1.engine.store.get? "w" = one.1.engine.store.get? "w" := by
  intro here e s store script
  have hnames : Lines.spanNames script = [Text.ofString "x", Text.ofString "1 + z"] := by
    decide +kernel
  have agree : ∀ name ∈ Lines.spanNames script, store.get? name = s.engine.store.get? name := by
    rw [hnames]
    decide +kernel
  have hfails : (s.run {} false script).2 ≠ none := by decide +kernel
  have hraw : Text.ofString "let int w = 5" ∈
      (s.runTurnsHalting {} (fun _ => false) false script).map (·.raw) := by decide +kernel
  obtain ⟨turn, hturn, hraw⟩ := List.mem_map.1 hraw
  have hdeclares : Line.Declares turn.raw .int "w" "5" := by
    rw [hraw]
    exact ⟨by decide, "let", by decide, ["=", "5"], by decide +kernel, rfl⟩
  obtain ⟨hend, hsame, -, hbound⟩ := run_noninterference s store {} (fun _ => false) false script
    agree
  have hw := hbound turn hturn .int "w" "5" (.int 5) hdeclares (by decide +kernel)
  simp only [Session.runHalting_never] at hend hsame hw
  -- the runs themselves are not evaluated from here on
  generalize s.run {} false script = one at hfails hend hsame hw ⊢
  generalize (s.withStore store).run {} false script = other at hend hsame hw ⊢
  have houtput := congrArg Session.output hsame
  rw [Session.output_withStore] at houtput
  exact ⟨hnames, houtput, hend, hfails, hw⟩

end LineScript
