import LineScript.Lint
import LineScript.Proofs.Exec
import LineScript.Proofs.Text.White

/-! The linter and the run. Line by line the linter holds the variables that the run holds, its
remark that a line ends the run stands where the run fails, and its remark on an unterminated span
stands where the run reports one. Where blanks are the only white space within lines, the warnings
therefore say how a run ends and what it reports. -/

namespace LineScript

namespace Remark

/-- The remark that a line ends the run. -/
def isAbort : Remark → Bool
  | .aborts _ => true
  | _ => false

def isUnterminated : Remark → Bool
  | .unterminatedSpan => true
  | _ => false

/-- A remark on a line that neither ends the run nor has an unterminated span. -/
def IsMild (r : Remark) : Prop := r.isAbort = false ∧ r.isUnterminated = false

end Remark

namespace Warning

def isAbort (w : Warning) : Bool := w.remark.isAbort

def isUnterminated (w : Warning) : Bool := w.remark.isUnterminated

def position (w : Warning) : Nat × Nat := (w.line, w.column)

/-- The warning points at a failure and words it. -/
def Announces (w : Warning) (place : Located) : Prop :=
  w.line = place.line ∧ w.column = place.column ∧
    w.remark.message = place.error.message ++ Text.ofString " (aborts the script)"

end Warning

def Located.position (l : Located) : Nat × Nat := (l.line, l.column)

theorem EvalError.message_offset (e : EvalError) (offset : Option Nat) :
    EvalError.message { e with offset } = e.message := rfl

namespace Lint

theorem warningsFrom_eq (number : Nat) (s : Store) (seen : List (List Warning))
    (lines : List Text) :
    warningsFrom number s seen lines = seen.reverse.flatten ++ warningsFrom number s [] lines := by
  induction lines generalizing number s seen with
  | nil => simp [warningsFrom]
  | cons raw rest ih =>
    rw [warningsFrom, warningsFrom, ih, ih (number + 1) _ [_]]
    simp

theorem effect?_of_ignoredRemark {d : Declaration} {r : Remark} (h : ignoredRemark? d = some r) :
    d.effect? = none := by
  unfold ignoredRemark? at h
  unfold Declaration.effect?
  split at h
  · rename_i hkeyword
    rw [if_neg]
    simp only [Bool.and_eq_true, not_and]
    intro hk
    simp [hk] at hkeyword
  · split at h
    · rename_i htype
      split
      · exact Option.isNone_iff_eq_none.1 htype
      · rfl
    · split at h
      · rename_i hid
        rw [if_neg]
        simp [hid]
      · exact absurd h (by simp)

theorem lineNotes_store (s : Store) (raw : Text) : (lineNotes s raw).2 = s.after raw := by
  simp only [lineNotes, Store.after]
  split
  · rename_i hblank
    rw [hblank]
    rfl
  · cases Line.classify raw.trim with
    | ignored => rfl
    | echo => rfl
    | declaration =>
      simp only [declarationNotes]
      cases hremark : ignoredRemark? (Declaration.ofLine raw.trim) with
      | some r =>
        have hassign : s.assign raw.trim = .ok s := by
          rw [Store.assign, Declaration.run, effect?_of_ignoredRemark hremark]
        rw [hassign]
      | none => cases s.assign raw.trim <;> rfl

/-- The warnings about the first line, then those about the lines after it. -/
theorem warningsFrom_cons (number : Nat) (s : Store) (raw : Text) (rest : List Text) :
    warningsFrom number s [] (raw :: rest) =
      (lineNotes s raw).1.map (·.toWarning number raw) ++
        warningsFrom (number + 1) (s.after raw) [] rest := by
  rw [warningsFrom, warningsFrom_eq, lineNotes_store]
  simp

theorem le_line_of_mem_warningsFrom {number : Nat} {s : Store} {lines : List Text} {w : Warning}
    (h : w ∈ warningsFrom number s [] lines) : number ≤ w.line := by
  induction lines generalizing number s with
  | nil => exact absurd h List.not_mem_nil
  | cons raw rest ih =>
    rw [warningsFrom_cons, List.mem_append] at h
    rcases h with h | h
    · obtain ⟨n, _, rfl⟩ := List.mem_map.1 h
      exact Nat.le_refl number
    · exact (Nat.le_succ number).trans (ih h)

theorem mild_of_ignoredRemark {d : Declaration} {r : Remark} (h : ignoredRemark? d = some r) :
    r.IsMild := by
  unfold ignoredRemark? at h
  repeat' split at h
  all_goals cases h
  all_goals exact ⟨rfl, rfl⟩

theorem eq_of_mem_check {c : Prop} [Decidable c] {n note : Note}
    (h : n ∈ if c then [] else [note]) : n = note := by
  split at h
  · exact absurd h List.not_mem_nil
  · exact List.mem_singleton.1 h

/-- Each check of the form of a declaration adds one note or none. -/
theorem eq_of_mem_formNotes {d : Declaration} {indent fieldCount : Nat} {n : Note}
    (h : n ∈ formNotes d indent fieldCount) :
    n = ⟨indent, .shadows d.identifier (Store.empty.rule d.identifier)⟩ ∨
      n = ⟨indent, .expectedEquals d.identifier d.equals⟩ ∨
      n = ⟨indent, .trailingFields (fieldCount - 5)⟩ ∨
      n = ⟨indent + d.valueOffset, .storedAsFalse d.value⟩ := by
  simp only [formNotes, List.mem_append] at h
  rcases h with ((h | h) | h) | h
  · exact Or.inl (eq_of_mem_check h)
  · exact Or.inr (Or.inl (eq_of_mem_check h))
  · exact Or.inr (Or.inr (Or.inl (eq_of_mem_check h)))
  · rw [← ite_not] at h
    exact Or.inr (Or.inr (Or.inr (eq_of_mem_check h)))

theorem mild_of_mem_formNotes {d : Declaration} {indent fieldCount : Nat} {n : Note}
    (h : n ∈ formNotes d indent fieldCount) : n.remark.IsMild := by
  rcases eq_of_mem_formNotes h with rfl | rfl | rfl | rfl
  all_goals exact ⟨rfl, rfl⟩

theorem spanRemark?_of_error {s : Store} {source : Text} {e : EvalError}
    (h : s.evaluate (Text.trimWhite source) = .error e) :
    spanRemark? s source = some (.aborts e) := by
  simp only [spanRemark?, h]

theorem eq_of_spanRemark {s : Store} {source : Text} {v : Value} {r : Remark}
    (hv : s.evaluate (Text.trimWhite source) = .ok v) (h : spanRemark? s source = some r) :
    r = .undeclared (Text.trimWhite source) ∨ ∃ name, r = .variableOperand name := by
  simp only [spanRemark?, hv] at h
  split at h
  · split at h
    · exact Or.inl (Option.some.inj h).symm
    · exact absurd h (by simp)
  · obtain ⟨name, _, rfl⟩ := Option.map_eq_some_iff.1 h
    exact Or.inr ⟨name, rfl⟩
  · exact absurd h (by simp)

theorem mild_of_spanRemark {s : Store} {source : Text} {v : Value} {r : Remark}
    (hv : s.evaluate (Text.trimWhite source) = .ok v) (h : spanRemark? s source = some r) :
    r.IsMild := by
  rcases eq_of_spanRemark hv h with rfl | ⟨name, rfl⟩
  all_goals exact ⟨rfl, rfl⟩

/-- A failure of a span of an echo whose text starts at `base`, as the linter notes it. -/
def abortNote (base : Nat) (e : EvalError) : Note :=
  ⟨base + e.offset.getD 0, .aborts { e with offset := none }⟩

/-- An unterminated span of an echo whose text starts at `base`, as the linter notes it. -/
def unterminatedNote (base : Nat) (e : EvalError) : Note :=
  ⟨base + e.offset.getD 0, .unterminatedSpan⟩

section Echo
variable {s : Store}

theorem filter_segmentNote (base : Nat) {seg : Segment}
    (h : ∀ source, seg.piece = .span source →
      s.evaluate (Text.trimWhite source) = s.evaluate source) :
    (segmentNote? s base seg).filter (·.remark.isAbort) =
      (seg.failure? s).map (abortNote base) := by
  obtain ⟨piece, offset⟩ := seg
  cases piece with
  | literal text => rfl
  | span source =>
    have hsame := h source rfl
    rw [segmentNote?]
    cases hv : s.evaluate source with
    | error e =>
      have hoffset := (Store.evaluate_error hv).1
      rw [hv] at hsame
      dsimp only
      rw [spanRemark?_of_error hsame, Segment.failure?_of_error hv]
      simp [abortNote, Remark.isAbort, ← hoffset, Nat.add_assoc]
    | ok v =>
      rw [hv] at hsame
      rw [Segment.failure?_of_ok hv, Option.map_none, Option.filter_eq_none_iff]
      intro n hn
      obtain ⟨r, hr, rfl⟩ := Option.map_eq_some_iff.1 hn
      simp [(mild_of_spanRemark hsame hr).1]

/-- The first failing segment is the first whose note is an abort. -/
theorem find?_filterMap_segmentNote (base : Nat) {segs : List Segment}
    (h : ∀ seg ∈ segs, ∀ source, seg.piece = .span source →
      s.evaluate (Text.trimWhite source) = s.evaluate source) :
    (segs.filterMap (segmentNote? s base)).find? (·.remark.isAbort) =
      (segs.findSome? (·.failure? s)).map (abortNote base) := by
  induction segs with
  | nil => rfl
  | cons seg segs ih =>
    obtain ⟨hfirst, hothers⟩ := List.forall_mem_cons.1 h
    have hnote := filter_segmentNote base hfirst
    have ih := ih hothers
    rw [List.findSome?_cons]
    cases hn : segmentNote? s base seg with
    | none =>
      rw [hn] at hnote
      have hnone : seg.failure? s = none := Option.map_eq_none_iff.1 hnote.symm
      rw [List.filterMap_cons_none hn, hnone]
      exact ih
    | some n =>
      rw [hn] at hnote
      rw [List.filterMap_cons_some hn, List.find?_cons]
      cases hf : seg.failure? s with
      | none =>
        rw [hf, Option.map_none, Option.filter_eq_none_iff] at hnote
        rw [eq_false_of_ne_true (hnote n rfl)]
        exact ih
      | some e =>
        rw [hf, Option.map_some, Option.filter_eq_some_iff] at hnote
        rw [Option.some.inj hnote.1, hnote.2]
        rfl

/-- Only spans are noted, behind their braces. -/
theorem exists_span_of_segmentNote {base : Nat} {seg : Segment} {n : Note}
    (h : segmentNote? s base seg = some n) :
    n.offset = base + seg.offset + 1 ∧
      ∃ source, seg.piece = .span source ∧ spanRemark? s source = some n.remark := by
  obtain ⟨piece, offset⟩ := seg
  cases piece with
  | literal text => exact absurd h (by simp [segmentNote?])
  | span source =>
    obtain ⟨r, hr, rfl⟩ := Option.map_eq_some_iff.1 h
    exact ⟨rfl, source, rfl, hr⟩

theorem isUnterminated_of_mem_segmentNotes {base : Nat} {segs : List Segment} {n : Note}
    (h : n ∈ segs.filterMap (segmentNote? s base)) : n.remark.isUnterminated = false := by
  obtain ⟨seg, -, hn⟩ := List.mem_filterMap.1 h
  obtain ⟨-, source, -, hr⟩ := exists_span_of_segmentNote hn
  cases hv : s.evaluate (Text.trimWhite source) with
  | error e =>
    rw [spanRemark?_of_error hv] at hr
    rw [← Option.some.inj hr]
    rfl
  | ok v => exact (mild_of_spanRemark hv hr).2

theorem find?_echoNotes (base : Nat) {t : Text}
    (h : ∀ source ∈ (segments t).spans, s.evaluate (Text.trimWhite source) = s.evaluate source) :
    (echoNotes s base t).find? (·.remark.isAbort) = (s.failure? t).map (abortNote base) := by
  have hsegs : ∀ seg ∈ (segments t).segments, ∀ source, seg.piece = .span source →
      s.evaluate (Text.trimWhite source) = s.evaluate source := by
    intro seg hseg source hpiece
    exact h source (List.mem_filterMap.2 ⟨seg, hseg, by rw [hpiece]⟩)
  have hend : (((segments t).error.map (unterminatedNote base)).toList.find?
      fun n : Note => n.remark.isAbort) = none := by
    cases (segments t).error <;> rfl
  rw [echoNotes, List.find?_append, find?_filterMap_segmentNote base hsegs]
  exact (congrArg _ hend).trans (Option.or_none)

theorem filter_echoNotes (base : Nat) (t : Text) :
    (echoNotes s base t).filter (·.remark.isUnterminated) =
      ((segments t).error.map (unterminatedNote base)).toList := by
  have hspans : ((segments t).segments.filterMap (segmentNote? s base)).filter
      (·.remark.isUnterminated) = [] := by
    rw [List.filter_eq_nil_iff]
    intro n hn
    simp [isUnterminated_of_mem_segmentNotes hn]
  rw [echoNotes, List.filter_append, hspans, List.nil_append]
  cases (segments t).error <;> rfl

end Echo

end Lint

end LineScript
