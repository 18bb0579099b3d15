import LineScript.Proofs.Bindings
import LineScript.Proofs.Replay

/-! Lines without effect. Whether a line has one is in the line alone: it has none if it is no
statement, or a declaration that lacks a keyword spelt in full, a known type or an identifier. The
linter says of exactly these lines that they are ignored. -/

namespace LineScript

/-- The remark that a line, or the declaration on it, is ignored. -/
def Remark.saysIgnored : Remark → Bool
  | .notAStatement | .unknownKeyword _ | .unknownType _ | .noIdentifier => true
  | _ => false

/-- A step that fails at nothing, writes nothing, reports nothing and leaves the variables as they
were. -/
structure Step.Idles (step : Step) (before : Store) : Prop where
  failure : step.failure = none
  write : step.write = none
  diagnostic : step.diagnostic = none
  store : step.engine.store = before

/-- Whatever the variables are, executing the line does nothing. -/
def Engine.IdlesOn (e : Engine) (refusal : Option Text) (raw : Text) : Prop :=
  ∀ store, (Engine.exec { e with store } refusal raw).Idles store

/-- A raw line that is neither an echo nor a declaration with an effect. -/
def Line.Inert (raw : Text) : Prop :=
  match classify raw.trim with
  | .ignored => True
  | .echo => False
  | .declaration => (Declaration.ofLine raw.trim).effect? = none

namespace Engine

variable {e : Engine} {refusal : Option Text} {raw : Text}

theorem idlesOn_of_inert (h : Line.Inert raw) (e : Engine) (refusal : Option Text) :
    e.IdlesOn refusal raw := by
  intro store
  unfold Line.Inert at h
  split at h
  · rename_i kind
    rw [exec_ignored kind]
    exact ⟨rfl, rfl, rfl, rfl⟩
  · exact h.elim
  · rename_i kind
    have hassign : store.assign raw.trim = .ok store := by
      rw [Store.assign, Declaration.run, h]
    rw [exec_declaration kind, declare_of_ok hassign]
    exact ⟨rfl, rfl, rfl, rfl⟩

/-- A declaration with an effect fails, or it binds its identifier, which need not have been bound
before. -/
theorem effect?_of_idlesOn (kind : Line.classify raw.trim = .declaration)
    (h : e.IdlesOn refusal raw) : (Declaration.ofLine raw.trim).effect? = none := by
  obtain ⟨hfailure, -, -, hstore⟩ := h Store.empty
  cases heffect : (Declaration.ofLine raw.trim).effect? with
  | none => rfl
  | some type =>
    rw [exec_declaration kind] at hfailure hstore
    cases hread : type.read (Declaration.ofLine raw.trim).value with
    | error err =>
      have hassign : Store.empty.assign raw.trim =
          .error { cause := .literal err, source := (Declaration.ofLine raw.trim).value } := by
        simp only [Store.assign, Declaration.run, heffect, hread]
      rw [declare_of_error hassign] at hfailure
      exact absurd hfailure (by simp)
    | ok v =>
      have hassign : Store.empty.assign raw.trim =
          .ok (Store.empty.set (Declaration.ofLine raw.trim).identifier v) := by
        simp only [Store.assign, Declaration.run, heffect, hread]
      rw [declare_of_ok hassign] at hstore
      have hbound := Store.get?_set_self Store.empty (Declaration.ofLine raw.trim).identifier v
      rw [show Store.empty.set _ v = Store.empty from hstore, Store.get?_empty] at hbound
      exact absurd hbound (by simp)

theorem idlesOn_iff_inert : e.IdlesOn refusal raw ↔ Line.Inert raw := by
  refine ⟨fun h => ?_, fun h => idlesOn_of_inert h e refusal⟩
  unfold Line.Inert
  cases kind : Line.classify raw.trim with
  | ignored => trivial
  | echo =>
    -- an echo writes a line, if only an empty one
    have hwrite := (h e.store).write
    rw [exec_echo kind, write_echo] at hwrite
    exact absurd hwrite (by simp)
  | declaration => exact effect?_of_idlesOn kind h

end Engine

namespace Lint

theorem exists_effect?_of_not_ignored {d : Declaration} (h : ignoredRemark? d = none) :
    ∃ type, d.effect? = some type := by
  unfold ignoredRemark? at h
  split at h
  · exact absurd h (by simp)
  · rename_i hkeyword
    split at h
    · exact absurd h (by simp)
    · rename_i htype
      split at h
      · exact absurd h (by simp)
      · rename_i hidentifier
        obtain ⟨type, htype⟩ := Option.ne_none_iff_exists'.1 (by simpa using htype)
        refine ⟨type, ?_⟩
        rw [Declaration.effect?, if_pos, htype]
        simpa [hidentifier] using hkeyword

theorem saysIgnored_of_ignoredRemark {d : Declaration} {r : Remark}
    (h : ignoredRemark? d = some r) : r.saysIgnored = true := by
  unfold ignoredRemark? at h
  repeat' split at h
  all_goals cases h
  all_goals rfl

theorem not_saysIgnored_of_mem_declarationNotes {s : Store} {indent : Nat} {line : Text}
    (hremark : ignoredRemark? (Declaration.ofLine line) = none) {n : Note}
    (h : n ∈ (declarationNotes s indent line).1) : n.remark.saysIgnored = false := by
  have hform {fieldCount : Nat} (hmem : n ∈ formNotes (Declaration.ofLine line) indent fieldCount) :
      n.remark.saysIgnored = false := by
    rcases eq_of_mem_formNotes hmem with rfl | rfl | rfl | rfl
    all_goals rfl
  simp only [declarationNotes, hremark] at h
  split at h
  · exact hform h
  · rcases List.mem_append.1 h with h | h
    · exact hform h
    · rw [List.mem_singleton.1 h]
      rfl

theorem not_saysIgnored_of_mem_echoNotes {s : Store} {base : Nat} {t : Text} {n : Note}
    (h : n ∈ echoNotes s base t) : n.remark.saysIgnored = false := by
  rw [echoNotes, List.mem_append] at h
  rcases h with h | h
  · obtain ⟨seg, -, hnote⟩ := List.mem_filterMap.1 h
    obtain ⟨-, source, -, hr⟩ := exists_span_of_segmentNote hnote
    cases hv : s.evaluate (Text.trimWhite source) with
    | error e =>
      rw [spanRemark?_of_error hv] at hr
      rw [← Option.some.inj hr]
      rfl
    | ok v => rcases eq_of_spanRemark hv hr with hr | ⟨name, hr⟩ <;> rw [hr] <;> rfl
  · obtain ⟨e, -, rfl⟩ := Option.map_eq_some_iff.1 (Option.mem_toList.1 h)
    rfl

theorem exists_saysIgnored_iff_inert {raw : Text} (filled : raw.trim ≠ []) (s : Store) :
    (∃ n ∈ (lineNotes s raw).1, n.remark.saysIgnored = true) ↔ Line.Inert raw := by
  simp only [lineNotes, if_neg filled, Line.Inert]
  cases Line.classify raw.trim with
  | ignored => simp [Remark.saysIgnored]
  | echo =>
    simp only [iff_false, not_exists, not_and, Bool.not_eq_true]
    exact fun n => not_saysIgnored_of_mem_echoNotes
  | declaration =>
    dsimp only
    cases hremark : ignoredRemark? (Declaration.ofLine raw.trim) with
    | some r =>
      simp only [declarationNotes, hremark, List.mem_singleton, exists_eq_left,
        saysIgnored_of_ignoredRemark hremark, effect?_of_ignoredRemark hremark]
    | none =>
      obtain ⟨type, heffect⟩ := exists_effect?_of_not_ignored hremark
      simp only [heffect, reduceCtorEq, iff_false, not_exists, not_and, Bool.not_eq_true]
      exact fun n => not_saysIgnored_of_mem_declarationNotes hremark

theorem exists_mem_lint_iff {globals : Store} {source : Text} {i : Nat} {raw : Text}
    (h : (Lines.divided source)[i]? = some raw) (p : Remark → Bool) :
    (∃ w ∈ lint globals source, w.line = i + 1 ∧ p w.remark = true) ↔
      ∃ n ∈ (lineNotes (held globals ((Lines.divided source).take i)) raw).1,
        p n.remark = true := by
  have hnotes : (lint globals source).filter (·.line = 1 + i) =
      (lineNotes (held globals ((Lines.divided source).take i)) raw).1.map
        (·.toWarning (1 + i) raw) := filter_line_warningsFrom h
  rw [Nat.add_comm 1 i] at hnotes
  constructor
  · rintro ⟨w, hw, hline, hp⟩
    have hmem : w ∈ (lint globals source).filter (·.line = i + 1) :=
      List.mem_filter.2 ⟨hw, decide_eq_true hline⟩
    rw [hnotes] at hmem
    obtain ⟨n, hn, rfl⟩ := List.mem_map.1 hmem
    exact ⟨n, hn, hp⟩
  · rintro ⟨n, hn, hp⟩
    have hmem : n.toWarning (i + 1) raw ∈ (lint globals source).filter (·.line = i + 1) :=
      hnotes ▸ List.mem_map_of_mem hn
    obtain ⟨hw, hline⟩ := List.mem_filter.1 hmem
    exact ⟨_, hw, of_decide_eq_true hline, hp⟩

end Lint

/-- The warnings that a line is ignored are exact. Of a line that is not blank the linter says so,
whatever it takes to be bound, exactly if executing the line fails at nothing, writes nothing,
reports nothing and leaves the variables as they were, whatever they are. -/
theorem ignored_iff_idle (e : Engine) (refusal : Option Text) {raw : Text}
    (filled : raw.trim ≠ []) :
    (∀ s, (∃ n ∈ (Lint.lineNotes s raw).1, n.remark.saysIgnored = true) ↔
      e.IdlesOn refusal raw) ∧
    ∀ globals source i, (Lines.divided source)[i]? = some raw →
      ((∃ w ∈ lint globals source, w.line = i + 1 ∧ w.remark.saysIgnored = true) ↔
        e.IdlesOn refusal raw) := by
  have hnotes (s : Store) : (∃ n ∈ (Lint.lineNotes s raw).1, n.remark.saysIgnored = true) ↔
      e.IdlesOn refusal raw :=
    (Lint.exists_saysIgnored_iff_inert filled s).trans Engine.idlesOn_iff_inert.symm
  exact ⟨hnotes, fun globals source i hline =>
    (Lint.exists_mem_lint_iff hline Remark.saysIgnored).trans (hnotes _)⟩

/-- A declaration with a longer keyword, and one without a value, which binds the empty string. -/
theorem ignored_iff_idle_letter :
    let e : Engine :=
      { globals := .empty, lineLimit := 65536, store := .ofList [("x", .int 5)] }
    let source : Text := "\tletter int x = 9\r\nlet string x"
    (∃ w ∈ lint .empty source, w.line = 1 ∧ w.remark.saysIgnored = true) ∧
      e.IdlesOn (some "full") "\tletter int x = 9" ∧
      (¬ ∃ w ∈ lint .empty source, w.line = 2 ∧ w.remark.saysIgnored = true) ∧
      ¬ e.IdlesOn none "let string x" := by
  intro e source
  have filled : Text.trim "\tletter int x = 9" ≠ [] := by decide
  have filled' : Text.trim "let string x" ≠ [] := by decide
  obtain ⟨hnotes, hscript⟩ := ignored_iff_idle e (some "full") filled
  obtain ⟨hnotes', hscript'⟩ := ignored_iff_idle e none filled'
  have hidle : e.IdlesOn (some "full") "\tletter int x = 9" := (hnotes .empty).1 (by decide +kernel)
  have hidle' : ¬ e.IdlesOn none "let string x" := (hnotes' .empty).not.1 (by decide +kernel)
  exact ⟨(hscript .empty source 0 (by decide +kernel)).2 hidle, hidle,
    (hscript' .empty source 1 (by decide +kernel)).not.2 hidle', hidle'⟩

end LineScript
