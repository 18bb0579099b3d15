import LineScript.Proofs.Bindings
import LineScript.Proofs.Store

/-! The names that an engine binds. A declaration binds a field of its line, so that what it binds is
free of white space and can be read back by its name. A global may have white space around its name:
it is accepted, and with blanks there it is bound under a name that no expression reads. -/

namespace LineScript

namespace IdentifierError

theorem ofName?_eq_none_iff {name : Text} :
    ofName? name = none ↔ (Line.fieldTexts name).length = 1 := by
  have hlength : (Line.fieldTexts name).length = (Line.fields name).length := List.length_map _
  unfold ofName?
  rw [hlength]
  constructor
  · intro h
    by_contra hnot
    rw [if_neg hnot] at h
    split at h <;> exact absurd h (by simp)
  · intro h
    have hname : name ≠ [] := by
      rintro rfl
      exact absurd h (by decide)
    rw [if_neg hname, if_pos h]

end IdentifierError

theorem Declaration.isWord_of_binding {line name : Text} {v : Value}
    (h : (ofLine line).binding = .ok (some (name, v))) : name.IsWord := by
  obtain ⟨type, heffect, rfl, -⟩ := exists_effect?_of_binding h
  obtain ⟨keyword, -, name, more, hfields⟩ := effect?_ofLine_eq_some_iff.1 heffect
  obtain ⟨-, -, hidentifier, -⟩ := ofLine_of_fieldTexts hfields
  have hmem : name ∈ Line.fieldTexts line := by simp [hfields]
  rw [hidentifier]
  exact Line.isWord_of_mem_fieldTexts hmem

namespace Store

/-- What a store binds is a word, unless the globals bind it. -/
def NamedBy (s globals : Store) : Prop :=
  ∀ name, (s.get? name).isSome = true → name.IsWord ∨ (globals.get? name).isSome = true

theorem NamedBy.refl (globals : Store) : globals.NamedBy globals := fun _ h => Or.inr h

theorem NamedBy.withBinding {s globals : Store} (h : s.NamedBy globals)
    {b : Option (Text × Value)} (hword : ∀ name v, b = some (name, v) → name.IsWord) :
    (s.withBinding b).NamedBy globals := by
  intro name hbound
  match b with
  | none => exact h name hbound
  | some (bound, v) =>
    by_cases hname : name = bound
    · subst hname
      exact Or.inl (hword name v rfl)
    · have hget : (s.withBinding (some (bound, v))).get? name = s.get? name :=
        get?_set_of_ne s hname v
      rw [hget] at hbound
      exact h name hbound

theorem NamedBy.assign {s s' globals : Store} (h : s.NamedBy globals) {line : Text}
    (hassign : s.assign line = .ok s') : s'.NamedBy globals := by
  rw [assign_eq] at hassign
  cases hbinding : (Declaration.ofLine line).binding with
  | error e =>
    rw [hbinding] at hassign
    exact absurd hassign (by simp [Except.map])
  | ok b =>
    rw [hbinding] at hassign
    obtain rfl : s.withBinding b = s' := Except.ok.inj hassign
    refine h.withBinding fun name v hb => ?_
    subst hb
    exact Declaration.isWord_of_binding hbinding

theorem NamedBy.after {s globals : Store} (h : s.NamedBy globals) (raw : Text) :
    (s.after raw).NamedBy globals := by
  unfold Store.after
  split
  · split
    · rename_i hassign
      exact h.assign hassign
    · exact h
  · exact h

theorem evaluate_of_trim_eq {s : Store} {name : Text} (hname : name.trim = name) {v : Value}
    (h : s.get? name = some v) : s.evaluate name = .ok v := by
  apply evaluate_of_get?
  rw [hname, h]

/-- A name with blanks at its ends is read by no expression. -/
theorem evaluate_set_of_trim_ne {name : Text} (hname : name.trim ≠ name) (s : Store) (v : Value)
    (expr : Text) : (s.set name v).evaluate expr = s.evaluate expr := by
  have hother : expr.trim ≠ name := by
    rintro rfl
    exact hname (Text.trim_trim expr)
  have hget := get?_set_of_ne s hother v
  simp only [evaluate, hget]

end Store

namespace Engine

theorem fieldTexts_of_new {globals : Store} {maxLine : Int} {e : Engine}
    (h : new globals maxLine = .ok e) {name : Text} (hname : (globals.get? name).isSome = true) :
    (Line.fieldTexts name).length = 1 := by
  obtain ⟨v, hv⟩ := Option.isSome_iff_exists.1 hname
  have hnone : ∀ name ∈ globals.names, (IdentifierError.ofName? name).map _ = none :=
    List.findSome?_eq_none_iff.1 (new_eq h).1
  exact IdentifierError.ofName?_eq_none_iff.1
    (Option.map_eq_none_iff.1 (hnone name (Store.mem_names_iff.2 ⟨_, hv⟩)))

end Engine

namespace Session

/-- Whatever is done with an engine, its globals stay, and it binds words besides them. -/
theorem lasting_namedBy (sink : Sink) (globals : Store) :
    Lasting sink fun s => s.engine.globals = globals ∧ s.engine.store.NamedBy globals where
  exec s raw hs := by
    rw [exec_engine, Engine.exec_engine]
    exact ⟨hs.1, hs.2.after raw⟩
  start s cancelled hs := hs
  assign s line hs := by
    unfold Session.assign
    split
    · rename_i hassign
      exact ⟨hs.1, hs.2.assign hassign⟩
    · exact hs
  write s t hs := hs
  reset s hs := by
    obtain ⟨rfl, -⟩ := hs
    exact ⟨rfl, .refl _⟩

end Session

/-- The names that an engine binds, whatever has been done with it. Each has one field; it is a word,
or the name of a global. It can be read back if there are no blanks at its ends, and otherwise what
it is bound to makes no difference to any expression. Hence all bound names are words that can be
read back, in every state, exactly if no global has white space in its name. -/
theorem bound_names_read_back {globals : Store} {maxLine : Int} {e : Engine}
    (accepted : Engine.new globals maxLine = .ok e) (sink : Sink) :
    let reached (actions : List Session.Action) : Store :=
      (Session.performAll { engine := e } sink actions).engine.store
    (∀ actions name v, (reached actions).get? name = some v →
      (Line.fieldTexts name).length = 1 ∧
      (name.IsWord ∨ (globals.get? name).isSome = true) ∧
      (name.trim = name → (reached actions).evaluate name = .ok v) ∧
      (name.trim ≠ name → ∀ w expr,
        ((reached actions).set name w).evaluate expr = (reached actions).evaluate expr)) ∧
    ((∀ actions name v, (reached actions).get? name = some v →
        name ≠ [] ∧ (∀ b ∈ name, Text.isSpace b = false) ∧
          (reached actions).evaluate name = .ok v) ↔
      ∀ name v, globals.get? name = some v → ∀ b ∈ name, Text.isSpace b = false) := by
  intro reached
  have hnamed (actions : List Session.Action) : (reached actions).NamedBy globals := by
    -- the invariant holds at the start, where the globals are all that is bound
    have hnew : e.globals = globals ∧ e.store.NamedBy globals := by
      obtain ⟨-, rfl⟩ := Engine.new_eq accepted
      exact ⟨rfl, .refl globals⟩
    exact ((Session.lasting_namedBy sink globals).performAll hnew actions).2
  have hbound (actions : List Session.Action) (name : Text) (v : Value)
      (h : (reached actions).get? name = some v) :
      name.IsWord ∨ (globals.get? name).isSome = true :=
    hnamed actions name (Option.isSome_iff_exists.2 ⟨v, h⟩)
  refine ⟨fun actions name v h => ⟨?_, hbound actions name v h, ?_, ?_⟩, ?_, ?_⟩
  · rcases hbound actions name v h with hword | hglobal
    · rw [Line.fieldTexts_of_isWord hword, List.length_singleton]
    · exact Engine.fieldTexts_of_new accepted hglobal
  · exact fun hname => Store.evaluate_of_trim_eq hname h
  · exact fun hname => Store.evaluate_set_of_trim_ne hname _
  · -- a global is bound before anything is done
    intro hall name v hv
    have hstart : (reached []).get? name = some v := by
      rw [← hv, ← Engine.new_store accepted]
      rfl
    exact (hall [] name v hstart).2.1
  · intro hspaceless actions name v h
    have hword : name.IsWord := by
      rcases hbound actions name v h with hword | hglobal
      · exact hword
      · obtain ⟨w, hw⟩ := Option.isSome_iff_exists.1 hglobal
        have hne : name ≠ [] := by
          rintro rfl
          exact absurd (Engine.fieldTexts_of_new accepted hglobal) (by decide)
        exact ⟨hne, hspaceless name w hw⟩
    exact ⟨hword.ne_nil, hword.isSpace, Store.evaluate_of_trim_eq hword.trim h⟩

/-- A number is bound by a script and can be read back; a global with a blank before its name is read
by nothing. -/
theorem bound_names_read_back_blank :
    let globals : Store := .ofList [(" x", .int 1)]
    let e : Engine := { globals, lineLimit := 1048576, store := globals }
    let actions : List Session.Action :=
      [.exec "let int y = 4", .reset, .run (fun _ => false) false "let string 5 = a\nlet int z = w"]
    let store : Store := (Session.performAll { engine := e } {} actions).engine.store
    Engine.new globals 0 = .ok e ∧ store.evaluate "5" = .ok (.string "a") ∧
      ∀ w expr, (store.set " x" w).evaluate expr = store.evaluate expr := by
  intro globals e actions store
  have accepted : Engine.new globals 0 = .ok e := by decide +kernel
  obtain ⟨hread, -⟩ := bound_names_read_back accepted {}
  have hfive : store.get? "5" = some (.string "a") := by decide +kernel
  have hblank : store.get? " x" = some (.int 1) := by decide +kernel
  obtain ⟨-, -, hback, -⟩ := hread actions "5" _ hfive
  obtain ⟨-, -, -, hnever⟩ := hread actions " x" _ hblank
  exact ⟨accepted, hback (by decide), hnever (by decide)⟩

/-- An accepted global is bound under a name with white space, and its name reads as something else. -/
theorem not_bound_names_read_back :
    let globals : Store := .ofList [(" x", .int 1)]
    let e : Engine := { globals, lineLimit := 1048576, store := globals }
    Engine.new globals 0 = .ok e ∧ e.store.get? " x" = some (.int 1) ∧
      (∃ b ∈ Text.ofString " x", Text.isSpace b = true) ∧
      e.store.evaluate " x" = .ok (.string "x") := by
  decide +kernel

end LineScript
