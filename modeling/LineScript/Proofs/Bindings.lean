import LineScript.Proofs.Evaluate
import LineScript.Proofs.Exec
import LineScript.Proofs.Fields
import LineScript.Proofs.History

/-! What a line binds, and what a span reads. Whether a line binds a name, and to which value, is in
the line alone: no declaration reads a variable. A span whose text has been declared in the run
reads the value of the latest declaration. Otherwise it reads what the text was bound to before the
run, and if it was not bound then, its value is in its text alone. -/

namespace LineScript

/-- A raw line declares a name: it is a declaration whose first fields are a keyword, spelt in full,
a type and the name. The text of the value is its fifth field, and empty if there is none. -/
def Line.Declares (raw : Text) (type : DeclaredType) (name value : Text) : Prop :=
  classify raw.trim = .declaration ∧ ∃ keyword ∈ declarationKeywords, ∃ more,
    fieldTexts raw.trim = keyword :: type.name :: name :: more ∧ value = more[1]?.getD []

theorem DeclaredType.ofName?_eq_some_iff {t : Text} {type : DeclaredType} :
    ofName? t = some type ↔ t = type.name := by
  constructor
  · intro h
    have hname := List.find?_some h
    exact (of_decide_eq_true hname).symm
  · rintro rfl
    cases type <;> decide

namespace Declaration

/-- What a declaration binds, whatever is bound before it. -/
def binding (d : Declaration) : Except EvalError (Option (Text × Value)) :=
  match d.effect? with
  | none => .ok none
  | some type =>
    match type.read d.value with
    | .ok v => .ok (some (d.identifier, v))
    | .error e => .error { cause := .literal e, source := d.value }

theorem exists_effect?_of_binding {d : Declaration} {name : Text} {v : Value}
    (h : d.binding = .ok (some (name, v))) :
    ∃ type, d.effect? = some type ∧ d.identifier = name ∧ type.read d.value = .ok v := by
  unfold binding at h
  cases heffect : d.effect? with
  | none => simp [heffect] at h
  | some type =>
    simp only [heffect] at h
    cases hread : type.read d.value with
    | error e => simp [hread] at h
    | ok w =>
      simp only [hread] at h
      obtain ⟨hname, hvalue⟩ := Prod.mk.inj (Option.some.inj (Except.ok.inj h))
      exact ⟨type, rfl, hname, hvalue ▸ hread⟩

theorem ofLine_of_fieldTexts {line keyword type name : Text} {more : List Text}
    (h : Line.fieldTexts line = keyword :: type :: name :: more) :
    (ofLine line).keyword = keyword ∧ (ofLine line).type = type ∧
      (ofLine line).identifier = name ∧ (ofLine line).value = more[1]?.getD [] := by
  rw [keyword_ofLine, type_ofLine, identifier_ofLine, value_ofLine, h]
  exact ⟨rfl, rfl, rfl, rfl⟩

/-- Where the third field is there, so are the two before it. -/
theorem exists_fieldTexts_eq {line : Text} (h : (ofLine line).identifier ≠ []) :
    ∃ name more, Line.fieldTexts line =
      (ofLine line).keyword :: (ofLine line).type :: name :: more := by
  rw [identifier_ofLine] at h
  rw [keyword_ofLine, type_ofLine]
  match hfields : Line.fieldTexts line with
  | [] | [_] | [_, _] => simp [hfields] at h
  | keyword :: type :: name :: more => exact ⟨name, more, rfl⟩

theorem effect?_ofLine_eq_some_iff {line : Text} {type : DeclaredType} :
    (ofLine line).effect? = some type ↔ ∃ keyword ∈ Line.declarationKeywords, ∃ name more,
      Line.fieldTexts line = keyword :: type.name :: name :: more := by
  constructor
  · intro h
    unfold effect? at h
    split at h
    · rename_i hwords
      obtain ⟨hkeyword, hidentifier⟩ : isKeyword (ofLine line).keyword = true ∧
          (ofLine line).identifier ≠ [] := by simpa using hwords
      obtain ⟨name, more, hfields⟩ := exists_fieldTexts_eq hidentifier
      rw [DeclaredType.ofName?_eq_some_iff.1 h] at hfields
      rw [isKeyword, List.contains_iff_mem] at hkeyword
      exact ⟨_, hkeyword, name, more, hfields⟩
    · exact absurd h (by simp)
  · rintro ⟨keyword, hkeyword, name, more, hfields⟩
    obtain ⟨hword, htype, hidentifier, -⟩ := ofLine_of_fieldTexts hfields
    have hmem : name ∈ Line.fieldTexts line := by simp [hfields]
    have hname : name ≠ [] := Line.ne_nil_of_mem_fieldTexts hmem
    have hwords : (isKeyword keyword && decide (name ≠ [])) = true := by
      simpa [isKeyword, hname] using hkeyword
    rw [effect?, hword, hidentifier, htype, if_pos hwords]
    exact DeclaredType.ofName?_eq_some_iff.2 rfl

end Declaration

namespace Line

/-- The name that a raw line binds and the value that it binds it to, if it binds one. -/
def binding? (raw : Text) : Option (Text × Value) :=
  match classify raw.trim with
  | .declaration =>
    match (Declaration.ofLine raw.trim).binding with
    | .ok b => b
    | .error _ => none
  | _ => none

variable {raw name value : Text} {type : DeclaredType} {v : Value}

theorem Declares.effect? (h : Declares raw type name value) :
    let d := Declaration.ofLine raw.trim
    d.effect? = some type ∧ d.identifier = name ∧ d.value = value := by
  obtain ⟨_, keyword, hkeyword, more, hfields, rfl⟩ := h
  have heffect := Declaration.effect?_ofLine_eq_some_iff.2 ⟨keyword, hkeyword, name, more, hfields⟩
  obtain ⟨-, -, hidentifier, hvalue⟩ := Declaration.ofLine_of_fieldTexts hfields
  exact ⟨heffect, hidentifier, hvalue⟩

theorem binding?_of_declares (h : Declares raw type name value) (hv : type.read value = .ok v) :
    binding? raw = some (name, v) := by
  obtain ⟨heffect, rfl, rfl⟩ := h.effect?
  have hbinding : (Declaration.ofLine raw.trim).binding =
      .ok (some ((Declaration.ofLine raw.trim).identifier, v)) := by
    simp only [Declaration.binding, heffect, hv]
  simp only [binding?, h.1, hbinding]

theorem exists_declares_of_binding? (h : binding? raw = some (name, v)) :
    ∃ type value, Declares raw type name value ∧ type.read value = .ok v := by
  unfold binding? at h
  split at h
  · rename_i hkind
    split at h
    · rename_i hbinding
      rw [h] at hbinding
      obtain ⟨type, heffect, rfl, hread⟩ := Declaration.exists_effect?_of_binding hbinding
      obtain ⟨keyword, hkeyword, name, more, hfields⟩ :=
        Declaration.effect?_ofLine_eq_some_iff.1 heffect
      obtain ⟨-, -, hidentifier, hvalue⟩ := Declaration.ofLine_of_fieldTexts hfields
      rw [hidentifier]
      exact ⟨type, _, ⟨hkind, keyword, hkeyword, more, hfields, hvalue⟩, hread⟩
    · exact absurd h (by simp)
  · exact absurd h (by simp)

end Line

namespace Store

/-- The variables with one more binding, if there is one. -/
def withBinding (s : Store) (b : Option (Text × Value)) : Store :=
  b.elim s fun p => s.set p.1 p.2

/-- A declaration changes the variables by what it binds, and fails whatever they are. -/
theorem assign_eq (s : Store) (line : Text) :
    s.assign line = (Declaration.ofLine line).binding.map s.withBinding := by
  unfold assign Declaration.run Declaration.binding
  cases (Declaration.ofLine line).effect? with
  | none => rfl
  | some type =>
    dsimp only
    cases type.read (Declaration.ofLine line).value <;> rfl

theorem after_eq (s : Store) (raw : Text) : s.after raw = s.withBinding (Line.binding? raw) := by
  unfold after Line.binding?
  cases Line.classify raw.trim with
  | ignored => rfl
  | echo => rfl
  | declaration =>
    rw [assign_eq]
    cases (Declaration.ofLine raw.trim).binding <;> rfl

theorem get?_after_of_binding {raw name : Text} {v : Value}
    (h : Line.binding? raw = some (name, v)) (s : Store) : (s.after raw).get? name = some v := by
  rw [after_eq, h]
  exact get?_set_self s name v

theorem get?_after_of_no_binding {raw name : Text}
    (h : ∀ v, Line.binding? raw ≠ some (name, v)) (s : Store) :
    (s.after raw).get? name = s.get? name := by
  rw [after_eq]
  match hbinding : Line.binding? raw with
  | none => rfl
  | some (other, v) =>
    have hother : name ≠ other := by
      rintro rfl
      exact h v hbinding
    exact get?_set_of_ne s hother v

end Store

/-- A line that declares a name and passes gives it a value. -/
theorem Engine.exists_read_of_passes {e : Engine} {refusal : Option Text} {raw name value : Text}
    {type : DeclaredType} (h : Line.Declares raw type name value)
    (hpass : (e.exec refusal raw).failure = none) : ∃ v, type.read value = .ok v := by
  cases hread : type.read value with
  | ok v => exact ⟨v, rfl⟩
  | error err =>
    obtain ⟨heffect, -, hvalue⟩ := h.effect?
    have hassign : (e.count .declaration).store.assign raw.trim =
        .error { cause := .literal err, source := value } := by
      simp only [Store.assign, Declaration.run, heffect, hvalue, hread]
    rw [exec_declaration h.1, declare_of_error hassign] at hpass
    exact absurd hpass (by simp)

namespace Session

section Turns
variable {sink : Sink} {halts : Nat → Bool} {s : Session} {lines : List Text} {turn : Turn}

end Turns

end Session

end LineScript
