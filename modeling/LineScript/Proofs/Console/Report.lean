import LineScript.Proofs.Bindings
import LineScript.Proofs.Console.Ledger
import LineScript.Proofs.Console.Loading
import LineScript.Proofs.Formatting

/-! What the console says of a declaration. It says what the declaration binds, or that it is ignored
if it binds nothing. One kind of line is told wrongly: one that is ignored because its keyword is not
spelt in full, but names a type and a variable. It is said to have bound what the variable holds. -/

namespace LineScript

namespace Line

/-- A declaration keeps its kind when it is trimmed. -/
theorem classify_trim {line : Text} (h : classify line = .declaration) :
    classify line.trim = .declaration := by
  obtain ⟨word, hword, rest, rfl⟩ := exists_keyword_of_classify h
  have hne : word ≠ [] := by
    rintro rfl
    exact absurd hword (by decide)
  have hblank : ∀ b ∈ word, Text.isBlank b = false := by
    intro b hb
    rw [Bool.eq_false_iff]
    intro hblank
    exact Bool.noConfusion
      ((isSpace_of_mem_keyword hword b hb).symm.trans (Text.isSpace_of_isBlank hblank))
  rw [Text.trim_append_of_forall hne hblank, classify_keyword_append hword]

/-- A raw line that would declare a name, were its keyword spelt in full. -/
def Misspells (raw name : Text) : Prop :=
  ∃ keyword ∉ declarationKeywords, ∃ type more,
    fieldTexts raw.trim = keyword :: DeclaredType.name type :: name :: more

theorem Misspells.binding? {raw name : Text} (h : Misspells raw name) : binding? raw = none := by
  obtain ⟨keyword, hkeyword, type, more, hfields⟩ := h
  match hbinding : Line.binding? raw with
  | none => rfl
  | some (bound, v) =>
    obtain ⟨type', value, ⟨-, keyword', hkeyword', more', hfields', -⟩, -⟩ :=
      exists_declares_of_binding? hbinding
    rw [hfields] at hfields'
    obtain ⟨rfl, -⟩ := List.cons.inj hfields'
    exact absurd hkeyword' hkeyword

theorem binding?_eq_some_iff {raw name : Text} {v : Value} :
    binding? raw = some (name, v) ↔
      ∃ type value, Declares raw type name value ∧ type.read value = .ok v :=
  ⟨exists_declares_of_binding?, fun ⟨_, _, hdeclares, hread⟩ => binding?_of_declares hdeclares hread⟩

end Line

namespace Console

/-- That a name is bound to a value, as the console says it. -/
def bindingReport (name : Text) (v : Value) : Text := Text.cat [name, " = ", v.shown .bound]

/-- What is to be said of a line that binds a name to a value, or none. -/
def dueReport : Option (Text × Value) → Text
  | some (name, v) => bindingReport name v
  | none => "ignored"

/-- A line that is told wrongly: it is ignored, but seems to declare a variable that there is. -/
def Mistold (s : Store) (raw : Text) : Prop :=
  ∃ name v, Line.Misspells raw name ∧ s.get? name = some v

theorem bindingReport_ne_ignored (name : Text) (v : Value) : bindingReport name v ≠ "ignored" := by
  intro h
  have hblank : (0x20 : UInt8) ∈ bindingReport name v := by
    have hequals : Text.ofString " = " = [0x20, 0x3d, 0x20] := rfl
    simp [bindingReport, Text.cat, hequals]
  rw [h] at hblank
  exact absurd hblank (by decide)

section Fields
variable {input name : Text} {type : DeclaredType} {keyword : Text} {more : List Text}

theorem declarationReport_of_fields
    (h : Line.fieldTexts input = keyword :: type.name :: name :: more) (s : Store) :
    declarationReport s input = (s.get? name).elim (Text.ofString "ignored") (bindingReport name) := by
  have hmem : name ∈ Line.fieldTexts input := by simp [h]
  obtain ⟨-, htype, hidentifier, -⟩ := Declaration.ofLine_of_fieldTexts h
  have hknown : DeclaredType.ofName? type.name = some type :=
    DeclaredType.ofName?_eq_some_iff.2 rfl
  simp only [declarationReport, hidentifier, htype, hknown, Line.ne_nil_of_mem_fieldTexts hmem,
    false_or]
  cases s.get? name <;> rfl

theorem declarationReport_of_no_fields
    (h : ∀ keyword type name more,
      Line.fieldTexts input ≠ keyword :: DeclaredType.name type :: name :: more) (s : Store) :
    declarationReport s input = "ignored" := by
  refine if_pos ?_
  by_contra hnot
  obtain ⟨hidentifier, htype⟩ := not_or.1 hnot
  obtain ⟨name, more, hfields⟩ := Declaration.exists_fieldTexts_eq hidentifier
  obtain ⟨type, htype⟩ := Option.ne_none_iff_exists'.1 htype
  rw [DeclaredType.ofName?_eq_some_iff.1 htype] at hfields
  exact h _ _ _ _ hfields

end Fields

section Run
variable {e : Engine} {input : Text} (kind : Line.classify input = .declaration)
  (passes : (e.exec none input).failure = none)
include kind

theorem run_store : (run e input).1.store = e.store.withBinding (Line.binding? input) := by
  rw [run_of_statement e (by simp [kind]), Engine.exec_store, Store.after_eq]

include passes

theorem run_outcome :
    (run e input).2 = { output := declarationReport (e.store.after input) input } := by
  have hclean : (e.exec none input).diagnostic = none := by
    rw [Engine.exec_declaration (Line.classify_trim kind), Engine.declare_diagnostic]
  rw [run_of_statement e (by simp [kind])]
  simp only [statementOutcome, passes, hclean, kind, Engine.exec_store]

theorem run_of_binding {name : Text} {v : Value} (h : Line.binding? input = some (name, v)) :
    (run e input).2 = { output := bindingReport name v } := by
  obtain ⟨type, value, ⟨-, keyword, -, more, hfields, -⟩, -⟩ := Line.exists_declares_of_binding? h
  rw [Line.fieldTexts_trim] at hfields
  rw [run_outcome kind passes, declarationReport_of_fields hfields,
    Store.get?_after_of_binding h e.store, Option.elim_some]

theorem run_of_misspells {name : Text} (h : Line.Misspells input name) :
    (run e input).2 =
      { output := (e.store.get? name).elim (Text.ofString "ignored") (bindingReport name) } := by
  have hnone := h.binding?
  obtain ⟨keyword, -, type, more, hfields⟩ := h
  rw [Line.fieldTexts_trim] at hfields
  rw [run_outcome kind passes, declarationReport_of_fields hfields, Store.after_eq, hnone]
  rfl

theorem run_of_not_misspells (hnone : Line.binding? input = none)
    (h : ∀ name, ¬ Line.Misspells input name) : (run e input).2 = { output := "ignored" } := by
  rw [run_outcome kind passes, declarationReport_of_no_fields]
  intro keyword type name more hfields
  rw [← Line.fieldTexts_trim] at hfields
  by_cases hkeyword : keyword ∈ Line.declarationKeywords
  · -- the line declares the name, and would have bound it
    have hdeclares : Line.Declares input type name _ :=
      ⟨Line.classify_trim kind, keyword, hkeyword, more, hfields, rfl⟩
    obtain ⟨v, hread⟩ := Engine.exists_read_of_passes hdeclares passes
    exact absurd (hnone.symm.trans (Line.binding?_of_declares hdeclares hread)) (by simp)
  · exact h name ⟨keyword, hkeyword, type, more, hfields⟩

end Run

/-- The console says of a declaration what it did, unless it is mistold. A declaration that runs
without error is said to have bound the name and the value that it has bound, if its keyword is spelt
in full, its type is known and its identifier is there. Otherwise it is said to be ignored, or, if it
is mistold, to have bound what the variable holds. -/
theorem declaration_told_iff {e : Engine} {input : Text}
    (kind : Line.classify input = .declaration) (passes : (e.exec none input).failure = none) :
    (run e input).1.store = e.store.withBinding (Line.binding? input) ∧
    (∀ name v, Line.binding? input = some (name, v) ↔
      ∃ type value, Line.Declares input type name value ∧ type.read value = .ok v) ∧
    ((run e input).2 = { output := dueReport (Line.binding? input) } ↔ ¬ Mistold e.store input) ∧
    ∀ name v, Line.Misspells input name → e.store.get? name = some v →
      Line.binding? input = none ∧ (run e input).2 = { output := bindingReport name v } := by
  have hmistold : ∀ name v, Line.Misspells input name → e.store.get? name = some v →
      Line.binding? input = none ∧ (run e input).2 = { output := bindingReport name v } := by
    intro name v hmisspells hbound
    refine ⟨hmisspells.binding?, ?_⟩
    rw [run_of_misspells kind passes hmisspells, hbound, Option.elim_some]
  refine ⟨run_store kind, fun name v => Line.binding?_eq_some_iff, ?_, hmistold⟩
  constructor
  · rintro htold ⟨name, v, hmisspells, hbound⟩
    obtain ⟨hnone, hreport⟩ := hmistold name v hmisspells hbound
    rw [hnone, hreport] at htold
    exact bindingReport_ne_ignored name v (congrArg Outcome.output htold)
  · intro hnot
    match hbinding : Line.binding? input with
    | some (name, v) => exact run_of_binding kind passes hbinding
    | none =>
      by_cases hmisspells : ∃ name, Line.Misspells input name
      · obtain ⟨name, hmisspells⟩ := hmisspells
        rw [run_of_misspells kind passes hmisspells]
        cases hbound : e.store.get? name with
        | none => rfl
        | some v => exact absurd ⟨name, v, hmisspells, hbound⟩ hnot
      · exact run_of_not_misspells kind passes hbinding (not_exists.1 hmisspells)

/-- A declaration of a variable that there is already, and the same with a longer keyword. -/
theorem declaration_told_iff_letter :
    let e : Engine :=
      { globals := .empty, lineLimit := 65536, store := .ofList [("x", .int 5)] }
    let declared : Text := "let boolean  x : yes now "
    let misspelt : Text := "letter int x = 9"
    Line.classify declared = .declaration ∧ (e.exec none declared).failure = none ∧
      (run e declared).1.store = .ofList [("x", .bool false)] ∧
      (run e declared).2 = { output := "x = false (bool, variable)" } ∧
      Line.classify misspelt = .declaration ∧ (e.exec none misspelt).failure = none ∧
      Line.Misspells misspelt "x" ∧ (run e misspelt).1.store = e.store ∧
      (run e misspelt).2 = { output := "x = 5 (int, variable)" } := by
  intro e declared misspelt
  have kind : Line.classify declared = .declaration := by decide
  have kind' : Line.classify misspelt = .declaration := by decide
  have passes : (e.exec none declared).failure = none := by decide +kernel
  have passes' : (e.exec none misspelt).failure = none := by decide +kernel
  have hmisspells : Line.Misspells misspelt "x" :=
    ⟨"letter", by decide, .int, ["=", "9"], by decide⟩
  have hother : ∀ keyword type name more, Line.fieldTexts declared.trim =
      keyword :: DeclaredType.name type :: name :: more → keyword = "let" := by
    intro keyword type name more hfields
    have hlet : Line.fieldTexts declared.trim = ["let", "boolean", "x", ":", "yes", "now"] := by
      decide
    exact (List.cons.inj (hfields.symm.trans hlet)).1
  have hnot : ¬ Mistold e.store declared := by
    rintro ⟨name, v, ⟨keyword, hkeyword, type, more, hfields⟩, -⟩
    rw [hother keyword type name more hfields] at hkeyword
    exact absurd hkeyword (by decide)
  obtain ⟨hstore, -, htold, -⟩ := declaration_told_iff kind passes
  obtain ⟨hstore', -, -, hmistold⟩ := declaration_told_iff kind' passes'
  obtain ⟨hnone, hreport⟩ := hmistold "x" (.int 5) hmisspells (by decide)
  refine ⟨kind, passes, hstore.trans (by decide +kernel), (htold.2 hnot).trans (by decide +kernel),
    kind', passes', hmisspells, ?_, hreport.trans (by decide +kernel)⟩
  rw [hstore', hnone]
  rfl

/-- Once a variable has been declared, a line whose keyword is longer binds nothing and is said to
have bound the variable. -/
theorem letter_told_as_binding :
    let files : FileTree := ⟨[], []⟩
    let typed := World.answer {} files (.pasted "let int x = 5".toList)
    let w := typed.answer files (.key .enter)
    let e := w.console.engine
    let input : Text := "letter int x = 9"
    w.Reachable ∧ Line.classify input = .declaration ∧ (e.exec none input).failure = none ∧
      Line.binding? input = none ∧ (run e input).1.store = e.store ∧
      (run e input).2 = { output := "x = 5 (int, variable)" } ∧
      (run e input).2 ≠ { output := dueReport (Line.binding? input) } := by
  intro files typed w e input
  have htyped : typed.Reachable := .answer files _ .start Message.noConfusion
  have hw : w.Reachable := .answer files _ htyped Message.noConfusion
  exact ⟨hw, by decide, by decide +kernel, by decide +kernel, by decide +kernel,
    by decide +kernel, by decide +kernel⟩

end Console

end LineScript
