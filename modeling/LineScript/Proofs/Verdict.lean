import LineScript.Proofs.Canonical
import LineScript.Proofs.Prediction

/-! The linter on a formatted script. A remark is made for the kind of a line, the text that it
echoes and the fields that it declares, and formatting a line keeps all three. Only the places
within the lines move, so that the linter says the same of the same lines. -/

namespace LineScript

namespace Declaration

/-- Lines with the same fields are the same declaration, but for the place of the value. -/
theorem ofLine_congr {line line' : Text} (h : Line.fieldTexts line = Line.fieldTexts line') :
    ofLine line = { ofLine line' with valueOffset := (ofLine line).valueOffset } := by
  have hkeyword : (ofLine line).keyword = (ofLine line').keyword := by
    rw [keyword_ofLine, keyword_ofLine, h]
  have htype : (ofLine line).type = (ofLine line').type := by rw [type_ofLine, type_ofLine, h]
  have hidentifier : (ofLine line).identifier = (ofLine line').identifier := by
    rw [identifier_ofLine, identifier_ofLine, h]
  have hequals : (ofLine line).equals = (ofLine line').equals := by
    rw [equals_ofLine, equals_ofLine, h]
  have hvalue : (ofLine line).value = (ofLine line').value := by rw [value_ofLine, value_ofLine, h]
  dsimp only
  rw [← hkeyword, ← htype, ← hidentifier, ← hequals, ← hvalue]

end Declaration

theorem Line.Alike.after {a b : Text} (h : Line.Alike a b) (s : Store) :
    s.after a = s.after b := by
  unfold Store.after
  rw [← h.kind]
  cases hkind : Line.classify a.trim with
  | ignored => rfl
  | echo => rfl
  | declaration => rw [s.assign_congr (h.fields hkind)]

namespace Lint

/-- What is remarked, wherever it stands. -/
def remarks (notes : List Note) : List Remark := notes.map (·.remark)

theorem remarks_append (a b : List Note) : remarks (a ++ b) = remarks a ++ remarks b :=
  List.map_append

theorem remarks_ite {c : Prop} [Decidable c] (a b : List Note) :
    remarks (if c then a else b) = if c then remarks a else remarks b := by
  split <;> rfl

theorem remarks_formNotes (d : Declaration) (indent indent' offset fieldCount : Nat) :
    remarks (formNotes { d with valueOffset := offset } indent fieldCount) =
      remarks (formNotes d indent' fieldCount) := by
  simp only [formNotes, remarks_append, remarks_ite]
  rfl

/-- The remarks on a declaration line depend on its fields alone. -/
theorem remarks_declarationNotes (s : Store) (indent indent' : Nat) {line line' : Text}
    (h : Line.fieldTexts line = Line.fieldTexts line') :
    remarks (declarationNotes s indent line).1 = remarks (declarationNotes s indent' line').1 := by
  have hlength : (Line.fields line).length = (Line.fields line').length := by
    have htexts := congrArg List.length h
    rwa [Line.fieldTexts, Line.fieldTexts, List.length_map, List.length_map] at htexts
  have hdeclaration := Declaration.ofLine_congr h
  have hignored : ignoredRemark? (Declaration.ofLine line) =
      ignoredRemark? (Declaration.ofLine line') := by
    rw [hdeclaration]
    rfl
  have hform : remarks (formNotes (Declaration.ofLine line) indent (Line.fields line).length) =
      remarks (formNotes (Declaration.ofLine line') indent' (Line.fields line').length) := by
    rw [hdeclaration, hlength]
    exact remarks_formNotes ..
  simp only [declarationNotes, hignored, s.assign_congr h]
  cases ignoredRemark? (Declaration.ofLine line') with
  | some remark => rfl
  | none =>
    cases s.assign line' with
    | ok store => exact hform
    | error e =>
      dsimp only
      rw [remarks_append, remarks_append, hform]
      rfl

theorem remarks_echoNotes (s : Store) (base base' : Nat) (text : Text) :
    remarks (echoNotes s base text) = remarks (echoNotes s base' text) := by
  have hsegment (seg : Segment) :
      (segmentNote? s base seg).map (·.remark) = (segmentNote? s base' seg).map (·.remark) := by
    obtain ⟨piece, offset⟩ := seg
    cases piece with
    | literal t => rfl
    | span source =>
      simp only [segmentNote?, Option.map_map]
      rfl
  have hsegments (segs : List Segment) :
      remarks (segs.filterMap (segmentNote? s base)) =
        remarks (segs.filterMap (segmentNote? s base')) := by
    rw [remarks, remarks, List.map_filterMap, List.map_filterMap]
    exact congrArg (fun f => segs.filterMap f) (funext hsegment)
  simp only [echoNotes, remarks_append, hsegments]
  cases (segments text).error <;> rfl

theorem remarks_formatLine (s : Store) (raw : Text) :
    remarks (lineNotes s (formatLine raw)).1 = remarks (lineNotes s raw).1 := by
  have halike := alike_formatLine raw
  have htrim := trim_formatLine raw
  cases hkind : Line.classify raw.trim with
  | declaration =>
    have hformatted : Line.classify (formatLine raw).trim = .declaration := halike.kind ▸ hkind
    have hne : raw.trim ≠ [] := fun hnil => absurd (hnil ▸ hkind) (by decide)
    have hne' : (formatLine raw).trim ≠ [] := fun hnil => absurd (hnil ▸ hformatted) (by decide)
    simp only [lineNotes, if_neg hne, if_neg hne', hkind, hformatted]
    exact remarks_declarationNotes s _ _ (halike.fields hkind).symm
  | ignored =>
    have hsame : (formatLine raw).trim = raw.trim := by
      rw [htrim, formatLine_of_ne (by simp [hkind])]
    simp only [lineNotes, hsame, hkind]
    split <;> rfl
  | echo =>
    have hsame : (formatLine raw).trim = raw.trim := (halike.text hkind).symm
    simp only [lineNotes, hsame, hkind]
    split
    · rfl
    · exact remarks_echoNotes ..

end Lint

namespace Warning

/-- The line that a warning is about and what it says of it. -/
def verdict (w : Warning) : Nat × Text := (w.line, w.remark.message)

end Warning

namespace Lint

theorem map_verdict_toWarning (notes : List Note) (number : Nat) (raw : Text) :
    (notes.map (·.toWarning number raw)).map Warning.verdict =
      (remarks notes).map fun r => (number, r.message) := by
  rw [remarks, List.map_map, List.map_map]
  rfl

theorem verdicts_map_formatLine (number : Nat) (s : Store) (lines : List Text) :
    (warningsFrom number s [] (lines.map formatLine)).map Warning.verdict =
      (warningsFrom number s [] lines).map Warning.verdict := by
  induction lines generalizing number s with
  | nil => rfl
  | cons raw rest ih =>
    have hafter : s.after (formatLine raw) = s.after raw := ((alike_formatLine raw).after s).symm
    rw [List.map_cons, warningsFrom_cons, warningsFrom_cons, List.map_append, List.map_append,
      map_verdict_toWarning, map_verdict_toWarning, remarks_formatLine, hafter, ih]

end Lint

/-- Formatting never changes what the linter says: of a script without stray carriage returns and of
its formatted form, it says the same things about the lines of the same numbers, whatever variables
the script starts with. -/
theorem lint_formatScript {source : Text} (paired : Lines.PairedReturns source) (globals : Store) :
    (lint globals (formatScript source)).map Warning.verdict =
      (lint globals source).map Warning.verdict := by
  obtain ⟨k, hk⟩ := exists_terminated_formatScript source
  obtain ⟨j, hj⟩ := Lines.exists_terminated_append (formatScript source)
  rw [Lines.universal_eq_divided paired] at hk
  have hformatted : lint globals (formatScript source) =
      Lint.warningsFrom 1 globals [] ((Lines.divided source).map formatLine) := by
    rw [lint, Lines.divided_of_not_mem (cr_not_mem_formatScript source), hj, hk,
      Lint.warningsFrom_append_blank, Lint.warningsFrom_append_blank]
  rw [hformatted, Lint.verdicts_map_formatLine, lint]

/-- Indented lines, runs of blanks and blank lines at the end: the warnings stay, and some of them
stand in other columns. -/
theorem lint_formatScript_untidy :
    let globals : Store := .ofList [("n", .int 1)]
    let source : Text :=
      "\techo \x7bn + 1\x7d \x7b\r\n  let   boolean 5 =  yes no\n\n let int x = y\n \n"
    Lines.PairedReturns source ∧
      (lint globals (formatScript source)).map Warning.verdict =
        (lint globals source).map Warning.verdict ∧
      (lint globals (formatScript source)).map (·.column) = [7, 14, 1, 1, 17, 13] ∧
      (lint globals source).map (·.column) = [8, 15, 3, 3, 22, 14] := by
  intro globals source
  have paired : Lines.PairedReturns source := by decide
  exact ⟨paired, lint_formatScript paired globals, by decide +kernel, by decide +kernel⟩

end LineScript
