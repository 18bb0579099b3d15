import LineScript.Proofs.Alike
import LineScript.Proofs.Evaluate
import LineScript.Proofs.Prediction

/-! Scripts without warnings. The linter and the run divide a text into lines that differ in blanks
and carriage returns at their ends only, which is of no account. A script without warnings reports
nothing, and it runs to its end exactly if none of its spans is misjudged. -/

namespace LineScript

namespace Line

def isEnd (b : UInt8) : Bool := Text.isBlank b || b == Text.cr

/-- A raw line without the blanks before it and the blanks and carriage returns after it. -/
def core (raw : Text) : Text := Text.trimRightBy isEnd (raw.dropWhile Text.isBlank)

theorem isEnd_of_isBlank {b : UInt8} (h : Text.isBlank b = true) : isEnd b = true := by
  rw [isEnd, h, Bool.true_or]

theorem isSpace_of_isEnd {b : UInt8} (h : isEnd b = true) : Text.isSpace b = true := by
  rw [isEnd, Bool.or_eq_true] at h
  rcases h with hblank | hcr
  · exact Text.isSpace_of_isBlank hblank
  · rw [beq_iff_eq.1 hcr]
    rfl

theorem exists_trim_eq_core_append (raw : Text) :
    ∃ rest, raw.trim = core raw ++ rest ∧ ∀ b ∈ rest, isEnd b = true := by
  obtain ⟨blanks, hblanks, hcut⟩ :=
    Text.exists_trimRightBy_append Text.isBlank (raw.dropWhile Text.isBlank)
  obtain ⟨rest, hrest, hcore⟩ := Text.exists_trimRightBy_append isEnd raw.trim
  refine ⟨rest, ?_, hrest⟩
  have hsame : core raw = Text.trimRightBy isEnd raw.trim := by
    rw [core, hcut, Text.trimRightBy_append_of_forall _ fun b hb => isEnd_of_isBlank (hblanks b hb)]
    rfl
  rw [hsame, ← hcore]

theorem core_eq {a b : Text} (h : Lines.withoutReturns a = Lines.withoutReturns b) :
    core a = core b := by
  have hcore (raw : Text) : core raw =
      (Text.trimRightBy isEnd (Lines.withoutReturns raw)).dropWhile Text.isBlank := by
    obtain ⟨returns, hreturns, hcut⟩ := Text.exists_trimRightBy_append (· == Text.cr) raw
    have hends : ∀ b ∈ returns, isEnd b = true := by
      intro b hb
      rw [isEnd, hreturns b hb, Bool.or_true]
    rw [core, ← Text.dropWhile_trimRightBy fun _ => isEnd_of_isBlank, hcut,
      Text.trimRightBy_append_of_forall _ hends, ← hcut]
    rfl
  rw [hcore, hcore, h]

section End
variable {rest : Text} (hrest : ∀ b ∈ rest, isEnd b = true)
include hrest

theorem isPrefixOf_append {word : Text} (hword : ∀ b ∈ word, Text.isSpace b = false) (t : Text) :
    word.isPrefixOf (t ++ rest) = word.isPrefixOf t := by
  rw [Bool.eq_iff_iff, List.isPrefixOf_iff_prefix, List.isPrefixOf_iff_prefix]
  refine ⟨fun h => ?_, fun h => h.trans (List.prefix_append t rest)⟩
  obtain ⟨after, hafter⟩ := h
  rcases List.append_eq_append_iff.1 hafter with ⟨more, ht, _⟩ | ⟨more, hmore, hrest'⟩
  · exact ⟨more, ht.symm⟩
  -- otherwise the word would run into the end of the line
  · cases more with
    | nil => exact ⟨[], by rw [hmore]; simp⟩
    | cons b more =>
      have hspace := isSpace_of_isEnd (hrest b (by simp [hrest']))
      rw [hword b (by simp [hmore])] at hspace
      exact absurd hspace (by simp)

theorem classify_append (t : Text) : classify (t ++ rest) = classify t := by
  have hany : declarationKeywords.any (·.isPrefixOf (t ++ rest)) =
      declarationKeywords.any (·.isPrefixOf t) := by
    rw [Bool.eq_iff_iff, List.any_eq_true, List.any_eq_true]
    refine exists_congr fun word => and_congr_right fun hword => ?_
    rw [isPrefixOf_append hrest (isSpace_of_mem_keyword hword)]
  rw [classify, isPrefixOf_append hrest fun _ => isSpace_of_mem_echoKeyword, hany, classify]

theorem echoText_append {t : Text} (h : classify t = .echo) :
    echoText (t ++ rest) = echoText t ++ rest := by
  have hkeyword := isPrefixOf_of_classify h
  rw [echoText, echoText, isPrefixOf_append hrest fun _ => isSpace_of_mem_echoKeyword,
    if_pos hkeyword, if_pos hkeyword,
    List.drop_append_of_le_length (List.isPrefixOf_iff_prefix.1 hkeyword).length_le]

end End

/-- Raw lines of one kind that declare the same fields or echo the same spans. -/
structure Kin (a b : Text) : Prop where
  kind : classify a.trim = classify b.trim
  fields : fieldTexts a.trim = fieldTexts b.trim
  outline : classify a.trim = .echo →
    (segments (echoText a.trim)).outline = (segments (echoText b.trim)).outline

theorem kin_of_withoutReturns {a b : Text} (h : Lines.withoutReturns a = Lines.withoutReturns b) :
    Kin a b := by
  obtain ⟨rest, ha, hrest⟩ := exists_trim_eq_core_append a
  obtain ⟨rest', hb, hrest'⟩ := exists_trim_eq_core_append b
  rw [← core_eq h] at hb
  have hbrace {rest : Text} (hrest : ∀ b ∈ rest, isEnd b = true) {c : UInt8}
      (hc : isEnd c = false) : c ∉ rest := by
    intro hmem
    rw [hrest c hmem] at hc
    exact absurd hc (by simp)
  have houtline {rest : Text} (hrest : ∀ b ∈ rest, isEnd b = true)
      (hecho : classify (core a) = .echo) :
      (segments (echoText (core a ++ rest))).outline = (segments (echoText (core a))).outline := by
    rw [echoText_append hrest hecho]
    exact Segmentation.outline_scan_append 0 _ [] _ (hbrace hrest (by decide))
      (hbrace hrest (by decide))
  refine ⟨?_, ?_, ?_⟩
  · rw [ha, hb, classify_append hrest, classify_append hrest']
  · rw [ha, hb, fieldTexts_append_spaces _ fun b hb => isSpace_of_isEnd (hrest b hb),
      fieldTexts_append_spaces _ fun b hb => isSpace_of_isEnd (hrest' b hb)]
  · intro hecho
    rw [ha, classify_append hrest] at hecho
    rw [ha, hb, houtline hrest hecho, houtline hrest' hecho]

theorem Kin.spans {a b : Text} (h : Kin a b) : Line.spans a = Line.spans b := by
  unfold Line.spans
  rw [← h.kind]
  split
  · rename_i hecho
    exact congrArg Prod.fst (h.outline hecho)
  · rfl

theorem Kin.after {a b : Text} (h : Kin a b) (s : Store) : s.after a = s.after b := by
  unfold Store.after
  rw [← h.kind, s.assign_congr h.fields]

end Line

theorem Declaration.trim_identifier (line : Text) :
    (ofLine line).identifier.trim = (ofLine line).identifier := by
  rw [identifier_ofLine]
  cases hfield : (Line.fieldTexts line)[2]? with
  | none => rfl
  | some word => exact (Line.isWord_of_mem_fieldTexts (List.mem_of_getElem? hfield)).trim

namespace Lint

theorem isOk_of_spanRemark_none {s : Store} {source : Text} (h : spanRemark? s source = none) :
    (s.evaluate (Text.trimWhite source)).isOk = true := by
  cases hv : s.evaluate (Text.trimWhite source) with
  | ok v => rfl
  | error e =>
    rw [spanRemark?_of_error hv] at h
    exact absurd h (by simp)

theorem passes_of_echoNotes_nil {s : Store} {base : Nat} {t : Text}
    (h : echoNotes s base t = []) : (segments t).error = none ∧
      ∀ source ∈ (segments t).spans, (s.evaluate (Text.trimWhite source)).isOk = true := by
  rw [echoNotes, List.append_eq_nil_iff] at h
  obtain ⟨hspans, hend⟩ := h
  refine ⟨by simpa using hend, ?_⟩
  intro source hsource
  obtain ⟨⟨piece, offset⟩, hseg, hpiece⟩ := List.mem_filterMap.1 hsource
  have hnone := List.filterMap_eq_nil_iff.1 hspans _ hseg
  cases piece with
  | literal text => exact absurd hpiece (by simp)
  | span text =>
    obtain rfl := Option.some.inj hpiece
    exact isOk_of_spanRemark_none (Option.map_eq_none_iff.1 hnone)

/-- A declaration without notes succeeds and binds a plain word. -/
theorem declares_of_declarationNotes_nil {s globals : Store} (h : s.ExtendsByWords globals)
    {indent : Nat} {line : Text} (hclean : (declarationNotes s indent line).1 = []) :
    ∃ s', s.assign line = .ok s' ∧ s'.ExtendsByWords globals := by
  simp only [declarationNotes] at hclean
  cases hremark : ignoredRemark? (Declaration.ofLine line) with
  | some r => simp [hremark] at hclean
  | none =>
    rw [hremark] at hclean
    cases hassign : s.assign line with
    | error e => simp [hassign] at hclean
    | ok s' =>
      refine ⟨s', rfl, ?_⟩
      rw [hassign] at hclean
      -- a name that reads as anything but a plain word would have been noted
      have hrule : Store.empty.rule (Declaration.ofLine line).identifier = .string := by
        by_contra hrule
        simp [formNotes, hrule] at hclean
      have hword : Rule.ofText (Declaration.ofLine line).identifier = .string := by
        rw [← Declaration.trim_identifier, ← hrule]
        rfl
      rcases Store.assign_ok hassign with rfl | ⟨v, rfl⟩
      · exact h
      · exact h.set hword v

/-- Executing a line that is kin to one without notes reports nothing, and fails exactly if the line
has a span that is misjudged. -/
theorem exec_of_lineNotes_nil {e : Engine} {globals : Store} (h : e.store.ExtendsByWords globals)
    {a b : Text} (hkin : Line.Kin a b) (hclean : (lineNotes e.store a).1 = []) :
    (e.exec none b).diagnostic = none ∧
    ((e.exec none b).failure = none ↔ ∀ source ∈ Line.spans a, ¬ Misjudged globals source) ∧
    (e.store.after a).ExtendsByWords globals := by
  cases hkind : Line.classify a.trim with
  | ignored =>
    have hspans : Line.spans a = [] := by rw [Line.spans, if_neg (by simp [hkind])]
    have hafter : e.store.after a = e.store := by rw [Store.after, hkind]
    rw [Engine.exec_ignored (hkin.kind ▸ hkind), hspans, hafter]
    exact ⟨rfl, by simp, h⟩
  | declaration =>
    have hspans : Line.spans a = [] := by rw [Line.spans, if_neg (by simp [hkind])]
    have hline : a.trim ≠ [] := by
      intro hnil
      rw [hnil] at hkind
      exact absurd hkind (by decide)
    simp only [lineNotes, if_neg hline, hkind] at hclean
    obtain ⟨s', hassign, hextends⟩ := declares_of_declarationNotes_nil h hclean
    have hafter : e.store.after a = s' := by rw [Store.after, hkind, hassign]
    have hexec : (e.count .declaration).store.assign b.trim = .ok s' :=
      (e.store.assign_congr hkin.fields).symm.trans hassign
    rw [Engine.exec_declaration (hkin.kind ▸ hkind), Engine.declare, hexec, hspans, hafter]
    exact ⟨rfl, by simp, hextends⟩
  | echo =>
    have hline : a.trim ≠ [] := by
      intro hnil
      rw [hnil] at hkind
      exact absurd hkind (by decide)
    have hafter : e.store.after a = e.store := by rw [Store.after, hkind]
    simp only [lineNotes, if_neg hline, hkind] at hclean
    obtain ⟨hend, hpass⟩ := passes_of_echoNotes_nil hclean
    -- the run reads the spans that the linter reads, so only their evaluation can differ
    have houtline := hkin.outline hkind
    have hspans : (segments (Line.echoText b.trim)).spans = Line.spans a := by
      rw [Line.spans, if_pos hkind]
      exact (congrArg Prod.fst houtline).symm
    have hend' : (segments (Line.echoText b.trim)).error = none := by
      have hsome : (segments (Line.echoText a.trim)).error.isSome =
          (segments (Line.echoText b.trim)).error.isSome := congrArg Prod.snd houtline
      rw [hend] at hsome
      simpa using hsome.symm
    have hfailure : e.store.failure? (Line.echoText b.trim) = none ↔
        ∀ source ∈ Line.spans a, ¬ Misjudged globals source := by
      rw [Store.failure?_eq_none_iff, hspans]
      refine forall₂_congr fun source hsource => ?_
      rw [Line.spans, if_pos hkind] at hsource
      rw [← evaluate_fails_iff_misjudged h (hpass source hsource), Bool.not_eq_false]
    rw [Engine.exec_echo (hkin.kind ▸ hkind), hafter, ← hfailure]
    cases hf : e.store.failure? (Line.echoText b.trim) with
    | none =>
      obtain ⟨hnone, hdiagnostic⟩ :=
        Engine.echo_of_terminated (e := e.count .echo) hf hend' none b
      exact ⟨hdiagnostic, by simp [hnone], h⟩
    | some err =>
      obtain ⟨hsome, hdiagnostic⟩ := Engine.echo_of_failure (e := e.count .echo) hf none b
      exact ⟨hdiagnostic, by simp [hsome], h⟩

end Lint

theorem Session.runLines_of_clean {sink : Sink} (steady : sink.IsSteady) {globals : Store}
    {lines lines' : List Text} (hkin : List.Forall₂ Line.Kin lines lines') {number : Nat}
    {s : Session} (hs : s.cancelled = false) (h : s.engine.store.ExtendsByWords globals)
    (hclean : Lint.warningsFrom number s.engine.store [] lines = []) :
    (runLines sink s lines').1.diagnostics = s.diagnostics ∧
    ((runLines sink s lines').2 = none ↔
      ∀ raw ∈ lines, ∀ source ∈ Line.spans raw, ¬ Misjudged globals source) := by
  induction hkin generalizing number s with
  | nil => exact ⟨rfl, by simp [runLines_nil]⟩
  | @cons a b rest rest' hab _ ih =>
    rw [Lint.warningsFrom_cons, List.append_eq_nil_iff, List.map_eq_nil_iff] at hclean
    obtain ⟨hnotes, hlater⟩ := hclean
    obtain ⟨hdiagnostic, hfailure, hextends⟩ := Lint.exec_of_lineNotes_nil h hab hnotes
    have hexec := exec_failure s sink b
    have hdiagnostics := exec_diagnostics s sink b
    rw [steady.1] at hexec hdiagnostics
    rw [hdiagnostic, Option.toList_none, List.nil_append] at hdiagnostics
    rw [List.forall_mem_cons, ← hfailure, ← hexec]
    cases hf : (s.exec sink b).2 with
    | some f =>
      rw [runLines_cons_of_failure hs hf]
      exact ⟨hdiagnostics, by simp⟩
    | none =>
      have hstore : (s.exec sink b).1.engine.store = s.engine.store.after a := by
        rw [exec_store, hab.after]
      rw [← hstore] at hextends hlater
      obtain ⟨hreport, hend⟩ := ih (exec_cancelled steady s b ▸ hs) hextends hlater
      rw [runLines_cons_of_none hs hf, hreport, hdiagnostics, hend]
      exact ⟨rfl, by simp⟩

theorem Lines.forall₂_kin_divided (source : Text) :
    List.Forall₂ Line.Kin (divided source) ((source.splitOn Text.lf).map strip) := by
  have hsame := (map_withoutReturns_strip source).symm
  have hreturns := List.forall₂_map_left_iff.1
    (List.forall₂_map_right_iff.1 (List.forall₂_eq_eq_eq ▸ hsame))
  exact hreturns.imp fun _ _ => Line.kin_of_withoutReturns

/-- A script without warnings reports nothing when it runs, and it ends without failure exactly if
none of its spans is misjudged. -/
theorem clean_run_iff_of_clean_lint {globals : Store} {maxLine : Int} {e : Engine} {sink : Sink}
    {source : Text} (accepted : Engine.new globals maxLine = .ok e) (steady : sink.IsSteady)
    (short : ∀ line ∈ Lines.terminated source, line.length < e.lineLimit)
    (clean : lint globals source = []) :
    let result := Session.run { engine := e } sink false source
    result.1.diagnostics = [] ∧ (result.2 = none ↔
      ∀ raw ∈ Lines.divided source, ∀ expr ∈ Line.spans raw, ¬ Misjudged globals expr) := by
  intro result
  let start : Session := { engine := { e with line := 0 } }
  have hstore : start.engine.store = globals := (Engine.new_store accepted :)
  have hresult : result = Session.runLines sink start ((Lines.terminated source).map Lines.strip) :=
    Session.run_eq_runLines { engine := e } sink short
  obtain ⟨k, hlines⟩ := Lines.exists_map_strip_append source
  have hextends : start.engine.store.ExtendsByWords globals := by
    rw [hstore]
    exact .refl globals
  have hclean : Lint.warningsFrom 1 start.engine.store [] (Lines.divided source) = [] := by
    rw [hstore]
    exact clean
  obtain ⟨hdiagnostics, hend⟩ := Session.runLines_of_clean steady
    (Lines.forall₂_kin_divided source) rfl hextends hclean
  obtain ⟨hreport, hsame⟩ := Session.runLines_append_blank steady (s := start) rfl
    ((Lines.terminated source).map Lines.strip) k
  rw [hlines] at hdiagnostics hend
  rw [hsame, ← hresult] at hend
  refine ⟨?_, hend⟩
  have hcauses : result.1.diagnostics.map Located.cause = [] := by
    rw [hresult]
    have hcount := congrArg (fun r => r.2.2) hreport
    exact hcount.symm.trans (by rw [Session.report, hdiagnostics]; rfl)
  exact List.map_eq_nil_iff.1 hcauses

/-- A global whose name reads as a number without digits, in spans with and without a vertical tab
after it. -/
theorem clean_run_iff_of_clean_lint_global :
    let globals := Store.ofList [(".x", .string "a")]
    let e : Engine := { globals, lineLimit := 65536, store := globals }
    let source : Text := "echo \x7b.x\x7d\necho \x7b.x\x0b\x7d\n"
    lint globals source = [] ∧ (Session.run { engine := e } {} false source).1.diagnostics = [] ∧
      (Session.run { engine := e } {} false source).2 ≠ none := by
  intro globals e source
  have hnames : Engine.globalError? globals = none := by decide +kernel
  have accepted : Engine.new globals 1 = .ok e := by
    rw [Engine.new, hnames]
    rfl
  have steady : Sink.IsSteady {} := ⟨fun _ => rfl, fun _ => rfl⟩
  have short : ∀ line ∈ Lines.terminated source, line.length < e.lineLimit := by decide +kernel
  have clean : lint globals source = [] := by decide +kernel
  obtain ⟨hdiagnostics, hend⟩ := clean_run_iff_of_clean_lint accepted steady short clean
  refine ⟨clean, hdiagnostics, ?_⟩
  rw [Ne, hend]
  intro hall
  have hraw : Text.ofString "echo \x7b.x\x0b\x7d" ∈ Lines.divided source := by decide +kernel
  have hspan : Text.ofString ".x\x0b" ∈ Line.spans (Text.ofString "echo \x7b.x\x0b\x7d") := by
    decide +kernel
  exact hall _ hraw _ hspan (by decide +kernel)

/-- A clean lint alone does not make a clean run: a vertical tab before a number passes the linter,
which cuts it off, and ends the run, which does not. -/
theorem not_clean_run_of_clean_lint :
    ¬ ∀ (globals : Store) (maxLine : Int) (e : Engine) (sink : Sink) (source : Text),
      Engine.new globals maxLine = .ok e → sink.IsSteady →
      (∀ line ∈ Lines.terminated source, line.length < e.lineLimit) →
      lint globals source = [] →
      (Session.run { engine := e } sink false source).2 = none ∧
        (Session.run { engine := e } sink false source).1.diagnostics = [] := by
  intro h
  obtain ⟨hnone, _⟩ := h Store.empty 1
    { globals := Store.empty, lineLimit := 65536, store := Store.empty } {}
    "echo \x7b\x0b1.5\x7d" rfl ⟨fun _ => rfl, fun _ => rfl⟩ (by decide) (by decide +kernel)
  exact absurd hnone (by decide +kernel)

end LineScript
