import LineScript.Format
import LineScript.Proofs.Alike

/-! A script and its formatted form run alike. Formatting a line keeps its kind and what it prints
or declares, and formatting a script only drops blank lines from its end. -/

namespace LineScript

theorem head?_joinWith {separator : UInt8} {w : Text} (hw : w ≠ []) (words : List Text) :
    (Text.joinWith [separator] (w :: words)).head? = w.head? := by
  obtain ⟨b, w, rfl⟩ := List.exists_cons_of_ne_nil hw
  cases words with
  | nil => rw [joinWith_singleton]
  | cons w' words =>
    rw [joinWith_cons_cons]
    rfl

theorem exists_mem_of_getLast?_joinWith {separator b : UInt8} {words : List Text}
    (hw : ∀ w ∈ words, w ≠ []) (h : (Text.joinWith [separator] words).getLast? = some b) :
    ∃ w ∈ words, b ∈ w := by
  induction words with
  | nil => exact absurd h (by simp [Text.joinWith])
  | cons w words ih =>
    cases words with
    | nil =>
      rw [joinWith_singleton] at h
      exact ⟨w, List.mem_singleton_self w, List.mem_of_getLast? h⟩
    | cons w' words =>
      have hw' : w' ≠ [] := hw w' (by simp)
      obtain ⟨c, w', rfl⟩ := List.exists_cons_of_ne_nil hw'
      obtain ⟨t, hrest⟩ := List.head?_eq_some_iff.1 (head?_joinWith hw' words)
      rw [joinWith_cons_cons, hrest, List.getLast?_append_of_ne_nil _ (List.cons_ne_nil _ _),
        List.getLast?_cons_cons, ← hrest] at h
      obtain ⟨v, hv, hb⟩ := ih (fun v hv => hw v (List.mem_cons_of_mem w hv)) h
      exact ⟨v, List.mem_cons_of_mem w hv, hb⟩

theorem trim_joinWith {words : List Text} (hne : ∀ w ∈ words, w ≠ [])
    (hw : ∀ w ∈ words, ∀ b ∈ w, Text.isSpace b = false) :
    (Text.joinWith [0x20] words).trim = Text.joinWith [0x20] words := by
  have hblank : ∀ w ∈ words, ∀ b ∈ w, Text.isBlank b = false := by
    intro w hmem b hb
    rw [Bool.eq_false_iff]
    intro hblank
    exact Bool.noConfusion ((hw w hmem b hb).symm.trans (Text.isSpace_of_isBlank hblank))
  apply Text.trim_eq_self
  · intro b hb
    cases words with
    | nil => simp [Text.joinWith] at hb
    | cons w words =>
      rw [head?_joinWith (hne w List.mem_cons_self)] at hb
      exact hblank w List.mem_cons_self b (List.mem_of_head? hb)
  · intro b hb
    obtain ⟨w, hmem, hb⟩ := exists_mem_of_getLast?_joinWith hne hb
    exact hblank w hmem b hb

namespace Line

theorem classify_keyword_append {word : Text} (h : word ∈ declarationKeywords) (rest : Text) :
    classify (word ++ rest) = .declaration := by
  simp only [declarationKeywords, List.mem_cons, List.not_mem_nil, or_false] at h
  rcases h with rfl | rfl | rfl <;> rfl

theorem exists_keyword_of_classify {line : Text} (h : classify line = .declaration) :
    ∃ word ∈ declarationKeywords, ∃ rest, line = word ++ rest := by
  unfold classify at h
  split at h
  · exact absurd h (by decide)
  · split at h
    · rename_i hany
      obtain ⟨word, hword, hstarts⟩ := List.any_eq_true.1 hany
      obtain ⟨rest, hrest⟩ := List.isPrefixOf_iff_prefix.1 hstarts
      exact ⟨word, hword, rest, hrest.symm⟩
    · exact absurd h (by decide)

/-- The fields of a declaration, one blank apart, are a declaration. -/
theorem classify_joinWith_fieldTexts {line : Text} (h : classify line = .declaration) :
    classify (Text.joinWith [0x20] (fieldTexts line)) = .declaration := by
  obtain ⟨word, hword, rest, rfl⟩ := exists_keyword_of_classify h
  have hne : word ≠ [] := by
    rintro rfl
    exact absurd hword (by decide)
  obtain ⟨more, others, hfields⟩ :=
    exists_fieldTexts_eq_cons hne (isSpace_of_mem_keyword hword) rest
  rw [hfields]
  cases others with
  | nil => rw [joinWith_singleton, classify_keyword_append hword]
  | cons second others =>
    rw [joinWith_cons_cons, List.append_assoc, classify_keyword_append hword]

end Line

theorem formatLine_of_declaration {line : Text} (h : Line.classify line.trim = .declaration) :
    formatLine line = Text.joinWith [0x20] (Line.fieldTexts line.trim) := by
  simp only [formatLine, h]

theorem formatLine_of_ne {line : Text} (h : Line.classify line.trim ≠ .declaration) :
    formatLine line = line.trim := by
  unfold formatLine
  cases hkind : Line.classify line.trim with
  | declaration => exact absurd hkind h
  | ignored => simp only [hkind]
  | echo => simp only [hkind]

theorem trim_formatLine (line : Text) : (formatLine line).trim = formatLine line := by
  by_cases h : Line.classify line.trim = .declaration
  · rw [formatLine_of_declaration h]
    exact trim_joinWith (fun _ => Line.ne_nil_of_mem_fieldTexts)
      fun _ hw _ => Line.isSpace_of_mem_fieldTexts hw
  · rw [formatLine_of_ne h, Text.trim_trim]

theorem alike_formatLine (line : Text) : Line.Alike line (formatLine line) := by
  by_cases h : Line.classify line.trim = .declaration
  · have hkind : Line.classify (formatLine line).trim = .declaration := by
      rw [trim_formatLine, formatLine_of_declaration h, Line.classify_joinWith_fieldTexts h]
    refine ⟨h.trans hkind.symm, fun hecho => ?_, fun _ => ?_⟩
    · exact absurd (h.symm.trans hecho) (by decide)
    · rw [trim_formatLine, formatLine_of_declaration h,
        Line.fieldTexts_joinWith (fun _ => Line.ne_nil_of_mem_fieldTexts)
          fun _ hw _ => Line.isSpace_of_mem_fieldTexts hw]
  · have hsame : (formatLine line).trim = line.trim := by
      rw [formatLine_of_ne h, Text.trim_trim]
    exact ⟨by rw [hsame], fun _ => hsame.symm, fun hd => absurd hd h⟩

theorem length_formatLine_le (line : Text) : (formatLine line).length ≤ line.length := by
  by_cases h : Line.classify line.trim = .declaration
  · rw [formatLine_of_declaration h]
    exact (Line.length_joinWith_fieldTexts_le line.trim).trans (Text.length_trim_le line)
  · rw [formatLine_of_ne h]
    exact Text.length_trim_le line

theorem mem_formatLine {line : Text} {b : UInt8} (h : b ∈ formatLine line) :
    b = 0x20 ∨ b ∈ line := by
  by_cases hkind : Line.classify line.trim = .declaration
  · rw [formatLine_of_declaration hkind] at h
    rcases mem_joinWith h with hb | ⟨word, hword, hb⟩
    · exact Or.inl hb
    · exact Or.inr ((Text.trim_isInfix line).subset (Line.subset_of_mem_fieldTexts hword hb))
  · rw [formatLine_of_ne hkind] at h
    exact Or.inr ((Text.trim_isInfix line).subset h)

/-- The lines of a formatted script are the formatted lines, less some blank ones at the end. -/
theorem exists_terminated_formatScript (source : Text) :
    ∃ k, (Lines.universal source).map formatLine =
      Lines.terminated (formatScript source) ++ List.replicate k [] := by
  have hlf : ∀ line ∈ (Lines.universal source).map formatLine, Text.lf ∉ line := by
    intro line hmem hb
    obtain ⟨raw, hraw, rfl⟩ := List.mem_map.1 hmem
    rcases mem_formatLine hb with hb | hb
    · exact absurd hb (by decide)
    · exact Lines.not_mem_of_mem_splitOn hraw hb
  have hne : (Lines.universal source).map formatLine ≠ [] := by
    rw [Ne, List.map_eq_nil_iff]
    exact List.splitOn_ne_nil _ _
  have hsplit := List.splitOn_intercalate Text.lf hlf hne
  -- the line feeds that are cut off at the end are those of the blank lines
  obtain ⟨rest, hrest, hjoined⟩ := Text.exists_trimRightBy_append (· == Text.lf)
    (Text.joinWith [Text.lf] ((Lines.universal source).map formatLine))
  have hreplicate : rest = List.replicate rest.length Text.lf :=
    List.eq_replicate_iff.2 ⟨rfl, fun b hb => by simpa using hrest b hb⟩
  refine ⟨rest.length, ?_⟩
  rw [formatScript, Lines.terminated_append_lf, ← Lines.splitOn_append_replicate Text.lf,
    ← hreplicate, ← hjoined]
  exact hsplit.symm

/-- Without stray carriage returns, the lines executed of a formatted script are those of the
script, each formatted, less some blank ones at the end. -/
theorem exists_map_formatLine_divided {source : Text} (h : Lines.PairedReturns source) :
    ∃ k, (Lines.divided source).map formatLine =
      (Lines.terminated (formatScript source)).map Lines.strip ++ List.replicate k [] := by
  obtain ⟨k, hk⟩ := exists_terminated_formatScript source
  rw [Lines.universal_eq_divided h] at hk
  have hstrip : (Lines.terminated (formatScript source)).map Lines.strip =
      Lines.terminated (formatScript source) := by
    refine (List.map_congr_left fun line hline => ?_).trans (List.map_id _)
    apply Lines.strip_of_not_mem
    intro hcr
    have hmem : line ∈ (Lines.divided source).map formatLine :=
      hk ▸ List.mem_append_left _ hline
    obtain ⟨raw, hraw, rfl⟩ := List.mem_map.1 hmem
    rcases mem_formatLine hcr with hb | hb
    · exact absurd hb (by decide)
    · exact Lines.cr_not_mem_of_mem_divided h hraw hb
  exact ⟨k, by rw [hk, hstrip]⟩

theorem length_lt_of_mem_formatScript {limit : Nat} {source line : Text} (hpos : 0 < limit)
    (hshort : ∀ line ∈ Lines.terminated source, line.length < limit)
    (h : Lines.PairedReturns source) (hline : line ∈ Lines.terminated (formatScript source)) :
    line.length < limit := by
  obtain ⟨k, hk⟩ := exists_terminated_formatScript source
  rw [Lines.universal_eq_divided h] at hk
  have hmem : line ∈ (Lines.divided source).map formatLine := hk ▸ List.mem_append_left _ hline
  obtain ⟨raw, hraw, rfl⟩ := List.mem_map.1 hmem
  exact (length_formatLine_le raw).trans_lt
    (Lines.length_lt_of_mem_divided hpos hshort h hraw)

theorem forall₂_alike_formatLine (lines : List Text) :
    List.Forall₂ Line.Alike lines (lines.map formatLine) := by
  induction lines with
  | nil => exact .nil
  | cons line lines ih => exact .cons (alike_formatLine line) ih

/-- Formatting preserves the meaning of a script: on a new engine, the formatted script prints the
same, leaves the same variables, reports the same errors in lines of the same numbers, counts as
many echoes, declarations and diagnostics, and ends or fails alike. -/
theorem run_formatScript {globals : Store} {maxLine : Int} {e : Engine} {sink : Sink}
    {source : Text} (accepted : Engine.new globals maxLine = .ok e) (steady : sink.IsSteady)
    (paired : Lines.PairedReturns source)
    (short : ∀ line ∈ Lines.terminated source, line.length < e.lineLimit) :
    let original := Session.run { engine := e } sink false source
    let formatted := Session.run { engine := e } sink false (formatScript source)
    formatted.1.output = original.1.output ∧
    formatted.1.engine.store = original.1.engine.store ∧
    formatted.1.diagnostics.map Located.cause = original.1.diagnostics.map Located.cause ∧
    formatted.1.engine.stats.echoes = original.1.engine.stats.echoes ∧
    formatted.1.engine.stats.declarations = original.1.engine.stats.declarations ∧
    formatted.1.engine.stats.diagnostics = original.1.engine.stats.diagnostics ∧
    EndAlike formatted.2 original.2 := by
  have hpos : 0 < e.lineLimit := Engine.lineLimit_pos accepted
  obtain ⟨hreport, hend⟩ := Session.run_alike steady { engine := e } short
    (fun _ => length_lt_of_mem_formatScript hpos short paired)
    (forall₂_alike_formatLine (Lines.divided source)) (Lines.exists_divided_eq_append paired)
    (exists_map_formatLine_divided paired)
  simp only [Session.report, Engine.tally, Prod.mk.injEq] at hreport
  obtain ⟨⟨hstore, hechoes, hdeclarations, hcount⟩, hwrites, hdiagnostics⟩ := hreport
  refine ⟨?_, hstore.symm, hdiagnostics.symm, hechoes.symm, hdeclarations.symm, hcount.symm,
    hend.symm⟩
  rw [Session.output, Session.output, hwrites]

/-- A script with indentation, a carriage return, runs of blanks, an unterminated span and a failing
line. -/
theorem run_formatScript_untidy :
    let e : Engine := { globals := Store.empty, lineLimit := 65536, store := Store.empty }
    let source : Text := "  let\tint  x = 4 \r\n echo \x7bx\x7d \x7b\n\n let int y = z\n\n"
    let original := Session.run { engine := e } {} false source
    let formatted := Session.run { engine := e } {} false (formatScript source)
    Lines.PairedReturns source ∧
    formatScript source = "let int x = 4\necho \x7bx\x7d \x7b\n\nlet int y = z\n" ∧
    formatted.1.output = original.1.output ∧ EndAlike formatted.2 original.2 := by
  intro e source original formatted
  have accepted : Engine.new Store.empty 1 = .ok e := rfl
  have steady : Sink.IsSteady {} := ⟨fun _ => rfl, fun _ => rfl⟩
  have paired : Lines.PairedReturns source := by decide
  have short : ∀ line ∈ Lines.terminated source, line.length < e.lineLimit := by decide
  obtain ⟨houtput, _, _, _, _, _, hend⟩ :=
    run_formatScript accepted steady paired short
  exact ⟨paired, by decide, houtput, hend⟩

end LineScript
