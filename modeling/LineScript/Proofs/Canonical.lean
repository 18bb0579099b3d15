import LineScript.Proofs.Formatting

/-! Canonical scripts: what formatting yields is canonical, and what is canonical it leaves alone.
Hence formatting twice is formatting once, and a script needs no formatting exactly if it is
canonical. -/

namespace LineScript

/-- No blank stands at either end of the line, and the fields of a declaration are one blank
apart. -/
structure Line.Tidy (line : Text) : Prop where
  start : ∀ b, line.head? = some b → Text.isBlank b = false
  stop : ∀ b, line.getLast? = some b → Text.isBlank b = false
  fields : classify line = .declaration → line = Text.joinWith [0x20] (fieldTexts line)

/-- No carriage returns, one line feed at the end, and tidy lines between line feeds. -/
structure Canonical (script : Text) : Prop where
  returns : Text.cr ∉ script
  ending : script = [Text.lf] ∨
    ∃ front, script = front ++ [Text.lf] ∧ front.getLast? ≠ some Text.lf
  lines : ∀ line ∈ script.splitOn Text.lf, Line.Tidy line

theorem tidy_formatLine (line : Text) : Line.Tidy (formatLine line) := by
  have htrim := trim_formatLine line
  refine ⟨fun b hb => ?_, fun b hb => ?_, fun hkind => ?_⟩
  · rw [← htrim] at hb
    exact Text.head?_trim hb
  · rw [← htrim] at hb
    exact Text.getLast?_trimRightBy hb
  · -- a formatted line is of the kind of the line it comes from
    have hdeclares : Line.classify line.trim = .declaration := by
      rw [(alike_formatLine line).kind, htrim, hkind]
    rw [formatLine_of_declaration hdeclares,
      Line.fieldTexts_joinWith (fun _ => Line.ne_nil_of_mem_fieldTexts)
        fun _ hw _ => Line.isSpace_of_mem_fieldTexts hw]

theorem formatLine_of_tidy {line : Text} (h : Line.Tidy line) : formatLine line = line := by
  have htrim : line.trim = line := Text.trim_eq_self h.start h.stop
  by_cases hkind : Line.classify line.trim = .declaration
  · rw [formatLine_of_declaration hkind, htrim]
    rw [htrim] at hkind
    exact (h.fields hkind).symm
  · rw [formatLine_of_ne hkind, htrim]

theorem Lines.joinCrLf_of_not_mem {t : Text} (h : Text.cr ∉ t) : joinCrLf t = t := by
  induction t with
  | nil => rfl
  | cons b rest ih =>
    rw [List.mem_cons, not_or] at h
    rw [joinCrLf_cons, if_neg fun hpair => h.1 hpair.1.symm, ih h.2]

theorem Lines.universal_of_not_mem {t : Text} (h : Text.cr ∉ t) :
    universal t = t.splitOn Text.lf := by
  rw [universal, joinCrLf_of_not_mem h, map_returns_of_not_mem h]

theorem Lines.divided_of_not_mem {t : Text} (h : Text.cr ∉ t) :
    divided t = t.splitOn Text.lf := by
  rw [divided, joinCrLf_of_not_mem h]

theorem Lines.cr_not_mem_of_mem_universal {t line : Text} (h : line ∈ universal t) :
    Text.cr ∉ line := by
  intro hcr
  obtain ⟨b, _, hb⟩ := List.mem_map.1 ((infix_of_mem_splitOn h).subset hcr)
  split at hb
  · exact absurd hb (by decide)
  · rename_i hne
    exact hne hb

theorem cr_not_mem_formatScript (source : Text) : Text.cr ∉ formatScript source := by
  intro hcr
  rcases List.mem_append.1 hcr with hcr | hcr
  · have hjoined := (List.rdropWhile_prefix (· == Text.lf) _).subset hcr
    rcases mem_joinWith hjoined with hlf | ⟨line, hline, hcr⟩
    · exact absurd hlf (by decide)
    · obtain ⟨raw, hraw, rfl⟩ := List.mem_map.1 hline
      rcases mem_formatLine hcr with hblank | hcr
      · exact absurd hblank (by decide)
      · exact Lines.cr_not_mem_of_mem_universal hraw hcr
  · exact absurd (List.mem_singleton.1 hcr) (by decide)

theorem canonical_formatScript (source : Text) : Canonical (formatScript source) := by
  refine ⟨cr_not_mem_formatScript source, Or.inr ⟨_, rfl, fun hlast => ?_⟩, fun line hline => ?_⟩
  · have hnot := Text.getLast?_trimRightBy hlast
    exact absurd hnot (by decide)
  · obtain ⟨k, hk⟩ := exists_terminated_formatScript source
    obtain ⟨j, hj⟩ := Lines.exists_terminated_append (formatScript source)
    rw [hj] at hline
    rcases List.mem_append.1 hline with hline | hblank
    · obtain ⟨raw, _, rfl⟩ := List.mem_map.1 (hk ▸ List.mem_append_left _ hline)
      exact tidy_formatLine raw
    · rw [List.eq_of_mem_replicate hblank]
      exact tidy_formatLine []

theorem formatScript_of_canonical {script : Text} (h : Canonical script) :
    formatScript script = script := by
  have hlines : (script.splitOn Text.lf).map formatLine = script.splitOn Text.lf :=
    (List.map_congr_left fun line hline => formatLine_of_tidy (h.lines line hline)).trans
      (List.map_id _)
  have hjoined : Text.joinWith [Text.lf] ((Lines.universal script).map formatLine) = script := by
    rw [Lines.universal_of_not_mem h.returns, hlines, Text.joinWith, List.intercalate_splitOn]
  obtain ⟨front, hscript, hfront⟩ :
      ∃ front, script = front ++ [Text.lf] ∧ front.getLast? ≠ some Text.lf := by
    rcases h.ending with hsingle | hone
    · exact ⟨[], hsingle, by simp⟩
    · exact hone
  have hcut : Text.trimRightBy (· == Text.lf) front = front := by
    apply Text.trimRightBy_eq_self
    rintro b hlast
    simpa using fun hlf : b = Text.lf => hfront (hlf ▸ hlast)
  rw [formatScript, hjoined, hscript, Text.trimRightBy_append_of_forall front (by simp), hcut]

/-- Formatting a formatted script changes nothing, and it changes nothing exactly in the scripts that
are canonical: without carriage returns, ending in one line feed, and with lines that have no blanks
at their ends and, if they are declarations, single blanks between their fields. -/
theorem formatScript_eq_self_iff (script : Text) :
    formatScript (formatScript script) = formatScript script ∧
      (formatScript script = script ↔ Canonical script) := by
  refine ⟨formatScript_of_canonical (canonical_formatScript script), fun h => ?_,
    formatScript_of_canonical⟩
  rw [← h]
  exact canonical_formatScript script

end LineScript
