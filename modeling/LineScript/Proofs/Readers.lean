import LineScript.Console
import LineScript.Proofs.Formatting
import LineScript.Proofs.Replay

/-! The lines that the readers of a script make of it. The formatter and the console end a line at
every carriage return, the run and the linter only at line feeds. Hence what the first two read is
what the other two read, divided at the carriage returns that are left in it. -/

namespace LineScript

namespace Lines

/-- The trimmed lines that are not blank. -/
def nonBlank (lines : List Text) : List Text := (lines.map Text.trim).filter (· ≠ [])

/-- What the carriage returns in a line divide it into, trimmed and without blank pieces. -/
def pieces (line : Text) : List Text := nonBlank (line.splitOn Text.cr)

theorem nonBlank_append (lines lines' : List Text) :
    nonBlank (lines ++ lines') = nonBlank lines ++ nonBlank lines' := by
  rw [nonBlank, List.map_append, List.filter_append]
  rfl

theorem nonBlank_cons (line : Text) (lines : List Text) :
    nonBlank (line :: lines) =
      if line.trim = [] then nonBlank lines else line.trim :: nonBlank lines := by
  rw [nonBlank, List.map_cons, List.filter_cons]
  split <;> simp_all [nonBlank]

theorem nonBlank_replicate (k : Nat) : nonBlank (List.replicate k []) = [] := by
  rw [nonBlank, List.filter_eq_nil_iff]
  intro line hline
  obtain ⟨blank, hblank, rfl⟩ := List.mem_map.1 hline
  rw [List.eq_of_mem_replicate hblank]
  simp [Text.trim, Text.trimBy, Text.trimRightBy]

theorem of_mem_nonBlank {line : Text} {lines : List Text} (h : line ∈ nonBlank lines) :
    line.trim = line ∧ line ≠ [] ∧ ∃ raw ∈ lines, line = raw.trim := by
  obtain ⟨hmem, hne⟩ := List.mem_filter.1 h
  obtain ⟨raw, hraw, rfl⟩ := List.mem_map.1 hmem
  exact ⟨Text.trim_trim raw, by simpa using hne, raw, hraw, rfl⟩

theorem nonBlank_flatMap (f : Text → List Text) (lines : List Text) :
    nonBlank (lines.flatMap f) = lines.flatMap fun line => nonBlank (f line) := by
  rw [nonBlank, List.map_flatMap, List.filter_flatMap]
  rfl

/-- Blanks at the ends of lines do not matter. -/
theorem nonBlank_congr {lines lines' : List Text}
    (h : lines.map (Text.trimRightBy Text.isBlank) = lines'.map (Text.trimRightBy Text.isBlank)) :
    nonBlank lines = nonBlank lines' := by
  have htrim (lines : List Text) : lines.map Text.trim =
      (lines.map (Text.trimRightBy Text.isBlank)).map (List.dropWhile Text.isBlank) := by
    rw [List.map_map]
    refine List.map_congr_left fun line _ => ?_
    exact (Text.dropWhile_trimRightBy (fun _ hb => hb) line).symm
  rw [nonBlank, nonBlank, htrim, htrim, h]

theorem splitOn_cr_cons (b : UInt8) (rest : Text) :
    (b :: rest).splitOn Text.cr =
      if b = Text.cr then [] :: rest.splitOn Text.cr
      else (rest.splitOn Text.cr).modifyHead (b :: ·) := by
  rw [List.splitOn_cons_eq_if_modifyHead]
  simp only [beq_iff_eq]

theorem cr_not_mem_of_isBlank {t : Text} (h : ∀ b ∈ t, Text.isBlank b = true) : Text.cr ∉ t :=
  fun hcr => absurd (h _ hcr) (by decide)

theorem pieces_append_blank (t : Text) {v : Text} (hv : ∀ b ∈ v, Text.isBlank b = true) :
    pieces (t ++ v) = pieces t := by
  apply nonBlank_congr
  induction t with
  | nil =>
    rw [List.nil_append, List.splitOn_eq_singleton (cr_not_mem_of_isBlank hv)]
    exact congrArg (fun t => [t]) (Text.trimRightBy_append_of_forall [] hv)
  | cons b t ih =>
    rw [List.cons_append, splitOn_cr_cons, splitOn_cr_cons]
    split
    · rw [List.map_cons, List.map_cons, ih]
    · obtain ⟨first, others, hsplit⟩ :=
        List.exists_cons_of_ne_nil (List.splitOn_ne_nil Text.cr t)
      obtain ⟨first', others', hsplit'⟩ :=
        List.exists_cons_of_ne_nil (List.splitOn_ne_nil Text.cr (t ++ v))
      rw [hsplit, hsplit'] at ih
      -- the byte joins the first piece, and what is cut off on its right stays the same
      obtain ⟨hfirst, hothers⟩ := List.cons.inj ih
      rw [hsplit, hsplit', List.modifyHead_cons, List.modifyHead_cons, List.map_cons,
        List.map_cons, Text.trimRightBy_cons, Text.trimRightBy_cons, hfirst, hothers]

theorem pieces_blank_append {u : Text} (hu : ∀ b ∈ u, Text.isBlank b = true) (t : Text) :
    pieces (u ++ t) = pieces t := by
  induction u with
  | nil => rfl
  | cons b u ih =>
    obtain ⟨hb, hu⟩ := List.forall_mem_cons.1 hu
    have hcr : b ≠ Text.cr := by
      rintro rfl
      exact absurd hb (by decide)
    rw [← ih hu, pieces, List.cons_append, splitOn_cr_cons, if_neg hcr, pieces]
    obtain ⟨first, others, hsplit⟩ :=
      List.exists_cons_of_ne_nil (List.splitOn_ne_nil Text.cr (u ++ t))
    have htrim : Text.trim (b :: first) = Text.trim first := by
      rw [Text.trim, Text.trimBy, List.dropWhile_cons_of_pos hb]
      rfl
    rw [hsplit, List.modifyHead_cons, nonBlank_cons, nonBlank_cons, htrim]

theorem pieces_trim (line : Text) : pieces line.trim = pieces line := by
  obtain ⟨u, v, hu, hv, hline⟩ := Text.exists_trim_append line
  conv => rhs; rw [hline, pieces_append_blank _ hv, pieces_blank_append hu]

theorem pieces_withoutReturns (line : Text) : pieces (withoutReturns line) = pieces line := by
  obtain ⟨rest, hrest, hline⟩ := Text.exists_trimRightBy_append (· == Text.cr) line
  have hreplicate : rest = List.replicate rest.length Text.cr :=
    List.eq_replicate_iff.2 ⟨rfl, fun b hb => by simpa using hrest b hb⟩
  conv => rhs; rw [hline, hreplicate, pieces, splitOn_append_replicate, nonBlank_append,
    nonBlank_replicate, List.append_nil]
  rfl

theorem pieces_nil : pieces [] = [] := rfl

theorem flatMap_pieces_nonBlank (lines : List Text) :
    (nonBlank lines).flatMap pieces = lines.flatMap pieces := by
  induction lines with
  | nil => rfl
  | cons line lines ih =>
    rw [nonBlank_cons, List.flatMap_cons, ← pieces_trim line]
    split
    · rename_i hblank
      rw [hblank, ih]
      rfl
    · rw [List.flatMap_cons, ih]

theorem flatMap_pieces_congr {lines lines' : List Text}
    (h : lines.map withoutReturns = lines'.map withoutReturns) :
    lines.flatMap pieces = lines'.flatMap pieces := by
  have hreturns (lines : List Text) :
      lines.flatMap pieces = (lines.map withoutReturns).flatMap pieces := by
    rw [List.flatMap_map]
    exact congrArg (lines.flatMap ·) (funext fun line => (pieces_withoutReturns line).symm)
  rw [hreturns, hreturns lines', h]

theorem splitOn_map_returns (t : Text) :
    (t.map fun b => if b = Text.cr then Text.lf else b).splitOn Text.lf =
      (t.splitOn Text.lf).flatMap (·.splitOn Text.cr) := by
  induction t with
  | nil => rfl
  | cons b t ih =>
    obtain ⟨first, others, hsplit⟩ :=
      List.exists_cons_of_ne_nil (List.splitOn_ne_nil Text.lf t)
    rw [hsplit, List.flatMap_cons] at ih
    rw [List.map_cons, splitOn_lf_cons, ih, splitOn_lf_cons b, hsplit]
    -- a carriage return becomes a line feed on the left and divides the first line on the right
    by_cases hcr : b = Text.cr
    · have hne : b ≠ Text.lf := by
        rw [hcr]
        decide
      rw [if_pos hcr, if_pos rfl, if_neg hne, List.modifyHead_cons, List.flatMap_cons,
        splitOn_cr_cons, if_pos hcr]
      rfl
    · rw [if_neg hcr]
      split
      · rw [List.flatMap_cons, List.flatMap_cons]
        rfl
      · obtain ⟨piece, rest, hpieces⟩ :=
          List.exists_cons_of_ne_nil (List.splitOn_ne_nil Text.cr first)
        rw [List.modifyHead_cons, List.flatMap_cons, splitOn_cr_cons, if_neg hcr, hpieces]
        rfl

/-- The formatter and the console read what the linter reads, divided at carriage returns. -/
theorem flatMap_pieces_divided (t : Text) : (divided t).flatMap pieces = statements t := by
  have huniversal : universal t = (divided t).flatMap (·.splitOn Text.cr) :=
    splitOn_map_returns (joinCrLf t)
  rw [statements, huniversal]
  exact (nonBlank_flatMap _ _).symm

theorem flatMap_pieces_executed (t : Text) :
    ((terminated t).map strip).flatMap pieces = statements t := by
  obtain ⟨k, hk⟩ := exists_map_strip_append t
  have hblanks : (List.replicate k ([] : Text)).flatMap pieces = [] := by
    rw [List.flatMap_eq_nil_iff]
    intro line hline
    rw [List.eq_of_mem_replicate hline, pieces_nil]
  rw [← flatMap_pieces_divided, ← flatMap_pieces_congr (map_withoutReturns_strip t), hk,
    List.flatMap_append, hblanks, List.append_nil]

theorem cr_not_mem_of_mem_pieces {line piece : Text} (h : piece ∈ pieces line) :
    Text.cr ∉ piece := by
  obtain ⟨_, _, raw, hraw, rfl⟩ := of_mem_nonBlank h
  exact fun hcr => not_mem_of_mem_splitOn hraw ((Text.trim_isInfix raw).subset hcr)

/-- Carriage returns divide none of the lines exactly if there are none in them. -/
theorem flatMap_pieces_nonBlank_eq_self_iff (lines : List Text) :
    (nonBlank lines).flatMap pieces = nonBlank lines ↔
      ∀ line ∈ nonBlank lines, Text.cr ∉ line := by
  constructor
  · intro hself line hline
    rw [← hself] at hline
    obtain ⟨_, _, hpiece⟩ := List.mem_flatMap.1 hline
    exact cr_not_mem_of_mem_pieces hpiece
  · intro hnone
    have hpieces : ∀ line ∈ nonBlank lines, pieces line = [line] := by
      intro line hline
      obtain ⟨htrim, hne, _⟩ := of_mem_nonBlank hline
      rw [pieces, List.splitOn_eq_singleton (hnone line hline), nonBlank_cons, htrim, if_neg hne]
      rfl
    rw [List.flatMap_congr hpieces, List.flatMap_singleton']

end Lines

theorem formatLine_trim (line : Text) : formatLine line.trim = formatLine line := by
  rw [formatLine, Text.trim_trim]
  rfl

theorem formatLine_eq_nil_iff (line : Text) : formatLine line = [] ↔ line.trim = [] := by
  constructor
  · intro hnil
    -- a line that is formatted to nothing is no declaration
    have hkind := (alike_formatLine line).kind
    rw [hnil] at hkind
    have hne : Line.classify line.trim ≠ .declaration := by
      rw [hkind]
      decide
    rwa [formatLine_of_ne hne] at hnil
  · intro hblank
    rw [← formatLine_trim, hblank]
    rfl

theorem Lines.nonBlank_map_formatLine (lines : List Text) :
    nonBlank (lines.map formatLine) = (nonBlank lines).map formatLine := by
  induction lines with
  | nil => rfl
  | cons line lines ih =>
    rw [List.map_cons, nonBlank_cons, nonBlank_cons, trim_formatLine, ih]
    by_cases hblank : line.trim = []
    · rw [if_pos ((formatLine_eq_nil_iff line).2 hblank), if_pos hblank]
    · rw [if_neg (mt (formatLine_eq_nil_iff line).1 hblank), if_neg hblank, List.map_cons,
        formatLine_trim]

theorem Lines.nonBlank_formatScript (source : Text) :
    nonBlank ((formatScript source).splitOn Text.lf) = (statements source).map formatLine := by
  obtain ⟨k, hk⟩ := exists_terminated_formatScript source
  obtain ⟨j, hj⟩ := exists_terminated_append (formatScript source)
  have hlines : nonBlank ((universal source).map formatLine) =
      nonBlank (terminated (formatScript source)) := by
    rw [hk, nonBlank_append, nonBlank_replicate, List.append_nil]
  rw [hj, nonBlank_append, nonBlank_replicate, List.append_nil, ← hlines, nonBlank_map_formatLine]
  rfl

/-- A run executes lines in order, and all of them unless it fails. -/
theorem Session.map_raw_turns (sink : Sink) (s : Session) (lines : List Text) :
    (turns sink s lines).map Turn.raw <+: lines ∧
      ((runLines sink s lines).2 = none → (turns sink s lines).map Turn.raw = lines) := by
  have hraws : (turns sink s lines).map Turn.raw <+: lines := by
    rw [List.prefix_iff_getElem?]
    intro i hi
    rw [List.length_map] at hi
    rw [List.getElem_map]
    exact (getElem?_turns (List.getElem?_eq_getElem hi)).1
  refine ⟨hraws, fun hnone => hraws.eq_of_length ?_⟩
  rw [List.length_map, (turns_of_runLines_eq_none hnone).1]

namespace Lines

theorem nonBlank_isPrefix {lines lines' : List Text} (h : lines <+: lines') :
    nonBlank lines <+: nonBlank lines' := by
  obtain ⟨rest, rfl⟩ := h
  rw [nonBlank_append]
  exact List.prefix_append _ _

theorem cr_not_mem_of_mem_nonBlank {lines : List Text} (h : ∀ line ∈ lines, Text.cr ∉ line) :
    ∀ line ∈ nonBlank lines, Text.cr ∉ line := by
  intro line hline
  obtain ⟨_, _, raw, hraw, rfl⟩ := of_mem_nonBlank hline
  exact fun hcr => h raw hraw ((Text.trim_isInfix raw).subset hcr)

end Lines

/-- The readers of a script. The formatter and the console take the same lines. They are those that
a run takes, and also those that the linter takes, once these are divided at the carriage returns
that are left in them; the lists are the same exactly if there are none left, as when every carriage
return in the script stands before a line feed. A run executes what it takes, all of it unless it
fails. -/
theorem readers_agree_at_returns (s : Session) (sink : Sink) (cancelled : Bool) (c : Console)
    {source : Text} (short : ∀ line ∈ Lines.terminated source, line.length < s.engine.lineLimit) :
    let taken := Lines.nonBlank (Lines.read s.engine.lineLimit source).lines
    let executed := Lines.nonBlank ((s.runTurns sink cancelled source).map Session.Turn.raw)
    let linted := Lines.nonBlank (Lines.divided source)
    let queued := Lines.statements source
    (executed <+: taken ∧ ((s.run sink cancelled source).2 = none → executed = taken)) ∧
    (c.enqueue source).pending = c.pending ++ queued ∧
    Lines.nonBlank ((formatScript source).splitOn Text.lf) = queued.map formatLine ∧
    taken.flatMap Lines.pieces = queued ∧ linted.flatMap Lines.pieces = queued ∧
    (taken = queued ↔ ∀ line ∈ taken, Text.cr ∉ line) ∧
    (linted = queued ↔ ∀ line ∈ linted, Text.cr ∉ line) ∧
    (Lines.PairedReturns source → taken = queued ∧ linted = queued) := by
  intro taken executed linted queued
  have hread : (Lines.read s.engine.lineLimit source).lines =
      (Lines.terminated source).map Lines.strip := by rw [Lines.read_eq short]
  have htaken : taken.flatMap Lines.pieces = queued := by
    simp only [taken]
    rw [hread, Lines.flatMap_pieces_nonBlank, Lines.flatMap_pieces_executed]
  have hlinted : linted.flatMap Lines.pieces = queued := by
    simp only [linted]
    rw [Lines.flatMap_pieces_nonBlank, Lines.flatMap_pieces_divided]
  have htakes : taken = queued ↔ ∀ line ∈ taken, Text.cr ∉ line := by
    rw [← htaken, eq_comm]
    exact Lines.flatMap_pieces_nonBlank_eq_self_iff _
  have hlints : linted = queued ↔ ∀ line ∈ linted, Text.cr ∉ line := by
    rw [← hlinted, eq_comm]
    exact Lines.flatMap_pieces_nonBlank_eq_self_iff _
  refine ⟨⟨?_, fun hnone => ?_⟩, rfl, Lines.nonBlank_formatScript source, htaken, hlinted, htakes,
    hlints, fun paired => ⟨htakes.2 ?_, hlints.2 ?_⟩⟩
  · exact Lines.nonBlank_isPrefix (Session.map_raw_turns sink _ _).1
  · have hlines := (Session.run_of_runLines s sink cancelled source).2 hnone
    exact congrArg Lines.nonBlank ((Session.map_raw_turns sink _ _).2 hlines)
  · apply Lines.cr_not_mem_of_mem_nonBlank
    obtain ⟨k, hk⟩ := Lines.exists_divided_eq_append paired
    intro line hline
    rw [hread] at hline
    exact Lines.cr_not_mem_of_mem_divided paired (hk ▸ List.mem_append_left _ hline)
  · exact Lines.cr_not_mem_of_mem_nonBlank fun _ => Lines.cr_not_mem_of_mem_divided paired

/-- A script with a carriage return within a line and another one at the end of a line. -/
theorem readers_agree_at_returns_stray :
    let e : Engine := { globals := Store.empty, lineLimit := 65536, store := Store.empty }
    let s : Session := { engine := e }
    let source : Text := "echo a\rb\n  let int  x = 4\r\n\n"
    let paired : Text := "echo a\r\n b"
    let taken := Lines.nonBlank (Lines.read e.lineLimit source).lines
    Lines.nonBlank ((s.runTurns {} false source).map Session.Turn.raw) = taken ∧
      taken ≠ Lines.statements source ∧
      taken.flatMap Lines.pieces = ["echo a", "b", "let int  x = 4"].map Text.ofString ∧
      Lines.nonBlank ((formatScript source).splitOn Text.lf) =
        ["echo a", "b", "let int x = 4"].map Text.ofString ∧
      Lines.nonBlank (Lines.divided paired) = Lines.statements paired := by
  intro e s source paired taken
  have short : ∀ line ∈ Lines.terminated source, line.length < e.lineLimit := by decide
  have short' : ∀ line ∈ Lines.terminated paired, line.length < e.lineLimit := by decide
  obtain ⟨⟨_, hexecuted⟩, _, hformatted, htaken, _, htakes, _⟩ :=
    readers_agree_at_returns s {} false .start short
  obtain ⟨_, _, _, _, _, _, _, hpaired⟩ := readers_agree_at_returns s {} false .start short'
  have hqueued : Lines.statements source =
      ["echo a", "b", "let int  x = 4"].map Text.ofString := by decide +kernel
  refine ⟨hexecuted (by decide +kernel), fun hsame => ?_, htaken.trans hqueued, ?_,
    (hpaired (by decide)).2⟩
  · have hstray : Text.ofString "echo a\rb" ∈ taken := by decide +kernel
    exact htakes.1 hsame _ hstray (by decide)
  · rw [hformatted, hqueued]
    decide +kernel

/-- The readers do not take the same lines from every script: the formatter and the console divide a
line at a carriage return within it, the run and the linter do not. -/
theorem not_readers_agree :
    ¬ ∀ (s : Session) (sink : Sink) (c : Console) (source : Text),
      (∀ line ∈ Lines.terminated source, line.length < s.engine.lineLimit) →
      (s.run sink false source).2 = none →
      ∃ lines, Lines.nonBlank ((s.runTurns sink false source).map Session.Turn.raw) = lines ∧
        Lines.nonBlank (Lines.divided source) = lines ∧
        Lines.nonBlank ((formatScript source).splitOn Text.lf) = lines.map formatLine ∧
        (c.enqueue source).pending = c.pending ++ lines := by
  intro h
  obtain ⟨lines, hexecuted, _, _, hqueued⟩ := h { engine := Console.start.engine } {} .start
    "echo a\rb\n" (by decide +kernel) (by decide +kernel)
  have hlines : lines = [Text.ofString "echo a\rb"] := by
    rw [← hexecuted]
    decide +kernel
  have hpending : (Console.start.enqueue "echo a\rb\n").pending =
      [Text.ofString "echo a", Text.ofString "b"] := by decide +kernel
  rw [hpending, hlines] at hqueued
  exact absurd hqueued (by decide)

end LineScript
