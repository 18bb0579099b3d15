import LineScript.Console.View
import LineScript.Proofs.Console.Events
import LineScript.Proofs.Text.White

/-! Where the console can break down. Taking an element by its index, taking the first of a queue
and repeating a text have no result for some arguments. Here every step that does one of these is
taken with its breakdowns, and compared with the step of the console: whatever has happened to the
console, no step breaks down, and drawing it does exactly in a window of less than two columns. -/

namespace LineScript.Console

/-- Why a step has no result. -/
inductive Breakdown where
  | outOfRange
  | emptyQueue
  | negativeCount
  deriving DecidableEq

def element {α : Type} (l : List α) (i : Int) : Except Breakdown α :=
  if i < 0 then .error .outOfRange
  else match l[i.toNat]? with
    | none => .error .outOfRange
    | some a => .ok a

def popped {α : Type} : List α → Except Breakdown (α × List α)
  | [] => .error .emptyQueue
  | a :: l => .ok (a, l)

/-- Pops as long as the queue is not empty. -/
def emptied {α : Type} : List α → Except Breakdown (List α)
  | [] => .ok []
  | a :: l => do
    let _ ← popped (a :: l)
    emptied l

def repeated (count : Int) (t : Text) : Except Breakdown Text :=
  if count < 0 then .error .negativeCount else .ok (Drawing.times count.toNat t)

section Partial
variable {α : Type}

theorem element_of_getElem? {l : List α} {i : Int} {a : α} (hi : 0 ≤ i)
    (h : l[i.toNat]? = some a) : element l i = .ok a := by
  rw [element, if_neg (by omega), h]

theorem element_zero (a : α) (l : List α) : element (a :: l) 0 = .ok a := rfl

theorem element_last {l : List α} {a : α} (h : l.getLast? = some a) :
    element l (l.length - 1) = .ok a := by
  have hne : l ≠ [] := by
    rintro rfl
    simp at h
  have hpos := List.length_pos_of_ne_nil hne
  refine element_of_getElem? (by omega) ?_
  rw [← h, List.getLast?_eq_getElem?]
  congr 1
  omega

theorem emptied_eq (l : List α) : emptied l = .ok [] := by
  induction l with
  | nil => rfl
  | cons a l ih => exact ih

theorem repeated_natCast (n : Nat) (t : Text) : repeated n t = .ok (Drawing.times n t) := by
  rw [repeated, if_neg (by omega), Int.toNat_natCast]

theorem times_singleton (n : Nat) (b : UInt8) : Drawing.times n [b] = List.replicate n b :=
  List.flatten_replicate_singleton

end Partial

/-- The code frame, with carets and gutters made by repeating blanks. -/
def checkedFrame (number : Int) (line : Text) (column : Int) : Except Breakdown Text :=
  if number ≤ 0 then .ok []
  else do
    let label := Text.ofInt number
    let column := if column ≤ 0 then 1 else column
    let column := if line.symbolCount + 1 < column then (line.symbolCount + 1 : Int) else column
    let gutter ← repeated label.length " "
    let margin ← repeated (column - 1) " "
    return Text.cat ["  --> line ", label, ", column ", Text.ofInt column, "\n ",
      label, " | ", line, "\n ", gutter, " | ", margin, "^"]

theorem checkedFrame_eq (number : Int) (line : Text) (column : Int) :
    checkedFrame number line column = .ok (codeFrame number line column) := by
  by_cases hnumber : number ≤ 0
  · rw [checkedFrame, codeFrame, if_pos hnumber, if_pos hnumber]
  · have hpos : 1 ≤ clampColumn line column := by simp only [clampColumn]; omega
    have hclamp : (if (line.symbolCount : Int) + 1 < (if column ≤ 0 then 1 else column)
        then (line.symbolCount + 1 : Int) else (if column ≤ 0 then 1 else column)) =
        (clampColumn line column : Int) := by
      simp only [clampColumn]
      split_ifs <;> omega
    have hmargin : (clampColumn line column : Int) - 1 = (clampColumn line column - 1 : Nat) := by
      omega
    have hblank : (Text.ofString " ") = [0x20] := rfl
    simp only [checkedFrame, codeFrame, if_neg hnumber, hclamp, hmargin, repeated_natCast, hblank,
      times_singleton]
    rfl

/-- The places that a statement reports, each of which is framed. -/
def places (step : Step) : List Located :=
  step.diagnostic.toList ++
    match step.failure with
    | some (.runtime place) => [place]
    | _ => []

def checkedRun (e : Engine) (input : Text) : Except Breakdown (Engine × Outcome) :=
  match Line.classify input with
  | .ignored => .ok (run e input)
  | _ => do
    let _ ← (places (e.exec none input)).mapM fun p => checkedFrame p.line p.source p.column
    return run e input

def checkedRecord (c : Console) (input : Text) : Except Breakdown (Console × Outcome) := do
  let (engine, outcome) ← checkedRun c.engine input
  return (({ c with engine }).log ⟨input, outcome.output, outcome.isError⟩, outcome)

def checkedRunNext (c : Console) : Except Breakdown (Console × Effect) :=
  if c.pending = [] then .ok (c, .none)
  else do
    let (line, rest) ← popped c.pending
    let (c, outcome) ← { c with pending := rest }.checkedRecord line
    if outcome.isFatal then
      let stopped := { c with pending := ← emptied rest }
      if rest = [] then return (stopped, .none)
      else return (stopped.log { output := Text.cat ["Stopped; ", Text.ofNat rest.length,
        " queued line(s) dropped"], isError := true }, .none)
    else return (c, if rest = [] then .none else .runPending)

/-- Commands that take a path or empty the queue do so step by step. -/
def checkedCommand (files : FileTree) (c : Console) (input : Text) :
    Except Breakdown (Console × Effect) := do
  let words := Text.words input
  let word ← element words 0
  if word = ":reset" ∨ word = ":r" then
    let pending ← emptied c.pending
    return ({ c with engine := c.engine.reset, pending }.log
      { input, output := "Environment reset" }, .none)
  else if (word = ":load" ∨ word = ":l") ∧ words.length = 2 then
    let path ← element words 1
    return load files c input [path]
  else return command files c input

def checkedEnter (files : FileTree) (c : Console) : Except Breakdown (Console × Effect) :=
  let input := Text.trim c.field.text
  if input = [] then .ok (c, .none)
  else if input.head? = some Text.colon then do
    let (c, effect) ← checkedCommand files c input
    return ({ c with field := c.field.clear, recallIndex := none }, effect)
  else do
    let (c, _) ← c.checkedRecord input
    return ({ c with
      pastLines := c.pastLines ++ [input], field := c.field.clear, recallIndex := none }, .none)

def checkedComplete (c : Console) : Except Breakdown Console :=
  let input := c.field.text
  let words := Text.words input
  if words = [] then .ok c
  else do
    let word ← element words (words.length - 1)
    let found := completions c.engine.store word
    if input.getLast? = some 0x20 ∨ found = [] then return c
    else if found.length = 1 then
      let only ← element found 0
      return { c with field := (c.field.setText (dropSuffix input word ++ only)).moveToEnd }
    else return c.log { output := Text.cat ["Completions: ", Text.joinWith ", " found] }

/-- The index of the line called back last, minus one for none. -/
def index (c : Console) : Int := c.recallIndex.elim (-1) Nat.cast

def checkedRecall (c : Console) (i : Int) : Except Breakdown Console := do
  let line ← element c.pastLines i
  return { c with recallIndex := some i.toNat, field := (c.field.setText line).moveToEnd }

def checkedRecallUp (c : Console) : Except Breakdown Console :=
  if c.pastLines = [] then .ok c
  else if c.index = -1 then c.checkedRecall (c.pastLines.length - 1)
  else if 0 < c.index then c.checkedRecall (c.index - 1)
  else c.checkedRecall c.index

def checkedRecallDown (c : Console) : Except Breakdown Console :=
  if c.index = -1 then .ok c
  else if c.index < c.pastLines.length - 1 then c.checkedRecall (c.index + 1)
  else .ok { c with recallIndex := none, field := c.field.clear.moveToEnd }

/-- Answers a message. Every other message does nothing that can break down. -/
def checkedUpdate (files : FileTree) (c : Console) : Message → Except Breakdown (Console × Effect)
  | .runPending => c.checkedRunNext
  | .key .up => do return (← c.checkedRecallUp, .none)
  | .key .down => do return (← c.checkedRecallDown, .none)
  | .key .tab => do return (← c.checkedComplete, .none)
  | .key .enter => c.checkedEnter files
  | m => .ok (c.update files m)

def checkedAfter (c : Console) : Event → Except Breakdown Console
  | .message files m => do return (← c.checkedUpdate files m).1
  | .edit field => .ok { c with field }

def checkedAfterAll (c : Console) (events : List Event) : Except Breakdown Console :=
  events.foldlM checkedAfter c

/-- The entries from an index to the end, each taken by its index. -/
def entriesFrom (entries : List HistoryEntry) (i : Int) : Except Breakdown (List HistoryEntry) :=
  if i < entries.length then do
    let entry ← element entries i
    let rest ← entriesFrom entries (i + 1)
    return entry :: rest
  else .ok []
termination_by (entries.length - i).toNat

def checkedView (c : Console) : Except Breakdown Text :=
  if !c.ready then .ok "Loading..."
  else if c.quitting then .ok (Drawing.render "Goodbye!\n")
  else do
    let rule ← repeated (min (c.width - 2) 60) "─"
    let available : Int := c.height - c.reservedLines
    let first := if available < c.history.length then c.history.length - available else 0
    let first := if first < 0 then 0 else first
    let shown ← entriesFrom c.history first
    return Text.cat [header, rule, "\n\n", shown.flatMap entryView,
      if c.showVars then Text.cat [varsPanel c.engine.store, "\n"] else [],
      if c.showHelp then Text.cat [helpPanel, "\n"] else [],
      c.field.view, "\n\n", footer]

theorem checkedRun_eq (e : Engine) (input : Text) : checkedRun e input = .ok (run e input) := by
  have hframes (l : List Located) :
      (l.mapM fun p => checkedFrame p.line p.source p.column) =
        (.ok (l.map Located.frame) : Except Breakdown (List Text)) := by
    simp only [checkedFrame_eq]
    exact List.mapM_pure
  rw [checkedRun, hframes]
  split <;> rfl

theorem checkedRecord_eq (c : Console) (input : Text) :
    c.checkedRecord input = .ok (c.record input) := by
  rw [checkedRecord, checkedRun_eq]
  rfl

theorem checkedRunNext_eq (c : Console) : c.checkedRunNext = .ok c.runNext := by
  cases hpending : c.pending with
  | nil =>
    rw [checkedRunNext, if_pos hpending]
    simp only [runNext, hpending]
  | cons line rest =>
    have hrun : c.checkedRunNext =
        let (c, outcome) := { c with pending := rest }.record line
        if outcome.isFatal then
          let stopped := { c with pending := [] }
          if rest = [] then .ok (stopped, .none)
          else .ok (stopped.log { output := Text.cat ["Stopped; ", Text.ofNat rest.length,
            " queued line(s) dropped"], isError := true }, .none)
        else .ok (c, if rest = [] then .none else .runPending) := by
      simp only [checkedRunNext, hpending, popped, bind, Except.bind, checkedRecord_eq, emptied_eq,
        if_neg (List.cons_ne_nil line rest)]
      rfl
    rw [hrun]
    simp only [runNext, hpending]
    split
    · split <;> rfl
    · rfl

theorem command_load {files : FileTree} {c : Console} {input word : Text} {arguments : List Text}
    (hwords : Text.words input = word :: arguments) (h : word = ":load" ∨ word = ":l") :
    command files c input = load files c input arguments := by
  rcases h with rfl | rfl <;> simp only [command, hwords] <;> rfl

theorem command_reset {files : FileTree} {c : Console} {input word : Text} {arguments : List Text}
    (hwords : Text.words input = word :: arguments) (h : word = ":reset" ∨ word = ":r") :
    command files c input = ({ c with engine := c.engine.reset, pending := [] }.log
      { input, output := "Environment reset" }, .none) := by
  rcases h with rfl | rfl <;> simp only [command, hwords] <;> rfl

theorem checkedCommand_eq (files : FileTree) (c : Console) {input : Text}
    (h : input.head? = some Text.colon) :
    checkedCommand files c input = .ok (command files c input) := by
  obtain ⟨word, arguments, hwords⟩ := List.exists_cons_of_ne_nil (Text.words_ne_nil_of_colon h)
  simp only [checkedCommand, hwords, element_zero, emptied_eq, bind, Except.bind]
  split_ifs with hreset hload
  · rw [command_reset hwords hreset]
    rfl
  · obtain ⟨path, rfl⟩ := List.length_eq_one_iff.1 (Nat.succ.inj hload.2)
    rw [command_load hwords hload.1]
    rfl
  · rfl

theorem checkedEnter_eq (files : FileTree) (c : Console) :
    c.checkedEnter files = .ok (c.enter files) := by
  simp only [checkedEnter, enter]
  split
  · rfl
  · split
    · rename_i hcolon
      rw [checkedCommand_eq files c hcolon]
      rfl
    · rw [checkedRecord_eq]
      rfl

theorem checkedComplete_eq (c : Console) : c.checkedComplete = .ok c.complete := by
  simp only [checkedComplete, complete]
  cases hlast : (Text.words c.field.text).getLast? with
  | none =>
    rw [if_pos (List.getLast?_eq_none_iff.1 hlast)]
  | some word =>
    have hne : Text.words c.field.text ≠ [] := by
      intro hnil
      rw [hnil] at hlast
      exact absurd hlast (by simp)
    rw [if_neg hne, element_last hlast]
    simp only [bind, Except.bind]
    by_cases hblank : c.field.text.getLast? = some 0x20
    · rw [if_pos (.inl hblank), if_pos hblank]
      rfl
    · rw [if_neg hblank]
      rcases completions c.engine.store word with _ | ⟨only, _ | ⟨second, more⟩⟩
      · rw [if_pos (.inr rfl)]
        rfl
      · rw [if_neg (by simp [hblank]), if_pos (by rfl)]
        rfl
      · rw [if_neg (by simp [hblank]), if_neg (by simp)]
        rfl

theorem checkedRecall_eq {c : Console} {i : Nat} (h : i < c.pastLines.length) :
    c.checkedRecall i = .ok (c.showRecalled i) := by
  have hline : c.pastLines[i]? = some c.pastLines[i] := List.getElem?_eq_getElem h
  rw [checkedRecall, element_of_getElem? (Int.natCast_nonneg i) hline, showRecalled,
    List.getD_eq_getElem?_getD, hline]
  rfl

theorem checkedRecallUp_eq {c : Console} (h : c.RecallsPast) :
    c.checkedRecallUp = .ok c.recallUp := by
  rw [checkedRecallUp, recallUp]
  split
  · rfl
  · rename_i hne
    have hpos := List.length_pos_of_ne_nil hne
    cases hindex : c.recallIndex with
    | none =>
      have hnone : c.index = -1 := by rw [index, hindex]; rfl
      have hlast : (c.pastLines.length : Int) - 1 = (c.pastLines.length - 1 : Nat) := by omega
      rw [if_pos hnone, hlast, checkedRecall_eq (by omega)]
    | some i =>
      have hsome : c.index = i := by rw [index, hindex]; rfl
      have hi := h i hindex
      rw [hsome, if_neg (by omega)]
      split
      · have hpred : (i : Int) - 1 = (i - 1 : Nat) := by omega
        rw [hpred, checkedRecall_eq (by omega)]
      · have hzero : i = 0 := by omega
        rw [checkedRecall_eq hi, hzero]

theorem checkedRecallDown_eq {c : Console} (h : c.RecallsPast) :
    c.checkedRecallDown = .ok c.recallDown := by
  rw [checkedRecallDown, recallDown]
  cases hindex : c.recallIndex with
  | none =>
    have hnone : c.index = -1 := by rw [index, hindex]; rfl
    rw [if_pos hnone]
  | some i =>
    have hsome : c.index = i := by rw [index, hindex]; rfl
    have hi := h i hindex
    rw [hsome, if_neg (by omega)]
    dsimp only
    split_ifs with hint hnat hnat
    · exact checkedRecall_eq hnat
    · omega
    · omega
    · rfl

theorem checkedUpdate_eq (files : FileTree) {c : Console} (h : c.RecallsPast) (m : Message) :
    c.checkedUpdate files m = .ok (c.update files m) := by
  cases m with
  | runPending => exact c.checkedRunNext_eq
  | key k =>
    cases k with
    | up => rw [checkedUpdate, checkedRecallUp_eq h]; rfl
    | down => rw [checkedUpdate, checkedRecallDown_eq h]; rfl
    | tab => rw [checkedUpdate, checkedComplete_eq]; rfl
    | enter => exact c.checkedEnter_eq files
    | _ => rfl
  | _ => rfl

theorem checkedAfter_eq {c : Console} (h : c.RecallsPast) (event : Event) :
    c.checkedAfter event = .ok (c.after event) := by
  cases event with
  | message files m =>
    rw [checkedAfter, checkedUpdate_eq files h]
    rfl
  | edit field => rfl

theorem checkedAfterAll_eq {c : Console} (h : c.RecallsPast) (events : List Event) :
    c.checkedAfterAll events = .ok (c.afterAll events) := by
  induction events generalizing c with
  | nil => rfl
  | cons event events ih =>
    rw [checkedAfterAll, List.foldlM_cons, checkedAfter_eq h]
    exact ih (recallsPast_after h event)

theorem entriesFrom_eq (entries : List HistoryEntry) (n : Nat) :
    entriesFrom entries n = .ok (entries.drop n) := by
  by_cases hn : n < entries.length
  · have hget : entries[n]? = some entries[n] := List.getElem?_eq_getElem hn
    have ih := entriesFrom_eq entries (n + 1)
    rw [entriesFrom, if_pos (by omega), element_of_getElem? (Int.natCast_nonneg n) hget,
      List.drop_eq_getElem_cons hn]
    rw [Int.natCast_succ] at ih
    simp only [bind, Except.bind, ih]
    rfl
  · rw [entriesFrom, if_neg (by omega), List.drop_of_length_le (by omega)]
termination_by entries.length - n

/-- Drawing breaks down at the rule, which is to be two columns shorter than the window. -/
theorem checkedView_narrow {c : Console} (hready : c.ready = true) (hstays : c.quitting = false)
    (h : c.width < 2) : c.checkedView = .error .negativeCount ∧ c.view = .error .negativeRule := by
  have hrule : repeated (min (c.width - 2) 60) "─" = .error .negativeCount := by
    rw [repeated, if_pos (by omega)]
  constructor
  · rw [checkedView, hready, hstays, hrule]
    rfl
  · rw [view, hready, hstays]
    simp [h]

theorem checkedView_wide {c : Console}
    (h : ¬ (c.ready = true ∧ c.quitting = false ∧ c.width < 2)) :
    ∃ screen, c.checkedView = .ok screen ∧ c.view = .ok screen := by
  rw [checkedView, view]
  split
  · exact ⟨_, rfl, rfl⟩
  split
  · exact ⟨_, rfl, rfl⟩
  have hwidth : ¬ c.width < 2 := by simp_all
  have hrule : repeated (min (c.width - 2) 60) "─" =
      .ok (Drawing.times (min (c.width - 2) 60).toNat "─") := by
    rw [repeated, if_neg (by omega)]
  have hfirst :
      (let available : Int := c.height - c.reservedLines
       let first := if available < c.history.length then c.history.length - available else 0
       if first < 0 then 0 else first) =
        (((c.history.length : Int) - (c.height - c.reservedLines)).toNat : Int) := by
    dsimp only
    split_ifs <;> omega
  dsimp only at hfirst ⊢
  rw [if_neg hwidth, hfirst, hrule, entriesFrom_eq]
  exact ⟨_, rfl, rfl⟩

/-- The console breaks down only where it is drawn, and only in a window of less than two columns.
Whatever happens to a new console, no step of it breaks down, nor does the answer to any further
message; and drawing it breaks down exactly if it has not quit and the window was last given less
than two columns. A console whose window always has two columns or more can be drawn at any time. -/
theorem breaks_down_iff_narrow (events : List Event) :
    let c := start.afterAll events
    start.checkedAfterAll events = .ok c ∧
    (∀ files m, c.checkedUpdate files m = .ok (c.update files m)) ∧
    (c.checkedView = .error .negativeCount ∧ c.view = .error .negativeRule ∨
      ∃ screen, c.checkedView = .ok screen ∧ c.view = .ok screen) ∧
    (c.view = .error .negativeRule ↔
      c.quitting = false ∧ ∃ width, (widths events).getLast? = some width ∧ width < 2) ∧
    ((∀ width ∈ widths events, 2 ≤ width) → ∃ screen, c.view = .ok screen) := by
  intro c
  have hnew : start.RecallsPast := recallsPast_of_none rfl
  have hrecalls : c.RecallsPast := recallsPast_afterAll hnew events
  obtain ⟨hwidth, hready⟩ := resized_afterAll start events
  have hnarrow : (c.ready = true ∧ c.quitting = false ∧ c.width < 2) ↔
      c.quitting = false ∧ ∃ width, (widths events).getLast? = some width ∧ width < 2 := by
    have hstart : start.ready = false := rfl
    simp only [c, hwidth, hready, hstart, Bool.false_or]
    cases (widths events).getLast? with
    | none => simp
    | some width => simp
  have hdrawn : c.view = .error .negativeRule ↔
      c.ready = true ∧ c.quitting = false ∧ c.width < 2 := by
    constructor
    · intro hview
      by_contra h
      obtain ⟨screen, -, hscreen⟩ := checkedView_wide h
      rw [hview] at hscreen
      cases hscreen
    · exact fun h => (checkedView_narrow h.1 h.2.1 h.2.2).2
  refine ⟨checkedAfterAll_eq hnew events, fun files m => checkedUpdate_eq files hrecalls m, ?_,
    hdrawn.trans hnarrow, ?_⟩
  · by_cases h : c.ready = true ∧ c.quitting = false ∧ c.width < 2
    · exact .inl (checkedView_narrow h.1 h.2.1 h.2.2)
    · exact .inr (checkedView_wide h)
  · intro hwide
    have hnot : ¬ (c.ready = true ∧ c.quitting = false ∧ c.width < 2) := by
      rw [hnarrow]
      rintro ⟨-, width, hlast, hless⟩
      have hmem := hwide width (List.mem_of_getLast? hlast)
      omega
    obtain ⟨screen, -, hscreen⟩ := checkedView_wide hnot
    exact ⟨screen, hscreen⟩

/-- A line is entered and called back, another one is loaded as a window of eighty columns is made
known, and the console is drawn. -/
theorem breaks_down_iff_narrow_wide :
    let files : FileTree := ⟨[], []⟩
    let events : List Event := [.message files (.typed '1'), .message files (.key .enter),
      .message files (.resize 80 24), .message files (.key .up), .message files .runPending]
    (∀ width ∈ widths events, 2 ≤ width) ∧ (start.afterAll events).recallIndex = some 0 ∧
      ∃ screen, (start.afterAll events).view = .ok screen := by
  intro files events
  have hwide : ∀ width ∈ widths events, 2 ≤ width := by decide
  obtain ⟨-, -, -, -, hview⟩ := breaks_down_iff_narrow events
  exact ⟨hwide, by decide +kernel, hview hwide⟩

/-- A window of one column is made known to a new console, which then cannot be drawn. -/
theorem not_drawn_in_narrow_window :
    let files : FileTree := ⟨[], []⟩
    let c := start.afterAll [.message files (.resize 1 24)]
    c.checkedView = .error .negativeCount ∧ c.view = .error .negativeRule := by
  decide +kernel

end LineScript.Console
