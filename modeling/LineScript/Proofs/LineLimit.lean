import LineScript.Proofs.History

/-! The limit on the length of lines. The reader stops at the first line that reaches it, and a run
executes what comes before. The limit is never less than the room that the reader has from the
start, so that a smaller one that was asked for does not keep longer lines from being executed. -/

namespace LineScript

namespace Lines

theorem limitOf_natCast {m : Nat} (h : 0 < m) : limitOf m = max leastLimit m := by
  have hpos : ¬ ((m : Int) ≤ 0) := by omega
  rw [limitOf, if_neg hpos, Int.toNat_natCast]

theorem read_of_overlong {limit : Nat} {t line : Text} {before after : List Text}
    (h : terminated t = before ++ line :: after)
    (hshort : ∀ earlier ∈ before, earlier.length < limit) (hlong : limit ≤ line.length) :
    read limit t = ⟨before.map strip, true⟩ := by
  have hbefore : ∀ earlier ∈ before, decide (earlier.length < limit) = true := by
    simpa using hshort
  have htaken : (terminated t).takeWhile (·.length < limit) = before := by
    rw [h, List.takeWhile_append_of_pos hbefore, List.takeWhile_cons_of_neg (by simpa using hlong),
      List.append_nil]
  have hoverlong : (terminated t).any (limit ≤ ·.length) = true := by
    rw [h, List.any_append, List.any_cons, decide_eq_true hlong, Bool.true_or, Bool.or_true]
  rw [read, htaken, hoverlong]

theorem exists_of_mem_lines_read {limit : Nat} {t raw : Text} (h : raw ∈ (read limit t).lines) :
    ∃ line ∈ terminated t, raw = strip line ∧ line.length < limit := by
  obtain ⟨line, hline, rfl⟩ := List.mem_map.1 h
  have hlength := List.mem_takeWhile_imp (p := (decide <| List.length · < limit)) hline
  exact ⟨line, (List.takeWhile_prefix _).subset hline, rfl, of_decide_eq_true hlength⟩

theorem terminated_of_not_mem {t : Text} (hne : t ≠ []) (h : Text.lf ∉ t) : terminated t = [t] := by
  have hlast : ([t] : List Text).getLast? ≠ some [] := by simpa using hne
  rw [terminated, List.splitOn_eq_singleton h, if_neg hlast]

end Lines

namespace Session

theorem lasting_lineLimit (sink : Sink) (limit : Nat) :
    Lasting sink fun s => s.engine.lineLimit = limit where
  exec s raw hs := by rw [exec_engine, Engine.exec_lineLimit, hs]
  start s cancelled hs := hs
  assign s line hs := by
    obtain ⟨store, hassign⟩ := exists_assign s line
    rw [hassign]
    exact hs
  write s t hs := hs
  reset s hs := hs

section Turns
variable {sink : Sink} {halts : Nat → Bool} {s : Session} {lines : List Text}

theorem raw_mem_of_mem_turnsHalting {turn : Turn} (h : turn ∈ turnsHalting sink halts s lines) :
    turn.raw ∈ lines := by
  induction s, lines using exec_induction sink (fun s => s.cancelled || halts s.engine.line) with
  | nil s => exact absurd h List.not_mem_nil
  | stop s raw rest hgo =>
    rw [turnsHalting_of_stop hgo] at h
    exact absurd h List.not_mem_nil
  | fail s raw rest f hgo hf =>
    rw [turnsHalting_cons_of_failure hgo hf, List.mem_singleton] at h
    rw [h]
    exact List.mem_cons_self
  | next s raw rest hgo hf ih =>
    rw [turnsHalting_cons_of_none hgo hf] at h
    rcases List.mem_cons.1 h with rfl | h
    · exact List.mem_cons_self
    · exact List.mem_cons_of_mem raw (ih h)

theorem mem_turnsHalting_cons (h : (s.cancelled || halts s.engine.line) = false) (raw : Text)
    (rest : List Text) : ⟨s, raw⟩ ∈ turnsHalting sink halts s (raw :: rest) := by
  rw [turnsHalting, h]
  exact List.mem_cons_self

end Turns

/-- A run executes a script of one blank line if the line is below the limit. -/
theorem exists_turn_blank (s : Session) (sink : Sink) {n : Nat} (hpos : 0 < n)
    (h : n < s.engine.lineLimit) :
    ∃ turn ∈ s.runTurnsHalting sink (fun _ => false) false (List.replicate n 0x20),
      turn.raw.length = n := by
  have hne : (List.replicate n 0x20 : Text) ≠ [] := by simpa using hpos.ne'
  have hlf : Text.lf ∉ (List.replicate n 0x20 : Text) := by
    rw [List.mem_replicate]
    exact fun hlf => absurd hlf.2 (by decide)
  have hcr : Text.cr ∉ (List.replicate n 0x20 : Text) := by
    rw [List.mem_replicate]
    exact fun hcr => absurd hcr.2 (by decide)
  have hlines := Lines.terminated_of_not_mem hne hlf
  have hshort : ∀ line ∈ Lines.terminated (List.replicate n 0x20),
      line.length < s.engine.lineLimit := by
    rw [hlines, List.forall_mem_singleton, List.length_replicate]
    exact h
  rw [runTurnsHalting, Lines.read_eq hshort, hlines, List.map_singleton, Lines.strip_of_not_mem hcr]
  exact ⟨_, mem_turnsHalting_cons rfl _ _, List.length_replicate ..⟩

end Session

/-- Whatever has been done with an engine, a run executes the lines of its script that come before
the first one that reaches the limit, and then it fails, unless it stopped before. A line that is
longer than was asked for is kept from being executed if it also has `65536` bytes or more. Hence no
line that is longer than was asked for is ever executed exactly if `65535` bytes or more were asked
for. -/
theorem overlong_line_refused {globals : Store} {m : Nat} (hm : 0 < m) {e : Engine}
    (accepted : Engine.new globals m = .ok e) (sink : Sink) (actions : List Session.Action) :
    let s := Session.performAll { engine := e } sink actions
    (∀ halts cancelled script before line after,
      Lines.terminated script = before ++ line :: after →
      (∀ earlier ∈ before, earlier.length < max 65536 m) →
      m < line.length → 65536 ≤ line.length →
      let ran := Session.runLinesHalting sink halts (s.atStart cancelled) (before.map Lines.strip)
      s.runTurnsHalting sink halts cancelled script =
          Session.turnsHalting sink halts (s.atStart cancelled) (before.map Lines.strip) ∧
        s.runHalting sink halts cancelled script = (ran.1, ran.2.or (some .overlongLine))) ∧
    (∀ halts cancelled script, ∀ turn ∈ s.runTurnsHalting sink halts cancelled script,
      ∃ line ∈ Lines.terminated script, turn.raw = Lines.strip line ∧
        line.length < max 65536 m) ∧
    ((∀ halts cancelled script, ∀ turn ∈ s.runTurnsHalting sink halts cancelled script,
      turn.raw.length ≤ m) ↔ 65535 ≤ m) := by
  intro s
  have hlimit : s.engine.lineLimit = max 65536 m := by
    obtain ⟨-, rfl⟩ := Engine.new_eq accepted
    have hasked : Lines.limitOf m = max 65536 m := Lines.limitOf_natCast hm
    rw [← hasked]
    exact (Session.lasting_lineLimit sink _).performAll rfl actions
  have hexecuted : ∀ halts cancelled script,
      ∀ turn ∈ s.runTurnsHalting sink halts cancelled script,
      ∃ line ∈ Lines.terminated script, turn.raw = Lines.strip line ∧
        line.length < max 65536 m := by
    intro halts cancelled script turn hturn
    rw [← hlimit]
    exact Lines.exists_of_mem_lines_read (Session.raw_mem_of_mem_turnsHalting hturn)
  refine ⟨fun halts cancelled script before line after hlines hshort hlong hleast => ?_, hexecuted,
    fun henforced => ?_, fun hroom halts cancelled script turn hturn => ?_⟩
  · rw [← hlimit] at hshort
    have hreaches : s.engine.lineLimit ≤ line.length := hlimit ▸ max_le hleast hlong.le
    have hread := Lines.read_of_overlong hlines hshort hreaches
    rw [Session.runTurnsHalting, Session.runHalting, hread]
    exact ⟨rfl, rfl⟩
  · have hbelow : 65535 < s.engine.lineLimit := by
      rw [hlimit]
      exact Nat.lt_of_lt_of_le (by decide) (Nat.le_max_left 65536 m)
    obtain ⟨turn, hturn, hlength⟩ := s.exists_turn_blank sink (by decide) hbelow
    rw [← hlength]
    exact henforced _ _ _ turn hturn
  · obtain ⟨line, -, hraw, hlength⟩ := hexecuted halts cancelled script turn hturn
    have hstrip := (Lines.strip_isPrefix line).length_le
    rw [hraw]
    omega

/-- Four bytes were asked for: a line of `65536` blanks is refused, but nothing shorter. -/
theorem overlong_line_refused_blank :
    let e : Engine := { globals := Store.empty, lineLimit := 65536, store := Store.empty }
    let s : Session := { engine := e }
    let result := s.runHalting {} (fun _ => false) false
      (Text.ofString "echo hello\n" ++ List.replicate 65536 0x20)
    0 < 4 ∧ Engine.new Store.empty (4 : Nat) = .ok e ∧ result.2 = some .overlongLine ∧
      result.1.output = Text.ofString " hello\n" := by
  intro e s result
  have accepted : Engine.new Store.empty (4 : Nat) = .ok e := rfl
  have hblank : Lines.terminated (List.replicate 65536 0x20) = [List.replicate 65536 0x20] := by
    apply Lines.terminated_of_not_mem
    · exact List.cons_ne_nil _ _
    · rw [List.mem_replicate]
      exact fun hlf => absurd hlf.2 (by decide)
  have hlines : Lines.terminated (Text.ofString "echo hello\n" ++ List.replicate 65536 0x20) =
      [Text.ofString "echo hello"] ++ List.replicate 65536 0x20 :: [] := by
    rw [Lines.terminated_append (Or.inr (by decide)), hblank]
    rfl
  obtain ⟨hrefused, -, -⟩ := overlong_line_refused (m := 4) (by decide) accepted {} []
  obtain ⟨-, hresult⟩ := hrefused (fun _ => false) false _ _ _ _ hlines (by decide)
    (by rw [List.length_replicate]; decide) (by rw [List.length_replicate])
  have hran : result = _ := hresult
  rw [hran]
  exact ⟨by decide, accepted, by decide +kernel, by decide +kernel⟩

/-- The limit that was asked for is not kept: a run executes a line of ten bytes and passes, where
four were asked for. -/
theorem not_overlong_line_refused :
    ¬ ∀ (globals : Store) (m : Nat) (e : Engine) (sink : Sink) (script : Text), 0 < m →
      Engine.new globals m = .ok e →
      let s : Session := { engine := e }
      (∀ turn ∈ s.runTurnsHalting sink (fun _ => false) false script, turn.raw.length ≤ m) ∧
        ((∃ line ∈ Lines.terminated script, m < line.length) →
          (s.run sink false script).2 ≠ none) := by
  intro h
  obtain ⟨-, hfails⟩ := h Store.empty 4 _ {} "echo hello" (by decide) rfl
  exact hfails ⟨"echo hello", by decide, by decide⟩ (by decide +kernel)

end LineScript
