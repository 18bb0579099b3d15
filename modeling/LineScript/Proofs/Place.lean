import LineScript.Proofs.CodeFrame
import LineScript.Proofs.Exec
import LineScript.Proofs.Expansion

/-! Where errors point. A column stands for a byte offset that parts the symbols of the raw line, and
the frame has its caret under the symbol behind it. A report points at the first brace that is left
open, a failing echo behind the brace of its first failing span, and a failing declaration at its
value. -/

namespace LineScript

/-- A place in a raw line is at a byte offset: its column is that of the symbol there, and its frame
shows the line, with a single caret that stands under this symbol, or under the end of the line. -/
structure Located.PointsAt (l : Located) (number : Nat) (raw : Text) (o : Nat) : Prop where
  line : l.line = number
  source : l.source = raw
  inside : o ≤ raw.length
  boundary : raw.IsBoundary o
  column : l.column = Text.symbolCount (raw.take o) + 1
  range : 1 ≤ l.column ∧ l.column ≤ Text.symbolCount raw + 1
  unclamped : clampColumn raw l.column = l.column
  frame : ∃ gutter below : Text,
    l.frame.splitOn Text.lf = [frameHead number l.column, gutter ++ raw, below] ∧
    Text.symbols (gutter ++ raw) = Text.symbols gutter ++ Text.symbols raw ∧
    ∀ i, (Text.symbols below)[i]? = some (.char '^') ↔
      i = Text.symbolCount gutter + (l.column - 1)

theorem Located.pointsAt_ofOffset {number o : Nat} {raw : Text} (hraw : Text.lf ∉ raw)
    (hnumber : 0 < number) (hinside : o ≤ raw.length) (hboundary : raw.IsBoundary o)
    (err : EvalError) : (ofOffset number raw o err).PointsAt number raw o := by
  have hcolumn : (ofOffset number raw o err).column = Text.symbolCount (raw.take o) + 1 := by
    rw [ofOffset, columnAt, Int.toNat_natCast]
  have hle := hboundary.symbolCount_take_le
  have hclamp : clampColumn raw (ofOffset number raw o err).column =
      (ofOffset number raw o err).column := by
    rw [hcolumn, clampColumn]
    omega
  refine ⟨rfl, rfl, hinside, hboundary, hcolumn, by omega, hclamp, frameGutter number, _,
    splitOn_codeFrame hraw hnumber hclamp,
    Text.symbols_append_of_forall_lt (fun _ => toNat_lt_of_mem_frameGutter) raw,
    getElem?_caret_iff⟩

/-- A brace that no backslash escapes and no other brace closes. -/
structure Text.OpensAt (t : Text) (o : Nat) : Prop where
  brace : t[o]? = some openBrace
  unescaped : ∀ i, o = i + 1 → t[i]? ≠ some backslash
  unclosed : closeBrace ∉ t.drop (o + 1)

def Text.OpensFirstAt (t : Text) (o : Nat) : Prop := t.OpensAt o ∧ ∀ i < o, ¬ t.OpensAt i

namespace Piece

/-- Every brace in the text of a literal is escaped. -/
theorem exists_backslash_of_getElem? {text : Text} {o : Nat}
    (h : (Piece.literal text).unparse[o]? = some Text.openBrace) :
    ∃ i, o = i + 1 ∧ (Piece.literal text).unparse[i]? = some Text.backslash := by
  induction text generalizing o with
  | nil => exact absurd h (by simp [unparse])
  | cons b text ih =>
    rw [unparse_literal_cons] at h ⊢
    split at h
    · rcases o with _ | _ | o
      · exact absurd (Option.some.inj h) (by decide)
      · exact ⟨0, rfl, by simp [*]⟩
      · obtain ⟨i, rfl, hi⟩ := ih h
        exact ⟨i + 2, rfl, by simp [*]⟩
    · rename_i hb
      cases o with
      | zero => exact absurd (Option.some.inj h) hb
      | succ o =>
        obtain ⟨i, rfl, hi⟩ := ih h
        exact ⟨i + 1, rfl, by simp [*]⟩

theorem not_opensAt {p : Piece} (hp : p.IsReadable) (rest : Text) {o : Nat}
    (ho : o < p.unparse.length) : ¬ (p.unparse ++ rest).OpensAt o := by
  rintro ⟨hbrace, hescape, hclose⟩
  rw [List.getElem?_append_left ho] at hbrace
  cases p with
  | literal text =>
    obtain ⟨i, rfl, hi⟩ := exists_backslash_of_getElem? hbrace
    refine hescape i rfl ?_
    rw [List.getElem?_append_left (by omega), hi]
  | span source =>
    rw [unparse_span] at hbrace hclose ho
    rw [List.length_append, List.length_singleton] at ho
    by_cases hlast : o = (Text.openBrace :: source).length
    · rw [hlast, List.getElem?_concat_length] at hbrace
      exact absurd hbrace (by decide)
    · -- the brace at the end of the span is still to come
      apply hclose
      rw [List.append_assoc, List.drop_append_of_le_length (by omega)]
      simp

theorem cause_ne_of_error {s : Store} {p : Piece} {err : EvalError}
    (h : (p.expansion s).error = some err) : err.cause ≠ .unterminatedSpan := by
  cases p with
  | literal text => exact absurd h (by simp [expansion])
  | span source =>
    rw [expansion] at h
    split at h
    · exact absurd h (by simp)
    · rename_i e he
      exact Option.some.inj h ▸ (Store.evaluate_error he).2

end Piece

/-- Behind a text, the open braces are those of the rest, unless the seam makes an escape. -/
theorem Text.opensAt_append {t rest : Text} (hseam : ¬ t.Escapes rest) (o : Nat) :
    (t ++ rest).OpensAt (t.length + o) ↔ rest.OpensAt o := by
  have hget (i : Nat) : (t ++ rest)[t.length + i]? = rest[i]? := by
    rw [List.getElem?_append_right (Nat.le_add_right ..), Nat.add_sub_cancel_left]
  have hdrop : (t ++ rest).drop (t.length + o + 1) = rest.drop (o + 1) := by
    rw [Nat.add_assoc, ← List.drop_drop, List.drop_left]
  constructor
  · rintro ⟨hbrace, hescape, hclose⟩
    refine ⟨hget o ▸ hbrace, fun i hi => ?_, hdrop ▸ hclose⟩
    exact hget i ▸ hescape (t.length + i) (by omega)
  · rintro ⟨hbrace, hescape, hclose⟩
    refine ⟨(hget o).trans hbrace, fun i hi hslash => ?_, hdrop ▸ hclose⟩
    cases o with
    | succ o =>
      obtain rfl : i = t.length + o := by omega
      exact hescape o rfl ((hget o).symm.trans hslash)
    | zero =>
      refine hseam ⟨?_, (List.head?_eq_getElem? ..).trans hbrace⟩
      rw [List.getElem?_append_left (by omega)] at hslash
      rw [List.getLast?_eq_getElem?, ← hslash]
      congr 1
      omega

theorem Text.OpensFirstAt.append {p : Piece} {rest : Text} (hp : p.IsReadable)
    (hseam : ¬ p.unparse.Escapes rest) {o : Nat} (h : rest.OpensFirstAt o) :
    (p.unparse ++ rest).OpensFirstAt (p.unparse.length + o) := by
  refine ⟨(opensAt_append hseam o).2 h.1, fun i hi hopen => ?_⟩
  by_cases hfront : i < p.unparse.length
  · exact Piece.not_opensAt hp rest hfront hopen
  · obtain ⟨j, rfl⟩ := Nat.exists_eq_add_of_le (Nat.le_of_not_lt hfront)
    exact h.2 j (by omega) ((opensAt_append hseam j).1 hopen)

/-- What is reported as unterminated is the first brace that is left open. -/
theorem Store.opensFirstAt_of_error {s : Store} {t : Text} {err : EvalError}
    (h : (s.expand t).error = some err) (hcause : err.cause = .unterminatedSpan) :
    ∃ o, err.offset = some o ∧ t.OpensFirstAt o := by
  induction t using Segmentation.piece_induction generalizing err with
  | nil => exact absurd h (by simp [expand_nil])
  | piece p rest hp hseam ih =>
    rw [s.expand_piece hp hseam, Expansion.andThen] at h
    cases hfirst : (p.expansion s).error with
    | some err' =>
      rw [hfirst] at h
      obtain rfl := Option.some.inj (hfirst.symm.trans h)
      exact absurd hcause (Piece.cause_ne_of_error hfirst)
    | none =>
      rw [hfirst] at h
      obtain ⟨err', herr', rfl⟩ := Option.map_eq_some_iff.1 h
      obtain ⟨o, ho, hopen⟩ := ih herr' hcause
      exact ⟨p.unparse.length + o, congrArg (Option.map _) ho, hopen.append hp hseam⟩
  | opened source hsource =>
    rw [s.expand_open hsource] at h
    obtain rfl := Option.some.inj h
    exact ⟨0, rfl, ⟨rfl, by simp, hsource⟩, by simp⟩

/-- The first span of a text that cannot be evaluated has its brace at an offset. -/
structure Store.FailsFirstAt (s : Store) (t : Text) (o : Nat) : Prop where
  brace : t[o]? = some Text.openBrace
  span : ∃ before source after, (segments t).segments = before ++ ⟨.span source, o⟩ :: after ∧
    (s.evaluate source).isOk = false ∧
    ∀ source' i, ⟨.span source', i⟩ ∈ before → (s.evaluate source').isOk = true

theorem getElem?_of_segments {t source : Text} {o : Nat} {before after : List Segment}
    (h : (segments t).segments = before ++ ⟨.span source, o⟩ :: after) :
    t[o]? = some Text.openBrace := by
  have hoffset : o = (unparse (before.map (·.piece))).length := (segments_placed t).1 _ _ _ h
  have hwhole := unparse_segments t
  rw [h, List.map_append, unparse_append, List.append_assoc] at hwhole
  rw [← hwhole, hoffset, List.getElem?_append_right (Nat.le_refl _), Nat.sub_self]
  rfl

/-- What is left open is all of a text behind its segments. -/
theorem exists_open_of_error_segments {t : Text} {e : EvalError}
    (h : (segments t).error = some e) : ∃ front source, unparse (segments t).pieces = front ∧
      t = front ++ Text.openBrace :: source ∧ Text.closeBrace ∉ source ∧
      e = ⟨.unterminatedSpan, Text.openBrace :: source, some front.length⟩ := by
  have hcause := cause_of_error_segments h
  have hwhole := unparse_segments t
  obtain ⟨hoffset, source, hsource, hclose⟩ := (segments_placed t).2 e h
  rw [h, Option.map_some, Option.getD_some, hsource] at hwhole
  obtain ⟨cause, text, offset⟩ := e
  obtain rfl : cause = .unterminatedSpan := hcause
  obtain rfl : text = Text.openBrace :: source := hsource
  obtain rfl : offset = some (unparse (segments t).pieces).length := hoffset
  exact ⟨_, source, rfl, hwhole.symm, hclose, rfl⟩

/-- The failure of a text is that of its first span that cannot be evaluated. -/
theorem Store.exists_segment_of_failure? {s : Store} {t : Text} {err : EvalError}
    (h : s.failure? t = some err) :
    ∃ before source o after e, (segments t).segments = before ++ ⟨.span source, o⟩ :: after ∧
      (∀ source' i, ⟨.span source', i⟩ ∈ before → (s.evaluate source').isOk = true) ∧
      s.evaluate source = .error e ∧ err = { e with offset := some (o + 1) } := by
  obtain ⟨before, ⟨piece, o⟩, after, hsegments, hfails, hbefore⟩ := List.findSome?_eq_some_iff.1 h
  cases piece with
  | literal text => exact absurd hfails (by simp [Segment.failure?])
  | span source =>
    cases hv : s.evaluate source with
    | ok v => exact absurd hfails (by simp [Segment.failure?_of_ok hv])
    | error e =>
      rw [Segment.failure?_of_error hv] at hfails
      refine ⟨before, source, o, after, e, hsegments, fun source' i hmem => ?_, hv,
        (Option.some.inj hfails).symm⟩
      cases hv' : s.evaluate source' with
      | ok v => rfl
      | error e' => exact absurd (hbefore _ hmem) (by simp [Segment.failure?_of_error hv'])

theorem Store.failsFirstAt_of_failure? {s : Store} {t : Text} {err : EvalError}
    (h : s.failure? t = some err) : ∃ o, err.offset = some (o + 1) ∧ s.FailsFirstAt t o := by
  obtain ⟨before, source, o, after, e, hsegments, hbefore, hv, rfl⟩ := exists_segment_of_failure? h
  exact ⟨o, rfl, getElem?_of_segments hsegments, before, source, after, hsegments,
    by rw [hv]; rfl, hbefore⟩

namespace Line

/-- Where the text that an echo prints starts in its raw line. -/
def echoStart (raw : Text) : Nat := raw.indent + echoKeyword.length

theorem exists_echo_append {raw : Text} (h : classify raw.trim = .echo) :
    ∃ front rest, front.length = echoStart raw ∧ raw = front ++ (echoText raw.trim ++ rest) := by
  obtain ⟨u, v, -, -, hindent, hraw⟩ := Text.exists_indent_append raw
  refine ⟨u ++ echoKeyword, v, ?_, ?_⟩
  · rw [List.length_append, hindent, echoStart]
  · rw [List.append_assoc, ← List.append_assoc echoKeyword, ← eq_echoKeyword_append h,
      ← List.append_assoc, ← hraw]

theorem exists_cut_of_getElem? {raw : Text} (h : classify raw.trim = .echo) {o : Nat} {b : UInt8}
    (hb : (echoText raw.trim)[o]? = some b) :
    ∃ before after, before.length = echoStart raw + o ∧ raw = before ++ b :: after := by
  obtain ⟨front, rest, hfront, hraw⟩ := exists_echo_append h
  obtain ⟨ho, rfl⟩ := List.getElem?_eq_some_iff.1 hb
  refine ⟨front ++ (echoText raw.trim).take o, (echoText raw.trim).drop (o + 1) ++ rest, ?_, ?_⟩
  · rw [List.length_append, List.length_take, hfront]
    omega
  · rw [List.append_assoc, ← List.cons_append, ← List.append_assoc _ _ rest,
      ← List.drop_eq_getElem_cons ho, List.take_append_drop, ← hraw]

theorem echoText_isPrefix_drop {raw : Text} (h : classify raw.trim = .echo) :
    echoText raw.trim <+: raw.drop (echoStart raw) := by
  obtain ⟨front, rest, hfront, hraw⟩ := exists_echo_append h
  have hdrop : (front ++ (echoText raw.trim ++ rest)).drop (echoStart raw) =
      echoText raw.trim ++ rest := List.drop_left' hfront
  rw [← hraw] at hdrop
  exact ⟨rest, hdrop.symm⟩

/-- The value of a declaration starts at an offset of its raw line. A line with fewer than five
fields has its value where it ends. -/
def ValueAt (raw : Text) (o : Nat) : Prop :=
  match (fields raw)[4]? with
  | some f => o = f.start ∧ f.text <+: raw.drop o
  | none => o = raw.indent + raw.trim.length

theorem valueAt (raw : Text) :
    ValueAt raw (raw.indent + (Declaration.ofLine raw.trim).valueOffset) := by
  have hfield : (fields raw)[4]? = (fields raw.trim)[4]?.map (Field.shift raw.indent) := by
    rw [fields_trim, List.getElem?_map]
  cases htrim : (fields raw.trim)[4]? with
  | none => simp only [ValueAt, hfield, htrim, Option.map_none, Declaration.ofLine, Option.getD_none]
  | some f =>
    rw [htrim, Option.map_some] at hfield
    have hoffset : raw.indent + (Declaration.ofLine raw.trim).valueOffset =
        (f.shift raw.indent).start := by
      simp only [Declaration.ofLine, htrim, Option.map_some, Option.getD_some, Field.shift]
    simp only [ValueAt, hfield]
    refine ⟨hoffset, ?_⟩
    rw [hoffset]
    exact isPrefix_drop_of_mem_fields (List.mem_of_getElem? hfield)

theorem ValueAt.isBoundary {raw : Text} {o : Nat} (h : ValueAt raw o) :
    o ≤ raw.length ∧ raw.IsBoundary o := by
  -- white space stands before a field and behind a trimmed line, and parts symbols
  unfold ValueAt at h
  split at h
  · rename_i f hf
    obtain ⟨before, after, hraw, hstart, hbefore, -⟩ :=
      exists_of_mem_fields (List.mem_of_getElem? hf)
    obtain ⟨rfl, -⟩ := h
    rw [hraw, ← hstart]
    refine ⟨by simp only [List.length_append]; omega, ?_⟩
    rcases List.eq_nil_or_concat before with rfl | ⟨before, b, rfl⟩
    · exact Text.isBoundary_zero _
    · have hb := hbefore b (by simp)
      simpa using Text.isBoundary_after (Text.toNat_lt_of_isSpace hb) (f.text ++ after)
  · obtain ⟨u, v, -, hv, hindent, hraw⟩ := Text.exists_indent_append raw
    have ho : o = (u ++ raw.trim).length := by rw [h, List.length_append, hindent]
    rw [hraw, ho]
    refine ⟨by simp only [List.length_append]; omega, ?_⟩
    cases v with
    | nil => exact Text.isBoundary_of_le (by simp)
    | cons b v =>
      have hb := Text.isSpace_of_isBlank (hv b List.mem_cons_self)
      exact Text.isBoundary_before (Text.toNat_lt_of_isSpace hb) v

end Line

theorem Line.isBoundary_of_brace {raw : Text} (h : classify raw.trim = .echo) {o : Nat}
    (hbrace : (echoText raw.trim)[o]? = some Text.openBrace) :
    echoStart raw + o + 1 ≤ raw.length ∧ raw.IsBoundary (echoStart raw + o) ∧
      raw.IsBoundary (echoStart raw + o + 1) := by
  obtain ⟨before, after, hlength, hraw⟩ := exists_cut_of_getElem? h hbrace
  rw [← hlength, hraw]
  refine ⟨?_, Text.isBoundary_before (by decide) after, Text.isBoundary_after (by decide) after⟩
  rw [List.length_append, List.length_cons]
  omega

/-- Every error points at its cause. A report of an echo points at the first brace of its text that
is neither escaped nor closed. A failure of an echo points behind the brace of its first span that
cannot be evaluated, and a failure of a declaration at its value. -/
theorem exec_points (e : Engine) (refusal : Option Text) {raw : Text} (hraw : Text.lf ∉ raw) :
    (∀ d, (e.exec refusal raw).diagnostic = some d →
      Line.classify raw.trim = .echo ∧
      Line.echoText raw.trim <+: raw.drop (Line.echoStart raw) ∧
      ∃ o, (Line.echoText raw.trim).OpensFirstAt o ∧
        d.PointsAt (e.line + 1) raw (Line.echoStart raw + o)) ∧
    ∀ l, (e.exec refusal raw).failure = some (.runtime l) →
      (Line.classify raw.trim = .echo ∧
        Line.echoText raw.trim <+: raw.drop (Line.echoStart raw) ∧
        ∃ o, e.store.FailsFirstAt (Line.echoText raw.trim) o ∧
          l.PointsAt (e.line + 1) raw (Line.echoStart raw + o + 1)) ∨
      (Line.classify raw.trim = .declaration ∧
        ∃ o, Line.ValueAt raw o ∧ l.PointsAt (e.line + 1) raw o) := by
  cases hkind : Line.classify raw.trim with
  | ignored =>
    rw [Engine.exec_ignored hkind]
    exact ⟨fun d hd => absurd hd (by simp), fun l hl => absurd hl (by simp)⟩
  | echo =>
    have hprefix := Line.echoText_isPrefix_drop hkind
    rw [Engine.exec_echo hkind]
    constructor
    · intro d hd
      obtain ⟨err, herror, hcause, rfl⟩ := Engine.echo_diagnostic hd
      obtain ⟨o, ho, hopen⟩ := Store.opensFirstAt_of_error herror hcause
      obtain ⟨hinside, hbefore, -⟩ := Line.isBoundary_of_brace hkind hopen.1.brace
      refine ⟨rfl, hprefix, o, hopen, ?_⟩
      have hoffset : Engine.echoOffset raw err = Line.echoStart raw + o := by
        rw [Engine.echoOffset, ho, Option.getD_some, Line.echoStart]
      rw [hoffset]
      exact Located.pointsAt_ofOffset hraw (Nat.succ_pos _) (by omega) hbefore err
    · intro l hl
      obtain ⟨err, hfailure, rfl⟩ := Engine.echo_runtime hl
      obtain ⟨o, ho, hfails⟩ := Store.failsFirstAt_of_failure? hfailure
      obtain ⟨hinside, -, hafter⟩ := Line.isBoundary_of_brace hkind hfails.brace
      refine Or.inl ⟨rfl, hprefix, o, hfails, ?_⟩
      have hoffset : Engine.echoOffset raw err = Line.echoStart raw + o + 1 := by
        rw [Engine.echoOffset, ho, Option.getD_some, Line.echoStart, ← Nat.add_assoc]
      rw [hoffset]
      exact Located.pointsAt_ofOffset hraw (Nat.succ_pos _) hinside hafter err
  | declaration =>
    rw [Engine.exec_declaration hkind]
    constructor
    · intro d hd
      rw [Engine.declare_diagnostic] at hd
      exact absurd hd (by simp)
    · intro l hl
      obtain ⟨err, rfl⟩ := Engine.declare_runtime hl
      have hvalue := Line.valueAt raw
      obtain ⟨hinside, hboundary⟩ := hvalue.isBoundary
      exact Or.inr ⟨rfl, _, hvalue,
        Located.pointsAt_ofOffset hraw (Nat.succ_pos _) hinside hboundary err⟩

/-- An escaped brace, a closed span and a brace that is left open; a second span that fails; and a
value that is no number. -/
theorem exec_points_accented :
    let e : Engine := { globals := Store.empty, lineLimit := 65536, store := Store.empty }
    let opened : Text := "  echo é\\\x7b \x7b1\x7d \x7ba"
    let failing : Text := "echo é \x7b1\x7d\x7bq.r\x7d"
    let declared : Text := "\tlet int é = z"
    Text.lf ∉ opened ∧ Text.lf ∉ failing ∧ Text.lf ∉ declared ∧
      (∃ d, (e.exec none opened).diagnostic = some d ∧ d.column = 16 ∧
        ∃ o, (Line.echoText opened.trim).OpensFirstAt o ∧
          d.PointsAt 1 opened (Line.echoStart opened + o)) ∧
      (∃ l, (e.exec none failing).failure = some (.runtime l) ∧ l.column = 12 ∧
        ∃ o, e.store.FailsFirstAt (Line.echoText failing.trim) o ∧
          l.PointsAt 1 failing (Line.echoStart failing + o + 1)) ∧
      ∃ l, (e.exec none declared).failure = some (.runtime l) ∧ l.column = 14 ∧
        ∃ o, Line.ValueAt declared o ∧ l.PointsAt 1 declared o := by
  intro e opened failing declared
  have hopened : Text.lf ∉ opened := by decide
  have hfailing : Text.lf ∉ failing := by decide
  have hdeclared : Text.lf ∉ declared := by decide
  let report : Located := ⟨1, 16, opened, ⟨.unterminatedSpan, "\x7ba", some 10⟩⟩
  let failure : Located := ⟨1, 12, failing, ⟨.literal .expectedDigits, "q.r", some 8⟩⟩
  let refused : Located := ⟨1, 14, declared, ⟨.literal .expectedDigits, "z", none⟩⟩
  have hreport : (e.exec none opened).diagnostic = some report := by decide +kernel
  have hfailure : (e.exec none failing).failure = some (.runtime failure) := by decide +kernel
  have hrefused : (e.exec none declared).failure = some (.runtime refused) := by decide +kernel
  have hecho : Line.classify failing.trim = .echo := by decide
  have hdeclaration : Line.classify declared.trim = .declaration := by decide
  obtain ⟨-, -, hfirst⟩ := (exec_points e none hopened).1 report hreport
  refine ⟨hopened, hfailing, hdeclared, ⟨report, hreport, rfl, hfirst⟩, ⟨failure, hfailure, rfl, ?_⟩,
    refused, hrefused, rfl, ?_⟩
  · rcases (exec_points e none hfailing).2 failure hfailure with ⟨-, -, hspan⟩ | ⟨hkind, -⟩
    · exact hspan
    · exact absurd (hecho.symm.trans hkind) (by decide)
  · rcases (exec_points e none hdeclared).2 refused hrefused with ⟨hkind, -⟩ | ⟨-, hvalue⟩
    · exact absurd (hdeclaration.symm.trans hkind) (by decide)
    · exact hvalue

end LineScript
