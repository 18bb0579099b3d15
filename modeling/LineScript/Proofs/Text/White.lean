import LineScript.Text.White
import LineScript.Proofs.Text.Symbol

/-! White space and blanks. A text is white space, then what is left of it when white space is cut
off, then white space. Where blanks are the only white space, cutting it off is trimming. A text
that starts with anything else has words. -/

namespace LineScript.Text

/-- A byte that can stand in the encoding of a white-space character. -/
def isWhiteByte (b : UInt8) : Bool := isSpace b || 0x80 ≤ b

theorem isWhiteByte_of_ge {b : UInt8} (h : 0x80 ≤ b.toNat) : isWhiteByte b = true := by
  have hle : (0x80 : UInt8) ≤ b := UInt8.le_iff_toNat_le.2 h
  simp [isWhiteByte, hle]

theorem isWhiteByte_of_mem_encode {x : Symbol} (h : isWhite x = true) {b : UInt8}
    (hb : b ∈ x.encode) : isWhiteByte b = true := by
  cases x with
  | stray c => exact absurd h (by simp [isWhite])
  | char c =>
    by_cases hc : c.val.toNat < 0x80
    · rw [Symbol.encode, Symbol.encode_of_lt hc, List.mem_singleton] at hb
      have hn : (UInt8.ofNat c.val.toNat).toNat = c.val.toNat := by
        rw [UInt8.toNat_ofNat']
        omega
      have hspace : isSpace (UInt8.ofNat c.val.toNat) = true := by
        simp only [isWhite, isWhiteChar, Bool.or_eq_true, Bool.and_eq_true, decide_eq_true_eq,
          beq_iff_eq, Char.toNat] at h
        simp only [isSpace, Bool.or_eq_true, Bool.and_eq_true, decide_eq_true_eq, beq_iff_eq,
          UInt8.le_iff_toNat_le, ← UInt8.toNat_inj, hn, UInt8.reduceToNat]
        omega
      rw [hb, isWhiteByte, hspace, Bool.true_or]
    · exact isWhiteByte_of_ge (Symbol.ge_of_mem_encode (by omega) hb)

theorem toNat_lt_of_isSpace {b : UInt8} (h : isSpace b = true) : b.toNat < 0x80 := by
  simp only [isSpace, Bool.or_eq_true, beq_iff_eq, Bool.and_eq_true, decide_eq_true_eq,
    UInt8.le_iff_toNat_le] at h
  rcases h with rfl | ⟨-, hle⟩
  · decide
  · exact Nat.lt_of_le_of_lt hle (by decide)

theorem isBlank_of_ge {b : UInt8} (h : 0x80 ≤ b.toNat) : isBlank b = false := by
  by_contra hblank
  have hlt := toNat_lt_of_isSpace (isSpace_of_isBlank (by simpa using hblank))
  omega

theorem isBlank_of_mem_encode {t : Text} {x : Symbol} (hx : x ∈ symbols t)
    (h : isWhite x = false) {b : UInt8} (hb : b ∈ x.encode) : isBlank b = false := by
  cases x with
  | stray c =>
    rw [Symbol.encode, List.mem_singleton] at hb
    exact isBlank_of_ge (hb ▸ ge_of_stray_mem hx)
  | char c =>
    by_cases hc : c.val.toNat < 0x80
    · rw [Symbol.encode, Symbol.encode_of_lt hc, List.mem_singleton] at hb
      have hn : b.toNat = c.val.toNat := by
        rw [hb, UInt8.toNat_ofNat']
        omega
      simp only [isWhite, isWhiteChar, Bool.or_eq_false_iff, Bool.and_eq_false_iff,
        decide_eq_false_iff_not, beq_eq_false_iff_ne, ne_eq, Char.toNat] at h
      simp only [isBlank, Bool.or_eq_false_iff, beq_eq_false_iff_ne, ne_eq, ← UInt8.toNat_inj,
        UInt8.reduceToNat, hn]
      omega
    · exact isBlank_of_ge (Symbol.ge_of_mem_encode (by omega) hb)

/-- The symbols of a text are white ones, those left when white space is cut off, and white ones. -/
theorem exists_symbols_eq (t : Text) : ∃ us ws vs, symbols t = us ++ ws ++ vs ∧
    trimWhite t = ofSymbols ws ∧ (∀ x ∈ us, isWhite x = true) ∧ (∀ x ∈ vs, isWhite x = true) ∧
    (∀ x, ws.head? = some x → isWhite x = false) ∧
    (∀ x, ws.getLast? = some x → isWhite x = false) := by
  let rest := (symbols t).dropWhile isWhite
  have hrest : symbols t = (symbols t).takeWhile isWhite ++ rest :=
    List.takeWhile_append_dropWhile.symm
  have hcut : rest = rest.rdropWhile isWhite ++ rest.rtakeWhile isWhite :=
    List.rdropWhile_append_rtakeWhile.symm
  refine ⟨(symbols t).takeWhile isWhite, rest.rdropWhile isWhite, rest.rtakeWhile isWhite,
    ?_, rfl, fun x hx => List.mem_takeWhile_imp hx, fun x hx => List.mem_rtakeWhile_imp hx, ?_, ?_⟩
  · rw [List.append_assoc, ← hcut, ← hrest]
  · intro x hx
    have hhead : rest.head? = some x := by
      obtain ⟨others, hothers⟩ := List.head?_eq_some_iff.1 hx
      rw [hcut, hothers]
      rfl
    have hnot := List.head?_dropWhile_not isWhite (symbols t)
    rw [show List.dropWhile isWhite (symbols t) = rest from rfl, hhead] at hnot
    simpa using hnot
  · intro x hx
    have hne : rest.rdropWhile isWhite ≠ [] := List.ne_nil_of_mem (List.mem_of_getLast? hx)
    have hlast := List.rdropWhile_last_not isWhite rest hne
    rw [List.getLast?_eq_some_getLast hne, Option.some_inj] at hx
    rw [← hx]
    simpa using hlast

theorem exists_head_of_ofSymbols {ws : List Symbol} {b : UInt8}
    (h : (ofSymbols ws).head? = some b) : ∃ x, ws.head? = some x ∧ b ∈ x.encode := by
  cases ws with
  | nil => exact absurd h (by simp [ofSymbols])
  | cons x ws =>
    refine ⟨x, rfl, ?_⟩
    rw [ofSymbols, List.flatMap_cons, List.head?_append_of_ne_nil _ (Symbol.encode_ne_nil x)] at h
    exact List.mem_of_head? h

theorem exists_getLast_of_ofSymbols {ws : List Symbol} {b : UInt8}
    (h : (ofSymbols ws).getLast? = some b) : ∃ x, ws.getLast? = some x ∧ b ∈ x.encode := by
  rcases List.eq_nil_or_concat' ws with rfl | ⟨others, x, rfl⟩
  · exact absurd h (by simp [ofSymbols])
  · refine ⟨x, by simp, ?_⟩
    have hlast : ofSymbols [x] = x.encode := List.flatMap_singleton ..
    rw [ofSymbols_append, hlast, List.getLast?_append_of_ne_nil _ (Symbol.encode_ne_nil x)] at h
    exact List.mem_of_getLast? h

theorem trim_trimWhite (t : Text) : (trimWhite t).trim = trimWhite t := by
  obtain ⟨us, ws, vs, hsymbols, hws, _, _, hhead, hlast⟩ := exists_symbols_eq t
  have hmem {x : Symbol} (hx : x ∈ ws) : x ∈ symbols t := by simp [hsymbols, hx]
  rw [hws]
  apply trim_eq_self
  · intro b hb
    obtain ⟨x, hx, hb⟩ := exists_head_of_ofSymbols hb
    exact isBlank_of_mem_encode (hmem (List.mem_of_head? hx)) (hhead x hx) hb
  · intro b hb
    obtain ⟨x, hx, hb⟩ := exists_getLast_of_ofSymbols hb
    exact isBlank_of_mem_encode (hmem (List.mem_of_getLast? hx)) (hlast x hx) hb

theorem eq_append_ofSymbols {t : Text} {us ws vs : List Symbol}
    (h : symbols t = us ++ ws ++ vs) : t = ofSymbols us ++ ofSymbols ws ++ ofSymbols vs := by
  rw [← ofSymbols_append, ← ofSymbols_append, ← h, ofSymbols_symbols]

theorem trimWhite_eq_trim {t : Text}
    (h : ∀ x ∈ symbols t, isWhite x = true → x = .char ' ' ∨ x = .char '\t') :
    trimWhite t = trim t := by
  obtain ⟨us, ws, vs, hsymbols, hws, hus, hvs, _, _⟩ := exists_symbols_eq t
  have hblank {xs : List Symbol} (hxs : ∀ x ∈ xs, x ∈ symbols t)
      (hwhite : ∀ x ∈ xs, isWhite x = true) : ∀ b ∈ ofSymbols xs, isBlank b = true := by
    intro b hb
    obtain ⟨x, hx, hb⟩ := List.mem_flatMap.1 hb
    rcases h x (hxs x hx) (hwhite x hx) with rfl | rfl
    · obtain rfl := List.mem_singleton.1 hb
      rfl
    · obtain rfl := List.mem_singleton.1 hb
      rfl
  have hu := hblank (fun x hx => by simp [hsymbols, hx]) hus
  have hv := hblank (fun x hx => by simp [hsymbols, hx]) hvs
  calc trimWhite t = (trimWhite t).trim := (trim_trimWhite t).symm
    _ = (ofSymbols us ++ ofSymbols ws ++ ofSymbols vs).trim := by rw [trim_append hu _ hv, hws]
    _ = trim t := by rw [← eq_append_ofSymbols hsymbols]

section Blanks
variable {u v : Text}

theorem isWhite_of_isBlank {b : UInt8} (h : isBlank b = true) :
    b.toNat < 0x80 ∧ isWhite (.char (Char.ofNat b.toNat)) = true := by
  simp only [isBlank, Bool.or_eq_true, beq_iff_eq] at h
  rcases h with rfl | rfl <;> decide

theorem exists_symbols_blank_append (hu : ∀ b ∈ u, isBlank b = true) (t : Text) :
    ∃ us, (∀ x ∈ us, isWhite x = true) ∧ symbols (u ++ t) = us ++ symbols t := by
  induction u with
  | nil => exact ⟨[], List.forall_mem_nil _, rfl⟩
  | cons b u ih =>
    obtain ⟨hb, hu⟩ := List.forall_mem_cons.1 hu
    obtain ⟨us, hus, hsymbols⟩ := ih hu
    obtain ⟨hlt, hwhite⟩ := isWhite_of_isBlank hb
    refine ⟨_ :: us, List.forall_mem_cons.2 ⟨hwhite, hus⟩, ?_⟩
    rw [List.cons_append, symbols_cons_of_lt hlt, hsymbols, List.cons_append]

theorem exists_symbols_append_blank (t : Text) (hv : ∀ b ∈ v, isBlank b = true) :
    ∃ vs, (∀ x ∈ vs, isWhite x = true) ∧ symbols (t ++ v) = symbols t ++ vs := by
  cases v with
  | nil => exact ⟨[], List.forall_mem_nil _, by simp⟩
  | cons b v =>
    obtain ⟨hb, hv⟩ := List.forall_mem_cons.1 hv
    obtain ⟨hlt, hwhite⟩ := isWhite_of_isBlank hb
    obtain ⟨vs, hvs, hsymbols⟩ := exists_symbols_blank_append hv []
    rw [List.append_nil, symbols_nil, List.append_nil] at hsymbols
    refine ⟨_ :: vs, List.forall_mem_cons.2 ⟨hwhite, hvs⟩, ?_⟩
    rw [symbols_append_cons hlt, hsymbols]

end Blanks

theorem trimWhite_trim (t : Text) : trimWhite t.trim = trimWhite t := by
  obtain ⟨u, v, hu, hv, ht⟩ := exists_trim_append t
  obtain ⟨us, hus, hleft⟩ := exists_symbols_blank_append hu (t.trim ++ v)
  obtain ⟨vs, hvs, hright⟩ := exists_symbols_append_blank t.trim hv
  -- the blanks on either side are white symbols of their own
  rw [← List.append_assoc, ← ht, hright] at hleft
  unfold trimWhite
  rw [hleft, List.dropWhile_append_of_pos hus, List.dropWhile_append]
  split
  · rename_i hempty
    rw [List.isEmpty_iff] at hempty
    rw [hempty, List.dropWhile_eq_nil_iff.2 hvs]
  · rw [List.reverse_append, List.dropWhile_append_of_pos (by simpa using hvs)]

/-- Whether the first symbol of a text is white space. -/
def startsWhite (t : Text) : Bool := (symbols t).head?.any isWhite

/-- A trimmed text that starts with white space starts with a byte of it that is no blank. -/
theorem exists_eq_cons_of_startsWhite {t : Text} (h : startsWhite t.trim = true) :
    ∃ b rest, t.trim = b :: rest ∧ isWhiteByte b = true ∧ isBlank b = false := by
  cases ht : t.trim with
  | nil => simp [ht, startsWhite, symbols_nil] at h
  | cons b rest =>
    refine ⟨b, rest, rfl, ?_, head?_trim (by rw [ht, List.head?_cons])⟩
    rw [ht, startsWhite, symbols_cons, List.head?_cons, Option.any_some] at h
    obtain ⟨more, hmore⟩ := Symbol.encode_front_isPrefix b rest
    obtain ⟨c, others, hencode⟩ :=
      List.exists_cons_of_ne_nil (Symbol.encode_ne_nil (Symbol.front b rest))
    rw [hencode] at hmore
    obtain ⟨rfl, _⟩ := List.cons.inj hmore
    exact isWhiteByte_of_mem_encode h (hencode ▸ List.mem_cons_self)

/-- A trimmed text that does not start with white space is what is left of it without its white
space, then bytes of white space. -/
theorem exists_eq_trimWhite_append {t : Text} (h : startsWhite t.trim = false) :
    ∃ v, t.trim = trimWhite t ++ v ∧ (∀ b ∈ v, isWhiteByte b = true) ∧
      (trimWhite t = [] → v = []) := by
  obtain ⟨us, ws, vs, hsymbols, hws, hus, hvs, _, _⟩ := exists_symbols_eq t.trim
  rw [trimWhite_trim] at hws
  obtain rfl : us = [] := by
    cases us with
    | nil => rfl
    | cons x us => simp [startsWhite, hsymbols, hus x List.mem_cons_self] at h
  refine ⟨ofSymbols vs, ?_, ?_, ?_⟩
  · rw [hws]
    exact eq_append_ofSymbols hsymbols
  · intro b hb
    obtain ⟨x, hx, hb⟩ := List.mem_flatMap.1 hb
    exact isWhiteByte_of_mem_encode (hvs x hx) hb
  · intro hnil
    rw [hws] at hnil
    cases ws with
    | cons y ws => simp [ofSymbols, Symbol.encode_ne_nil] at hnil
    | nil =>
      cases vs with
      | nil => rfl
      | cons x vs => simp [startsWhite, hsymbols, hvs x List.mem_cons_self] at h

theorem words_ne_nil {t : Text} {x : Symbol} {xs : List Symbol} (ht : symbols t = x :: xs)
    (hx : isWhite x = false) : words t ≠ [] := by
  obtain ⟨first, rest, hsplit⟩ := List.exists_cons_of_ne_nil (List.splitOnP_ne_nil isWhite xs)
  rw [words, ht, List.splitOnP_cons_eq_if_modifyHead, if_neg (by simp [hx]), hsplit]
  simp

theorem words_ne_nil_of_colon {t : Text} (h : t.head? = some colon) : words t ≠ [] := by
  obtain ⟨rest, rfl⟩ := List.head?_eq_some_iff.1 h
  exact words_ne_nil (symbols_cons_of_lt (b := colon) (by decide) rest) (by decide)

end LineScript.Text
