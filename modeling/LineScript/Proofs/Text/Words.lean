import LineScript.Proofs.Text.White
import Mathlib.Data.List.Infix

/-! The words of a text. The last word stands behind the rest of the text with only white space
after it. In a text of characters it stands at the very end exactly if there is no white space after
it, for no encoding of a character is the end of another one. -/

namespace LineScript

namespace Symbol

theorem lt_of_mem_tail_encode {c : Char} {b : UInt8} (hb : b ∈ (String.utf8EncodeChar c).tail) :
    b.toNat < 0xc0 := by
  by_cases h : c.val.toNat < 0x80
  · rw [encode_of_lt h] at hb
    exact absurd hb List.not_mem_nil
  · unfold String.utf8EncodeChar at hb
    dsimp only at hb
    rw [if_neg (by omega)] at hb
    repeat' split at hb
    all_goals
      simp only [List.tail_cons, List.mem_cons, List.not_mem_nil, or_false] at hb
      rcases hb with rfl | rfl | rfl <;> rw [UInt8.toNat_ofNat'] <;> omega

theorem head_encode {c : Char} {b : UInt8} (hb : (String.utf8EncodeChar c).head? = some b) :
    b.toNat < 0x80 ∨ 0xc0 ≤ b.toNat := by
  have hlt := toNat_char_lt c
  unfold String.utf8EncodeChar at hb
  generalize c.val.toNat = v at hlt hb
  dsimp only at hb
  repeat' split at hb
  all_goals
    rw [List.head?_cons] at hb
    rw [← Option.some.inj hb, UInt8.toNat_ofNat']
    omega

theorem eq_of_encode_suffix {c d : Char}
    (h : String.utf8EncodeChar c <:+ String.utf8EncodeChar d) : c = d := by
  obtain ⟨first, others, hencode⟩ := List.exists_cons_of_ne_nil (encode_ne_nil (.char d))
  obtain ⟨head, rest, hhead⟩ := List.exists_cons_of_ne_nil (encode_ne_nil (.char c))
  rw [encode] at hencode hhead
  rw [hencode] at h
  rcases List.suffix_cons_iff.1 h with heq | htail
  · exact encode_injective (heq.trans hencode.symm)
  · -- the first byte of a shorter encoding would continue the longer one
    have hmem : head ∈ (String.utf8EncodeChar d).tail := by
      rw [hencode, List.tail_cons]
      exact htail.subset (by simp [hhead])
    have hge := ge_of_mem_tail_encode hmem
    have hlt := lt_of_mem_tail_encode hmem
    have hfirst := head_encode (c := c) (b := head) (by rw [hhead, List.head?_cons])
    omega

end Symbol

namespace Text

theorem symbols_ofChars (cs : List Char) : symbols (ofChars cs) = cs.map .char := by
  induction cs with
  | nil => rfl
  | cons c cs ih =>
    obtain ⟨first, others, hencode⟩ :=
      List.exists_cons_of_ne_nil (Symbol.encode_ne_nil (.char c))
    rw [Symbol.encode] at hencode
    have hfront : Symbol.front first (others ++ ofChars cs) = .char c :=
      Symbol.front_eq_char (by rw [hencode]; exact List.prefix_append _ _)
    rw [ofChars, List.flatMap_cons, ← ofChars, hencode, List.cons_append, symbols_cons, hfront,
      Symbol.encode, hencode, List.length_cons, Nat.add_sub_cancel, List.drop_left, ih,
      List.map_cons]

section Pieces
variable {xs ys : List Symbol} {x : Symbol}

/-- The maximal runs of symbols that are not white space. -/
def pieces (xs : List Symbol) : List (List Symbol) := (xs.splitOnP isWhite).filter (· ≠ [])

theorem pieces_append_cons (hx : isWhite x = true) :
    pieces (xs ++ x :: ys) = pieces xs ++ pieces ys := by
  rw [pieces, List.splitOnP_append_cons xs ys hx, List.filter_append]
  rfl

theorem pieces_of_forall_white (h : ∀ y ∈ xs, isWhite y = true) : pieces xs = [] := by
  induction xs with
  | nil => rfl
  | cons y xs ih =>
    obtain ⟨hy, hxs⟩ := List.forall_mem_cons.1 h
    have hcut : pieces ([] ++ y :: xs) = pieces [] ++ pieces xs := pieces_append_cons hy
    rw [List.nil_append, ih hxs] at hcut
    exact hcut

theorem pieces_of_forall_not_white (hne : xs ≠ []) (h : ∀ y ∈ xs, isWhite y = false) :
    pieces xs = [xs] := by
  rw [pieces, List.splitOnP_eq_singleton h]
  simp [hne]

theorem pieces_append_white (h : ∀ y ∈ ys, isWhite y = true) : pieces (xs ++ ys) = pieces xs := by
  cases ys with
  | nil => rw [List.append_nil]
  | cons y ys =>
    obtain ⟨hy, hys⟩ := List.forall_mem_cons.1 h
    rw [pieces_append_cons hy, pieces_of_forall_white hys, List.append_nil]

theorem getLast?_rdropWhile {α : Type} {p : α → Bool} {l : List α} {y : α}
    (h : (l.rdropWhile p).getLast? = some y) : p y = false := by
  have hne := List.ne_nil_of_mem (List.mem_of_getLast? h)
  have hlast := List.rdropWhile_last_not p l hne
  rw [List.getLast?_eq_some_getLast hne, Option.some_inj] at h
  simpa [h] using hlast

/-- Symbols end in white space with a run without any before it. -/
theorem exists_eq_append_run (xs : List Symbol) : ∃ front run white, xs = front ++ run ++ white ∧
    (∀ y, front.getLast? = some y → isWhite y = true) ∧ (∀ y ∈ run, isWhite y = false) ∧
    (∀ y ∈ white, isWhite y = true) ∧ (run = [] → front = []) := by
  let rest := xs.rdropWhile isWhite
  have hxs : rest ++ xs.rtakeWhile isWhite = xs := List.rdropWhile_append_rtakeWhile
  have hrest : rest.rdropWhile (!isWhite ·) ++ rest.rtakeWhile (!isWhite ·) = rest :=
    List.rdropWhile_append_rtakeWhile
  have hfront {y : Symbol} (hy : (rest.rdropWhile (!isWhite ·)).getLast? = some y) :
      isWhite y = true := by simpa using getLast?_rdropWhile hy
  refine ⟨_, _, _, by rw [hrest, hxs], fun y => hfront, fun y hy => ?_,
    fun y hy => List.mem_rtakeWhile_imp hy, fun hnil => ?_⟩
  · simpa using List.mem_rtakeWhile_imp hy
  · rw [hnil, List.append_nil] at hrest
    cases hlast : (rest.rdropWhile (!isWhite ·)).getLast? with
    | none => exact List.getLast?_eq_none_iff.1 hlast
    | some y =>
      have hblack : isWhite y = false := getLast?_rdropWhile (hrest ▸ hlast)
      exact Bool.noConfusion (hblack.symm.trans (hfront hlast))

/-- The last piece has only white space after it. -/
theorem getLast?_pieces {front run white : List Symbol}
    (hfront : ∀ y, front.getLast? = some y → isWhite y = true)
    (hrun : ∀ y ∈ run, isWhite y = false) (hne : run ≠ [])
    (hwhite : ∀ y ∈ white, isWhite y = true) :
    (pieces (front ++ run ++ white)).getLast? = some run := by
  rw [pieces_append_white hwhite]
  rcases List.eq_nil_or_concat' front with rfl | ⟨others, y, rfl⟩
  · rw [List.nil_append, pieces_of_forall_not_white hne hrun]
    rfl
  · have hy : isWhite y = true := hfront y (by simp)
    rw [List.append_assoc, List.singleton_append, pieces_append_cons hy,
      pieces_of_forall_not_white hne hrun]
    simp

end Pieces

/-- The last symbol of a text is white space. -/
def endsWhite (t : Text) : Bool := (symbols t).getLast?.any isWhite

theorem encode_suffix_ofSymbols (xs : List Symbol) (x : Symbol) :
    x.encode <:+ ofSymbols (xs ++ [x]) := by
  have hlast : ofSymbols [x] = x.encode := List.flatMap_singleton ..
  rw [ofSymbols_append, hlast]
  exact List.suffix_append _ _

section LastWord
variable {t word : Text}

/-- The last word has only white space after it. -/
theorem exists_of_getLast?_words (h : (words t).getLast? = some word) :
    ∃ front run white, symbols t = front ++ run ++ white ∧ word = ofSymbols run ∧ run ≠ [] ∧
      (∀ y ∈ run, isWhite y = false) ∧ ∀ y ∈ white, isWhite y = true := by
  obtain ⟨front, run, white, hcut, hfront, hrun, hwhite, hnone⟩ := exists_eq_append_run (symbols t)
  have hwords : words t = (pieces (symbols t)).map ofSymbols := rfl
  rw [hwords, List.getLast?_map, hcut] at h
  by_cases hne : run = []
  · rw [hne, hnone hne, List.append_nil, List.nil_append, pieces_of_forall_white hwhite] at h
    exact absurd h (by simp)
  · rw [getLast?_pieces hfront hrun hne hwhite, Option.map_some, Option.some_inj] at h
    exact ⟨front, run, white, hcut, h.symm, hne, hrun, hwhite⟩

theorem words_ne_nil_of_endsWhite (hne : t ≠ []) (h : endsWhite t = false) : words t ≠ [] := by
  obtain ⟨front, run, white, hcut, hfront, hrun, hwhite, hnone⟩ := exists_eq_append_run (symbols t)
  have hrun' : run ≠ [] := by
    intro hnil
    rw [hnil, hnone hnil, List.append_nil, List.nil_append] at hcut
    cases hlast : white.getLast? with
    | none =>
      rw [List.getLast?_eq_none_iff.1 hlast] at hcut
      exact hne (by rw [← ofSymbols_symbols t, hcut]; rfl)
    | some y =>
      rw [endsWhite, hcut, hlast, Option.any_some, hwhite y (List.mem_of_getLast? hlast)] at h
      exact Bool.noConfusion h
  intro hwords
  have hlast := getLast?_pieces hfront hrun hrun' hwhite
  have hmap : (pieces (symbols t)).map ofSymbols = [] := hwords
  rw [← hcut, List.map_eq_nil_iff.1 hmap] at hlast
  exact absurd hlast (by simp)

/-- Without white space after it, the last word is the end of the text. -/
theorem suffix_of_getLast?_words (h : (words t).getLast? = some word)
    (hopen : endsWhite t = false) : word <:+ t := by
  obtain ⟨front, run, white, hcut, rfl, -, -, hwhite⟩ := exists_of_getLast?_words h
  have hnil : white = [] := by
    rcases List.eq_nil_or_concat' white with hnil | ⟨others, y, rfl⟩
    · exact hnil
    · rw [endsWhite, hcut, ← List.append_assoc, List.getLast?_concat, Option.any_some,
        hwhite y (by simp)] at hopen
      exact Bool.noConfusion hopen
  rw [hnil, List.append_nil] at hcut
  refine ⟨ofSymbols front, ?_⟩
  rw [← ofSymbols_append, ← hcut, ofSymbols_symbols]

/-- With white space after it, the last word of a text of characters is not the end of the text. -/
theorem not_suffix_of_getLast?_words {cs : List Char}
    (h : (words (ofChars cs)).getLast? = some word) (hwhite : endsWhite (ofChars cs) = true) :
    ¬ word <:+ ofChars cs := by
  obtain ⟨front, run, white, hcut, rfl, hne, hrun, hspace⟩ := exists_of_getLast?_words h
  have hchar (x : Symbol) (hx : x ∈ front ++ run ++ white) : ∃ c, x = .char c := by
    rw [← hcut, symbols_ofChars] at hx
    obtain ⟨c, -, rfl⟩ := List.mem_map.1 hx
    exact ⟨c, rfl⟩
  obtain ⟨letters, y, rfl⟩ := (List.eq_nil_or_concat' run).resolve_left hne
  have hy : isWhite y = false := hrun y (by simp)
  rcases List.eq_nil_or_concat' white with rfl | ⟨blanks, x, rfl⟩
  · rw [endsWhite, hcut, List.append_nil, ← List.append_assoc, List.getLast?_concat,
      Option.any_some, hy] at hwhite
    exact Bool.noConfusion hwhite
  · have hx : isWhite x = true := hspace x (by simp)
    obtain ⟨c, rfl⟩ := hchar x (by simp)
    obtain ⟨d, rfl⟩ := hchar y (by simp)
    intro hsuffix
    have hletter := (encode_suffix_ofSymbols letters (.char d)).trans hsuffix
    have hblank := encode_suffix_ofSymbols (front ++ (letters ++ [.char d]) ++ blanks) (.char c)
    rw [List.append_assoc, ← hcut, ofSymbols_symbols] at hblank
    -- the two characters end the same text, so that they are one
    have hsame : c = d := by
      rcases List.suffix_or_suffix_of_suffix hblank hletter with hends | hends
      · exact Symbol.eq_of_encode_suffix hends
      · exact (Symbol.eq_of_encode_suffix hends).symm
    rw [hsame, hy] at hx
    exact Bool.noConfusion hx

end LastWord

end Text

end LineScript
