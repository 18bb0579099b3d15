import LineScript.Text.Symbol
import LineScript.Proofs.Text.Trim

/-! Symbols and bytes. A character stands at the front of a text exactly where its encoding does,
reading a text as symbols loses nothing, and the reading can be cut at every ASCII byte. -/

namespace LineScript

namespace Symbol

theorem toNat_char_lt (c : Char) : c.val.toNat < 0x110000 := by
  have h := c.valid
  unfold UInt32.isValidChar Nat.isValidChar at h
  omega

/-- The payload of an encoding can be read back, whatever follows it. -/
theorem candidate_encode (c : Char) (rest : Text) :
    candidate (String.utf8EncodeChar c ++ rest) = c := by
  have hlt := toNat_char_lt c
  have hchar : Char.ofNat c.val.toNat = c := Char.ofNat_toNat c
  unfold candidate String.utf8EncodeChar
  generalize c.val.toNat = v at hlt hchar ⊢
  rw [← hchar]
  dsimp only
  congr 1
  -- one case for each length of an encoding, from one byte to four
  split
  · simp only [List.cons_append, List.getD_cons_zero, UInt8.toNat_ofNat', Nat.reducePow]
    split <;> omega
  · split
    · simp only [List.cons_append, List.getD_cons_zero, List.getD_cons_succ, UInt8.toNat_ofNat',
        Nat.reducePow]
      repeat' split
      all_goals omega
    · split <;>
        simp only [List.cons_append, List.getD_cons_zero, List.getD_cons_succ, UInt8.toNat_ofNat',
          Nat.reducePow] <;>
        repeat' split
      all_goals omega

theorem encode_injective {c d : Char} (h : String.utf8EncodeChar c = String.utf8EncodeChar d) :
    c = d := by
  have hback := candidate_encode c []
  rwa [h, candidate_encode, eq_comm] at hback

theorem encode_of_lt {c : Char} (h : c.val.toNat < 0x80) :
    String.utf8EncodeChar c = [UInt8.ofNat c.val.toNat] := by
  unfold String.utf8EncodeChar
  exact if_pos (by omega)

theorem encode_ofNat {b : UInt8} (h : b.toNat < 0x80) :
    String.utf8EncodeChar (Char.ofNat b.toNat) = [b] := by
  have hval : (Char.ofNat b.toNat).val.toNat = b.toNat := by
    have hvalid : b.toNat.isValidChar := Or.inl (by omega)
    rw [Char.ofNat, dif_pos hvalid]
    rfl
  rw [encode_of_lt (by omega), hval, UInt8.ofNat_toNat]

theorem ge_of_mem_encode {c : Char} (h : 0x80 ≤ c.val.toNat) {b : UInt8}
    (hb : b ∈ String.utf8EncodeChar c) : 0x80 ≤ b.toNat := by
  have hlt := toNat_char_lt c
  unfold String.utf8EncodeChar at hb
  generalize c.val.toNat = v at h hlt hb
  dsimp only at hb
  rw [if_neg (by omega)] at hb
  repeat' split at hb
  all_goals
    simp only [List.mem_cons, List.not_mem_nil, or_false] at hb
    rcases hb with rfl | rfl | rfl | rfl <;> rw [UInt8.toNat_ofNat'] <;> omega

/-- Bytes of an encoding after the first are not ASCII. -/
theorem ge_of_mem_tail_encode {c : Char} {b : UInt8} (hb : b ∈ (String.utf8EncodeChar c).tail) :
    0x80 ≤ b.toNat := by
  by_cases h : c.val.toNat < 0x80
  · rw [encode_of_lt h] at hb
    exact absurd hb List.not_mem_nil
  · exact ge_of_mem_encode (by omega) (List.mem_of_mem_tail hb)

theorem encode_ne_nil (x : Symbol) : x.encode ≠ [] := by
  cases x with
  | char c => exact String.utf8EncodeChar_ne_nil
  | stray b => exact List.cons_ne_nil b []

theorem front_eq_or (b : UInt8) (rest : Text) :
    (∃ c, front b rest = .char c ∧ String.utf8EncodeChar c <+: b :: rest) ∨
      front b rest = .stray b := by
  unfold front
  by_cases h : (String.utf8EncodeChar (candidate (b :: rest))).isPrefixOf (b :: rest) = true
  · exact Or.inl ⟨_, if_pos h, List.isPrefixOf_iff_prefix.1 h⟩
  · exact Or.inr (if_neg h)

theorem front_eq_char {b : UInt8} {rest : Text} {c : Char}
    (h : String.utf8EncodeChar c <+: b :: rest) : front b rest = .char c := by
  obtain ⟨more, hmore⟩ := h
  have hcandidate : candidate (b :: rest) = c := by rw [← hmore, candidate_encode]
  unfold front
  rw [hcandidate]
  exact if_pos (List.isPrefixOf_iff_prefix.2 ⟨more, hmore⟩)

theorem front_of_lt {b : UInt8} (h : b.toNat < 0x80) (rest : Text) :
    front b rest = .char (Char.ofNat b.toNat) := by
  apply front_eq_char
  rw [encode_ofNat h]
  exact ⟨rest, rfl⟩

theorem encode_front_isPrefix (b : UInt8) (rest : Text) : (front b rest).encode <+: b :: rest := by
  rcases front_eq_or b rest with ⟨c, hfront, hfits⟩ | hfront
  · rw [hfront]
    exact hfits
  · rw [hfront]
    exact ⟨rest, rfl⟩

/-- What stands at the front of a text does not change with what follows an ASCII byte. -/
theorem front_append {b : UInt8} (h : b.toNat < 0x80) (a : UInt8) (t rest : Text) :
    front a (t ++ b :: rest) = front a t := by
  rcases front_eq_or a t with ⟨c, hfront, hfits⟩ | hfront
  · rw [hfront]
    exact front_eq_char (hfits.trans ⟨b :: rest, rfl⟩)
  · rcases front_eq_or a (t ++ b :: rest) with ⟨c, _, more, hmore⟩ | hfront'
    · have hnot : ¬ String.utf8EncodeChar c <+: a :: t := by
        intro hfits
        rw [front_eq_char hfits] at hfront
        exact Symbol.noConfusion hfront
      -- a longer encoding would have the ASCII byte among its later bytes
      rw [← List.cons_append] at hmore
      rcases List.append_eq_append_iff.1 hmore with ⟨others, hothers, _⟩ | ⟨others, hencode, hrest⟩
      · exact absurd ⟨others, hothers.symm⟩ hnot
      · cases others with
        | nil =>
          rw [List.append_nil] at hencode
          exact absurd (hencode ▸ List.prefix_refl _) hnot
        | cons d others =>
          obtain ⟨rfl, _⟩ := List.cons.inj hrest
          have hge : 0x80 ≤ b.toNat := ge_of_mem_tail_encode (c := c) (by simp [hencode])
          omega
    · rw [hfront, hfront']

end Symbol

namespace Text

theorem symbols_nil : symbols [] = [] := rfl

theorem symbolsFrom_eq (skip : Nat) (seen : List Symbol) (t : Text) :
    symbolsFrom skip seen t = seen.reverse ++ symbols (t.drop skip) := by
  induction t generalizing skip seen with
  | nil => simp [symbolsFrom, symbols]
  | cons b rest ih =>
    cases skip with
    | succ skip => rw [symbolsFrom, ih, List.drop_succ_cons]
    | zero =>
      rw [List.drop_zero, symbols, symbolsFrom, symbolsFrom, ih, ih, List.reverse_cons,
        List.append_assoc]
      rfl

theorem symbols_cons (b : UInt8) (rest : Text) :
    symbols (b :: rest) = Symbol.front b rest ::
      symbols (rest.drop ((Symbol.front b rest).encode.length - 1)) := by
  rw [symbols, symbolsFrom, symbolsFrom_eq]
  rfl

theorem encode_front_append (b : UInt8) (rest : Text) :
    (Symbol.front b rest).encode ++ rest.drop ((Symbol.front b rest).encode.length - 1) =
      b :: rest := by
  obtain ⟨more, hmore⟩ := Symbol.encode_front_isPrefix b rest
  obtain ⟨a, others, hencode⟩ :=
    List.exists_cons_of_ne_nil (Symbol.encode_ne_nil (Symbol.front b rest))
  rw [hencode] at hmore ⊢
  obtain ⟨rfl, rfl⟩ := List.cons.inj hmore
  simp

/-- Induction along the symbols of a text. -/
theorem symbols_induction {motive : Text → Prop} (nil : motive [])
    (cons : ∀ b rest, motive (rest.drop ((Symbol.front b rest).encode.length - 1)) →
      motive (b :: rest)) (t : Text) : motive t := by
  induction hn : t.length using Nat.strongRecOn generalizing t with
  | ind n ih =>
    cases t with
    | nil => exact nil
    | cons b rest =>
      apply cons
      refine ih _ ?_ _ rfl
      rw [← hn, List.length_drop, List.length_cons]
      omega

theorem ofSymbols_append (xs ys : List Symbol) :
    ofSymbols (xs ++ ys) = ofSymbols xs ++ ofSymbols ys := List.flatMap_append

/-- Reading symbols loses nothing. -/
theorem ofSymbols_symbols (t : Text) : ofSymbols (symbols t) = t := by
  induction t using symbols_induction with
  | nil => rfl
  | cons b rest ih =>
    rw [symbols_cons, ofSymbols, List.flatMap_cons, ← ofSymbols, ih, encode_front_append]

/-- An ASCII byte is a symbol of its own and parts the symbols before it from those after it. -/
theorem symbols_append_cons {b : UInt8} (h : b.toNat < 0x80) (t rest : Text) :
    symbols (t ++ b :: rest) = symbols t ++ .char (Char.ofNat b.toNat) :: symbols rest := by
  induction t using symbols_induction with
  | nil =>
    rw [List.nil_append, symbols_cons, Symbol.front_of_lt h, Symbol.encode, Symbol.encode_ofNat h]
    rfl
  | cons a t ih =>
    have hle := (Symbol.encode_front_isPrefix a t).length_le
    rw [List.length_cons] at hle
    rw [List.cons_append, symbols_cons, symbols_cons, Symbol.front_append h,
      List.drop_append_of_le_length (by omega), ih, List.cons_append]

theorem symbols_cons_of_lt {b : UInt8} (h : b.toNat < 0x80) (rest : Text) :
    symbols (b :: rest) = .char (Char.ofNat b.toNat) :: symbols rest :=
  symbols_append_cons h [] rest

theorem symbols_of_forall_lt {t : Text} (h : ∀ b ∈ t, b.toNat < 0x80) :
    symbols t = t.map fun b => .char (Char.ofNat b.toNat) := by
  induction t with
  | nil => rfl
  | cons b t ih =>
    obtain ⟨hb, ht⟩ := List.forall_mem_cons.1 h
    rw [symbols_cons_of_lt hb, ih ht, List.map_cons]

theorem symbols_append_of_forall_lt {t : Text} (h : ∀ b ∈ t, b.toNat < 0x80) (rest : Text) :
    symbols (t ++ rest) = symbols t ++ symbols rest := by
  induction t with
  | nil => rfl
  | cons b t ih =>
    obtain ⟨hb, ht⟩ := List.forall_mem_cons.1 h
    rw [List.cons_append, symbols_cons_of_lt hb, symbols_cons_of_lt hb, ih ht, List.cons_append]

/-- An offset at which the symbols of a text are parted. -/
def IsBoundary (t : Text) (o : Nat) : Prop :=
  symbols t = symbols (t.take o) ++ symbols (t.drop o)

theorem isBoundary_of_le {t : Text} {o : Nat} (h : t.length ≤ o) : t.IsBoundary o := by
  rw [IsBoundary, List.take_of_length_le h, List.drop_of_length_le h, symbols_nil, List.append_nil]

theorem isBoundary_zero (t : Text) : t.IsBoundary 0 := by
  rw [IsBoundary, List.take_zero, List.drop_zero, symbols_nil, List.nil_append]

theorem isBoundary_of_forall_lt {t : Text} (h : ∀ b ∈ t, b.toNat < 0x80) (rest : Text) :
    (t ++ rest).IsBoundary t.length := by
  rw [IsBoundary, List.take_left' rfl, List.drop_left' rfl, symbols_append_of_forall_lt h]

namespace IsBoundary

variable {t : Text} {o o' : Nat}

theorem symbols_take_isPrefix (h : t.IsBoundary o) : symbols (t.take o) <+: symbols t :=
  ⟨_, h.symm⟩

theorem symbolCount_take_le (h : t.IsBoundary o) : symbolCount (t.take o) ≤ symbolCount t :=
  h.symbols_take_isPrefix.length_le

/-- More symbols stand before a boundary further on. -/
theorem symbolCount_take_lt (h : t.IsBoundary o) (h' : t.IsBoundary o') (hlt : o < o')
    (hinside : o' ≤ t.length) : symbolCount (t.take o) < symbolCount (t.take o') := by
  by_contra hnot
  obtain ⟨more, hmore⟩ := List.prefix_of_prefix_length_le h'.symbols_take_isPrefix
    h.symbols_take_isPrefix (Nat.le_of_not_lt hnot)
  -- the bytes of the further symbols would be among those of the nearer ones
  have hbytes : t.take o' ++ ofSymbols more = t.take o := by
    rw [← ofSymbols_symbols (t.take o), ← hmore, ofSymbols_append, ofSymbols_symbols]
  have hlength := congrArg List.length hbytes
  rw [List.length_append, List.length_take, List.length_take] at hlength
  omega

end IsBoundary

section Byte
variable {before : Text} {b : UInt8} (h : b.toNat < 0x80) (after : Text)
include h

theorem isBoundary_before : (before ++ b :: after).IsBoundary before.length := by
  rw [IsBoundary, List.take_left' rfl, List.drop_left' rfl, symbols_append_cons h,
    symbols_cons_of_lt h]

theorem isBoundary_after : (before ++ b :: after).IsBoundary (before.length + 1) := by
  have hcut : before ++ b :: after = (before ++ [b]) ++ after := by simp
  have hlength : (before ++ [b]).length = before.length + 1 := List.length_append
  rw [IsBoundary, symbols_append_cons h, hcut, List.take_left' hlength, List.drop_left' hlength,
    symbols_append_cons h, symbols_nil, List.append_assoc, List.singleton_append]

end Byte

theorem mem_symbols_of_braced {t source : Text} {x : Symbol} (h : x ∈ symbols source)
    (hbraced : openBrace :: source ++ [closeBrace] <:+: t) : x ∈ symbols t := by
  obtain ⟨before, after, rfl⟩ := hbraced
  have hcut : before ++ (openBrace :: source ++ [closeBrace]) ++ after =
      before ++ openBrace :: (source ++ closeBrace :: after) := by simp
  rw [hcut, symbols_append_cons (by decide), symbols_append_cons (by decide)]
  simp [h]

theorem ge_of_stray_mem {t : Text} {b : UInt8} (h : .stray b ∈ symbols t) : 0x80 ≤ b.toNat := by
  induction t using symbols_induction with
  | nil => exact absurd h List.not_mem_nil
  | cons a rest ih =>
    rw [symbols_cons, List.mem_cons] at h
    rcases h with hfront | h
    · by_contra hlt
      rcases Symbol.front_eq_or a rest with ⟨c, hchar, _⟩ | hstray
      · rw [hchar] at hfront
        exact Symbol.noConfusion hfront
      · obtain rfl := Symbol.stray.inj (hfront.trans hstray)
        rw [Symbol.front_of_lt (by omega)] at hfront
        exact Symbol.noConfusion hfront
    · exact ih h

end Text

end LineScript
