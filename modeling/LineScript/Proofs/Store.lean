import LineScript.Store
import Mathlib.Data.List.Nodup

/-! A store as a finite map. It is determined by its entries in any order, each of its names has one
entry, and a store that is made of pairs with different names holds just these pairs. -/

namespace LineScript.Store

theorem eq_of_entries_eq {s t : Store} (h : s.entries = t.entries) : s = t := by
  cases s
  cases t
  cases h
  rfl

theorem eq_of_perm {s t : Store} (h : s.entries.Perm t.entries) : s = t := by
  refine eq_of_entries_eq (h.eq_of_pairwise (fun a b _ _ hab hba => ?_) s.ordered t.ordered)
  exact absurd (List.lt_trans hab hba) (List.lt_irrefl _)

theorem nodup_names (s : Store) : s.names.Nodup := by
  rw [names, List.Nodup, List.pairwise_map]
  refine s.ordered.imp fun {a b} hlt heq => ?_
  rw [heq] at hlt
  exact List.lt_irrefl _ hlt

theorem get?_eq_some_iff {s : Store} {name : Text} {v : Value} :
    s.get? name = some v ↔ (name, v) ∈ s.entries := by
  have hmem_of_get? {v : Value} (h : s.get? name = some v) : (name, v) ∈ s.entries := by
    obtain ⟨before, rest, hentries, -⟩ := List.lookup_eq_some_iff.1 h
    simp [hentries]
  refine ⟨hmem_of_get?, fun hmem => ?_⟩
  cases hget : s.get? name with
  | none =>
    have hother := List.lookup_eq_none_iff.1 hget (name, v) hmem
    exact absurd hother (by simp)
  | some w =>
    have hsame := List.inj_on_of_nodup_map s.nodup_names hmem (hmem_of_get? hget) rfl
    rw [(Prod.mk.inj hsame).2]

theorem mem_names_iff {s : Store} {name : Text} : name ∈ s.names ↔ ∃ v, s.get? name = some v := by
  constructor
  · intro h
    obtain ⟨⟨key, v⟩, hentry, rfl⟩ := List.mem_map.1 h
    exact ⟨v, get?_eq_some_iff.2 hentry⟩
  · rintro ⟨v, h⟩
    exact List.mem_map_of_mem (get?_eq_some_iff.1 h)

theorem insertEntry_of_lt {name : Text} {entries : List (Text × Value)}
    (h : ∀ e ∈ entries, e.1 < name) (v : Value) :
    insertEntry name v entries = entries ++ [(name, v)] := by
  induction entries with
  | nil => rfl
  | cons e rest ih =>
    obtain ⟨hfirst, hrest⟩ := List.forall_mem_cons.1 h
    have hne : e.1 ≠ name := by
      intro heq
      exact List.lt_irrefl _ (heq ▸ hfirst)
    have hnot : ¬ name < e.1 := fun hlt => List.lt_irrefl _ (List.lt_trans hfirst hlt)
    rw [insertEntry, if_neg hne, if_neg hnot, ih hrest, List.cons_append]

theorem entries_setAll (s : Store) {pairs : List (Text × Value)}
    (h : Ordered (s.entries ++ pairs)) : (s.setAll pairs).entries = s.entries ++ pairs := by
  induction pairs generalizing s with
  | nil => exact (List.append_nil _).symm
  | cons e rest ih =>
    obtain ⟨name, v⟩ := e
    have hlast : (s.set name v).entries = s.entries ++ [(name, v)] := by
      apply insertEntry_of_lt
      intro e he
      exact (List.pairwise_append.1 h).2.2 e he (name, v) List.mem_cons_self
    have hsplit : s.entries ++ (name, v) :: rest = (s.set name v).entries ++ rest := by
      rw [hlast, List.append_assoc]
      rfl
    rw [hsplit] at h ⊢
    exact ih (s.set name v) h

theorem setAll_entries (s : Store) : empty.setAll s.entries = s :=
  eq_of_entries_eq (entries_setAll empty s.ordered)

theorem perm_insertEntry {name : Text} {entries : List (Text × Value)}
    (h : name ∉ entries.map Prod.fst) (v : Value) :
    (insertEntry name v entries).Perm ((name, v) :: entries) := by
  induction entries with
  | nil => exact .refl _
  | cons e rest ih =>
    obtain ⟨hne, hrest⟩ := List.ne_and_not_mem_of_not_mem_cons h
    rw [insertEntry, if_neg (Ne.symm hne)]
    split
    · exact .refl _
    · exact ((ih hrest).cons e).trans (.swap _ _ rest)

theorem perm_setAll (s : Store) {pairs : List (Text × Value)}
    (h : ((pairs ++ s.entries).map Prod.fst).Nodup) :
    (s.setAll pairs).entries.Perm (pairs ++ s.entries) := by
  induction pairs generalizing s with
  | nil => exact .refl _
  | cons p rest ih =>
    obtain ⟨name, v⟩ := p
    have hnew : name ∉ s.names := by
      intro hmem
      rw [List.cons_append, List.map_cons, List.nodup_cons, List.map_append] at h
      exact h.1 (List.mem_append_right _ hmem)
    have hset : (rest ++ (s.set name v).entries).Perm ((name, v) :: rest ++ s.entries) :=
      ((perm_insertEntry hnew v).append_left rest).trans List.perm_middle
    exact (ih (s.set name v) ((hset.map Prod.fst).nodup_iff.2 h)).trans hset

/-- The entries of a store made of pairs with different names. -/
theorem perm_ofList {pairs : List (Text × Value)} (h : (pairs.map Prod.fst).Nodup) :
    (ofList pairs).entries.Perm pairs := by
  have hall : ((pairs ++ empty.entries).map Prod.fst).Nodup := by
    rwa [show empty.entries = [] from rfl, List.append_nil]
  exact (perm_setAll empty hall).trans (.of_eq (List.append_nil pairs))

/-- The entries of a store lead back to it in any order. -/
theorem ofList_of_perm {s : Store} {order : List (Text × Value)} (h : order.Perm s.entries) :
    ofList order = s :=
  eq_of_perm ((perm_ofList ((h.map Prod.fst).nodup_iff.2 s.nodup_names)).trans h)

end LineScript.Store
