import LineScript.Value

/-!
The variables of a script: a finite map from names to values, kept in the byte order of the names.
Two stores that bind the same names to the same values are equal.
-/
namespace LineScript

def Ordered (entries : List (Text × Value)) : Prop := entries.Pairwise fun a b => a.1 < b.1

structure Store where
  entries : List (Text × Value)
  ordered : Ordered entries := by exact List.Pairwise.nil
  deriving DecidableEq

namespace Store

def insertEntry (name : Text) (v : Value) : List (Text × Value) → List (Text × Value)
  | [] => [(name, v)]
  | e :: rest =>
    if e.1 = name then (name, v) :: rest
    else if name < e.1 then (name, v) :: e :: rest
    else e :: insertEntry name v rest

theorem mem_insertEntry {name : Text} {v : Value} {e : Text × Value}
    {entries : List (Text × Value)} (h : e ∈ insertEntry name v entries) :
    e = (name, v) ∨ e ∈ entries := by
  induction entries with
  | nil => exact Or.inl (List.mem_singleton.1 h)
  | cons d rest ih =>
    unfold insertEntry at h
    split at h
    · exact (List.mem_cons.1 h).imp id (List.mem_cons_of_mem d)
    · split at h
      · exact List.mem_cons.1 h
      · rcases List.mem_cons.1 h with rfl | h
        · exact Or.inr List.mem_cons_self
        · exact (ih h).imp id (List.mem_cons_of_mem d)

theorem Ordered.insertEntry {name : Text} {v : Value} {entries : List (Text × Value)}
    (h : Ordered entries) : Ordered (insertEntry name v entries) := by
  induction entries with
  | nil => exact List.pairwise_singleton _ _
  | cons d rest ih =>
    obtain ⟨first, others⟩ := List.pairwise_cons.1 h
    unfold Store.insertEntry
    split
    · rename_i same
      exact List.pairwise_cons.2 ⟨fun e he => same ▸ first e he, others⟩
    · rename_i other
      split
      · rename_i less
        refine List.pairwise_cons.2 ⟨fun e he => ?_, h⟩
        rcases List.mem_cons.1 he with rfl | he
        · exact less
        · exact List.lt_trans less (first e he)
      · rename_i notLess
        refine List.pairwise_cons.2 ⟨fun e he => ?_, ih others⟩
        rcases mem_insertEntry he with rfl | he
        · have greater : d.1 < name := by grind
          exact greater
        · exact first e he

def empty : Store := { entries := [] }

/-- A name bound to the empty value is bound. -/
def get? (s : Store) (name : Text) : Option Value := s.entries.lookup name

def set (s : Store) (name : Text) (v : Value) : Store :=
  { entries := insertEntry name v s.entries, ordered := Ordered.insertEntry s.ordered }

def setAll (s : Store) (pairs : List (Text × Value)) : Store :=
  pairs.foldl (fun s p => s.set p.1 p.2) s

def ofList (pairs : List (Text × Value)) : Store := empty.setAll pairs

theorem get?_empty (name : Text) : empty.get? name = none := rfl

theorem lookup_insertEntry_self (name : Text) (v : Value) (entries : List (Text × Value)) :
    (insertEntry name v entries).lookup name = some v := by
  induction entries with
  | nil => simp [insertEntry]
  | cons e rest ih =>
    obtain ⟨key, bound⟩ := e
    unfold insertEntry
    split
    · simp
    · rename_i other
      split
      · simp
      · rw [List.lookup_cons, beq_false_of_ne (Ne.symm other)]
        exact ih

theorem lookup_insertEntry_of_ne {name other : Text} (h : other ≠ name) (v : Value)
    (entries : List (Text × Value)) :
    (insertEntry name v entries).lookup other = entries.lookup other := by
  have head : (other == name) = false := beq_false_of_ne h
  induction entries with
  | nil => simp [insertEntry, List.lookup_cons, head]
  | cons e rest ih =>
    obtain ⟨key, bound⟩ := e
    unfold insertEntry
    split
    · rename_i same
      simp only [List.lookup_cons, show key = name from same, head]
    · split
      · simp only [List.lookup_cons, head]
      · simp only [List.lookup_cons, ih]

theorem get?_set_self (s : Store) (name : Text) (v : Value) : (s.set name v).get? name = some v :=
  lookup_insertEntry_self name v s.entries

theorem get?_set_of_ne (s : Store) {name other : Text} (h : other ≠ name) (v : Value) :
    (s.set name v).get? other = s.get? other :=
  lookup_insertEntry_of_ne h v s.entries

def names (s : Store) : List Text := s.entries.map (·.1)

def size (s : Store) : Nat := s.entries.length

end Store

end LineScript
