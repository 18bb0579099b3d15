import LineScript.Proofs.Store
import LineScript.Stores

/-! Several stores as finite maps of their own. After any actions, a store binds a name to the value
of the last action that gave it one there. What a copy brought counts as done to the copy, and
clearing counts for every name. No action on one store shows in another. -/

namespace LineScript

/-- The store is the finite map in which a name has the value to which `bound` relates it. -/
structure Store.Represents (s : Store) (bound : Text → Value → Prop) : Prop where
  get : ∀ name v, s.get? name = some v ↔ bound name v
  unbound : ∀ name, s.get? name = none ↔ ∀ v, ¬ bound name v
  sorted : s.names.Pairwise (· < ·)
  mem_names : ∀ name, name ∈ s.names ↔ ∃ v, bound name v
  size_eq : s.size = s.names.length

/-- What a store returns for each name says all about it. -/
theorem Store.represents_of_get? {s : Store} {bound : Text → Value → Prop}
    (h : ∀ name v, s.get? name = some v ↔ bound name v) : s.Represents bound where
  get := h
  unbound name := by
    rw [Option.eq_none_iff_forall_ne_some]
    exact forall_congr' fun v => not_congr (h name v)
  sorted := List.pairwise_map.2 s.ordered
  mem_names name := by
    rw [mem_names_iff]
    exact exists_congr (h name)
  size_eq := (List.length_map _).symm

namespace StoreAction

/-- The store in which something was before the action if it is in the store `on` after it. -/
def origin (on : Text) : StoreAction → Text
  | .copy source target => if target = on then source else on
  | .set _ _ _ | .clear _ => on

theorem origin_of_ne {a : StoreAction} {on : Text} (h : a.target ≠ on) : a.origin on = on := by
  cases a with
  | set => rfl
  | clear => rfl
  | copy source target => exact if_neg h

/-- The action settles what `name` is in the store `on`: it binds the name or clears the store. -/
inductive Settles (on name : Text) : StoreAction → Prop
  | set (v : Value) : Settles on name (.set on name v)
  | clear : Settles on name (.clear on)

end StoreAction

namespace Stores

/-- The store in which something was before the actions if it is in the store `on` after them: the
copies are followed back to their sources. -/
def origin (actions : List StoreAction) (on : Text) : Text :=
  actions.foldr (fun a on => a.origin on) on

/-- None of the actions that reach the store `on` settles what `name` is in it. -/
def Unsettled (actions : List StoreAction) (on name : Text) : Prop :=
  ∀ a later, a :: later <:+ actions → ¬ a.Settles (origin later on) name

/-- The last action that reaches the store `on` and settles what `name` is in it binds it to `v`. -/
def LastSet (actions : List StoreAction) (on name : Text) (v : Value) : Prop :=
  ∃ earlier later, actions = earlier ++ .set (origin later on) name v :: later ∧
    Unsettled later on name

section Step
variable {a : StoreAction} {on name : Text}

theorem store_apply_of_ne (stores : Stores) (h : a.target ≠ on) :
    (stores.apply a).store on = stores.store on := by
  cases a <;> exact store_put_of_ne stores h.symm _

theorem get?_apply_of_settles (stores : Stores) (h : a.Settles on name) (v : Value) :
    ((stores.apply a).store on).get? name = some v ↔ a = .set on name v := by
  cases h with
  | set w =>
    rw [apply, store_put_self, Store.get?_set_self, Option.some_inj]
    simp
  | clear =>
    rw [apply, store_put_self, Store.get?_empty]
    simp

theorem get?_apply_of_not_settles (stores : Stores) (h : ¬ a.Settles on name) :
    ((stores.apply a).store on).get? name = (stores.store (a.origin on)).get? name := by
  rcases eq_or_ne a.target on with htarget | hother
  · cases a with
    | set target key w =>
      obtain rfl : target = on := htarget
      have hne : name ≠ key := by
        rintro rfl
        exact h (.set w)
      rw [apply, store_put_self, Store.get?_set_of_ne _ hne]
      rfl
    | clear target =>
      obtain rfl : target = on := htarget
      exact absurd .clear h
    | copy source target =>
      obtain rfl : target = on := htarget
      rw [apply, store_put_self, StoreAction.origin, if_pos rfl]
  · rw [store_apply_of_ne stores hother, StoreAction.origin_of_ne hother]

end Step

section Run
variable {a : StoreAction} {actions later : List StoreAction} {on name : Text} {v : Value}

theorem store_run_of_ne (stores : Stores) (h : ∀ a ∈ actions, a.target ≠ on) :
    (stores.run actions).store on = stores.store on := by
  induction actions generalizing stores with
  | nil => rfl
  | cons a later ih =>
    obtain ⟨ha, hlater⟩ := List.forall_mem_cons.1 h
    exact (ih (stores.apply a) hlater).trans (store_apply_of_ne stores ha)

theorem unsettled_nil : Unsettled [] on name := by
  intro a later h
  exact absurd (List.suffix_nil.1 h) (List.cons_ne_nil _ _)

theorem unsettled_cons :
    Unsettled (a :: later) on name ↔
      ¬ a.Settles (origin later on) name ∧ Unsettled later on name := by
  constructor
  · intro h
    exact ⟨h a later List.suffix_rfl, fun b rest hb => h b rest (hb.trans (List.suffix_cons a _))⟩
  · rintro ⟨ha, hlater⟩ b rest hb
    rcases List.suffix_cons_iff.1 hb with heq | hb
    · obtain ⟨rfl, rfl⟩ := List.cons.inj heq
      exact ha
    · exact hlater b rest hb

theorem not_lastSet_nil : ¬ LastSet [] on name v := by
  rintro ⟨earlier, later, h, -⟩
  exact absurd h.symm (by simp)

theorem lastSet_cons :
    LastSet (a :: later) on name v ↔
      LastSet later on name v ∨ a = .set (origin later on) name v ∧ Unsettled later on name := by
  constructor
  · rintro ⟨earlier, rest, h, hrest⟩
    cases earlier with
    | nil =>
      obtain ⟨rfl, rfl⟩ := List.cons.inj h
      exact Or.inr ⟨rfl, hrest⟩
    | cons b earlier =>
      obtain ⟨-, hlater⟩ := List.cons.inj h
      exact Or.inl ⟨earlier, rest, hlater, hrest⟩
  · rintro (⟨earlier, rest, rfl, hrest⟩ | ⟨rfl, hlater⟩)
    · exact ⟨a :: earlier, rest, rfl, hrest⟩
    · exact ⟨[], later, rfl, hlater⟩

/-- A name is bound to what the last action that settles it gave it, or, where no action does, to
what it was bound to before in the store that the copies lead back to. -/
theorem get?_run_eq_some_iff (stores : Stores) :
    ((stores.run actions).store on).get? name = some v ↔ LastSet actions on name v ∨
      Unsettled actions on name ∧ (stores.store (origin actions on)).get? name = some v := by
  induction actions generalizing stores with
  | nil => simp [run, origin, unsettled_nil, not_lastSet_nil]
  | cons a later ih =>
    have hrun : stores.run (a :: later) = (stores.apply a).run later := rfl
    have horigin : origin (a :: later) on = a.origin (origin later on) := rfl
    rw [hrun, ih, lastSet_cons, unsettled_cons, horigin]
    by_cases hsettles : a.Settles (origin later on) name
    · rw [get?_apply_of_settles stores hsettles]
      tauto
    · have hset : a ≠ .set (origin later on) name v := by
        rintro rfl
        exact hsettles (.set v)
      rw [get?_apply_of_not_settles stores hsettles]
      tauto

theorem get?_run_empty (actions : List StoreAction) (on name : Text) (v : Value) :
    ((empty.run actions).store on).get? name = some v ↔ LastSet actions on name v := by
  have hnone : ((empty.store (origin actions on)).get? name) = none := Store.get?_empty name
  rw [get?_run_eq_some_iff, hnone]
  simp

end Run

/-- A copy is also what binding the entries of its source one by one makes, in whatever order. -/
theorem store_run_copy (actions : List StoreAction) (on target : Text)
    {order : List (Text × Value)} (h : order.Perm ((empty.run actions).store on).entries) :
    (empty.run (actions ++ [.copy on target])).store target = Store.ofList order := by
  have hrun : empty.run (actions ++ [.copy on target]) =
      (empty.run actions).apply (.copy on target) := List.foldl_append
  rw [hrun, apply, store_put_self, Store.ofList_of_perm h]

/-- After any actions, each store is the finite map of the values last set in it. Further actions
leave it as it is if they change other stores, be it copies of this one or what it was copied
from. -/
theorem run_represents (actions : List StoreAction) (on : Text) :
    ((empty.run actions).store on).Represents (LastSet actions on) ∧
      (∀ target order, order.Perm ((empty.run actions).store on).entries →
        (empty.run (actions ++ [.copy on target])).store target = Store.ofList order) ∧
      ∀ more, (∀ a ∈ more, a.target ≠ on) →
        (empty.run (actions ++ more)).store on = (empty.run actions).store on := by
  refine ⟨Store.represents_of_get? (get?_run_empty actions on),
    fun target order h => store_run_copy actions on target h, fun more h => ?_⟩
  have hrun : empty.run (actions ++ more) = (empty.run actions).run more := List.foldl_append
  rw [hrun, store_run_of_ne _ h]

/-- A copy keeps the value from before, however its source goes on. -/
theorem run_represents_copied :
    let actions : List StoreAction :=
      [.set "a" "x" (.int 1), .copy "a" "b", .set "a" "x" (.int 2), .set "b" "y" .empty]
    let more : List StoreAction := [.clear "a", .copy "b" "c", .set "c" "x" (.bool true)]
    (∀ a ∈ more, a.target ≠ "b") ∧
      (empty.run (actions ++ more)).store "b" = (empty.run actions).store "b" ∧
      ((empty.run (actions ++ more)).store "b").names = ["x", "y"] ∧
      LastSet actions "b" "x" (.int 1) ∧ LastSet actions "b" "y" .empty := by
  intro actions more
  have hother : ∀ a ∈ more, a.target ≠ "b" := by decide
  obtain ⟨hmap, -, hkeeps⟩ := run_represents actions "b"
  refine ⟨hother, hkeeps more hother, by decide, ?_, ?_⟩
  · exact (hmap.get "x" (.int 1)).1 (by decide)
  · exact (hmap.get "y" .empty).1 (by decide)

end Stores

end LineScript
