import LineScript.Command
import LineScript.Proofs.Store

/-! The globals of the settings on their way into an engine. They are a finite map, and a map has no
order of its own, so that every step is looked at for all orders in which it can go over them. The
conversion is the same for all: it ends in the same store, or it is refused for the least name whose
datum is no value. The engine binds the same in every order, but it reports the first name that it
cannot bind, and any such name is the first in some order. -/

namespace LineScript

/-- The error is about one of the names of a store, which cannot be bound. -/
def GlobalError.Concerns (e : GlobalError) (s : Store) : Prop :=
  e.name ∈ s.names ∧ IdentifierError.ofName? e.name = some e.error

namespace Engine

theorem new_eq_ofGlobals (globals : Store) (maxLine : Int) :
    new globals maxLine = ofGlobals globals.entries maxLine := by
  have herror : globalError? globals = firstGlobalError? globals.entries := List.findSome?_map
  have hstore : Store.ofList globals.entries = globals := Store.setAll_entries globals
  rw [new, ofGlobals, herror, hstore]

section Order
variable {s : Store} {order : List (Text × Value)} (visited : order.Perm s.entries) {maxLine : Int}
include visited

theorem mem_names_of_perm {name : Text} : name ∈ s.names ↔ ∃ v, (name, v) ∈ order := by
  simp [Store.names, visited.mem_iff]

theorem concerns_of_ofGlobals {e : GlobalError} (h : ofGlobals order maxLine = .error e) :
    e.Concerns s := by
  rw [ofGlobals] at h
  split at h
  · rename_i hfirst
    obtain rfl := Except.error.inj h
    obtain ⟨⟨name, v⟩, hmem, hname⟩ := List.exists_of_findSome?_eq_some hfirst
    obtain ⟨error, herror, rfl⟩ := Option.map_eq_some_iff.1 hname
    exact ⟨(mem_names_of_perm visited).2 ⟨v, hmem⟩, herror⟩
  · exact absurd h (by simp)

theorem not_concerns_of_ofGlobals {e : Engine} (h : ofGlobals order maxLine = .ok e)
    (err : GlobalError) : ¬ err.Concerns s := by
  rintro ⟨hname, herror⟩
  obtain ⟨v, hmem⟩ := (mem_names_of_perm visited).1 hname
  rw [ofGlobals] at h
  split at h
  · exact absurd h (by simp)
  · rename_i hnone
    have hpasses := List.findSome?_eq_none_iff.1 hnone (err.name, v) hmem
    rw [herror] at hpasses
    exact absurd hpasses (by simp)

theorem eq_of_ofGlobals {e : Engine} (h : ofGlobals order maxLine = .ok e) :
    e = { globals := s, lineLimit := Lines.limitOf maxLine, store := s } := by
  rw [ofGlobals, Store.ofList_of_perm visited] at h
  split at h
  · exact absurd h (by simp)
  · exact (Except.ok.inj h).symm

/-- An engine that binds all globals is the same in every order. -/
theorem ofGlobals_eq_ok_iff {e : Engine} : ofGlobals order maxLine = .ok e ↔
    (∀ err : GlobalError, ¬ err.Concerns s) ∧
      e = { globals := s, lineLimit := Lines.limitOf maxLine, store := s } := by
  constructor
  · exact fun h => ⟨not_concerns_of_ofGlobals visited h, eq_of_ofGlobals visited h⟩
  · rintro ⟨hnone, rfl⟩
    cases hresult : ofGlobals order maxLine with
    | error err => exact absurd (concerns_of_ofGlobals visited hresult) (hnone err)
    | ok e => rw [eq_of_ofGlobals visited hresult]

end Order

/-- With one name at most that cannot be bound, there is no choice left to the order. -/
theorem ofGlobals_eq_ofGlobals {s : Store} {order order' : List (Text × Value)}
    (visited : order.Perm s.entries) (visited' : order'.Perm s.entries)
    (h : ∀ e e' : GlobalError, e.Concerns s → e'.Concerns s → e = e') (maxLine : Int) :
    ofGlobals order maxLine = ofGlobals order' maxLine := by
  cases hresult : ofGlobals order maxLine with
  | ok e => exact ((ofGlobals_eq_ok_iff visited').2 ((ofGlobals_eq_ok_iff visited).1 hresult)).symm
  | error err =>
    have hconcerns := concerns_of_ofGlobals visited hresult
    cases hresult' : ofGlobals order' maxLine with
    | ok e => exact absurd hconcerns (((ofGlobals_eq_ok_iff visited').1 hresult').1 err)
    | error err' => rw [h err err' hconcerns (concerns_of_ofGlobals visited' hresult')]

/-- Every name that cannot be bound is the first in some order. -/
theorem exists_order_of_concerns {s : Store} {e : GlobalError} (h : e.Concerns s) (maxLine : Int) :
    ∃ order, order.Perm s.entries ∧ ofGlobals order maxLine = .error e := by
  obtain ⟨g, hmem, hname⟩ := List.mem_map.1 h.1
  refine ⟨g :: s.entries.erase g, (List.perm_cons_erase hmem).symm, ?_⟩
  have hfirst : firstGlobalError? (g :: s.entries.erase g) = some e := by
    rw [firstGlobalError?, List.findSome?_cons, hname, h.2]
    rfl
  rw [ofGlobals, hfirst]

end Engine

/-- The error is about a datum of the name, which is no value. -/
def SeedError.Concerns (e : SeedError) (globals : List (Text × Datum)) : Prop :=
  ∃ d, (e.name, d) ∈ globals ∧ d.toValue = .error e.error

/-- The error is about the least name whose datum is no value. -/
def SeedError.IsLeast (e : SeedError) (globals : List (Text × Datum)) : Prop :=
  e.Concerns globals ∧ ∀ other : SeedError, other.Concerns globals → e.name ≤ other.name

namespace Settings

/-- The globals whose data are values. -/
def converted (globals : List (Text × Datum)) : List (Text × Value) :=
  globals.filterMap fun g =>
    match g.2.toValue with
    | .ok v => some (g.1, v)
    | .error _ => none

section Globals
variable {globals : List (Text × Datum)}

theorem mem_converted {name : Text} {v : Value} :
    (name, v) ∈ converted globals ↔ ∃ d, (name, d) ∈ globals ∧ d.toValue = .ok v := by
  rw [converted, List.mem_filterMap]
  constructor
  · rintro ⟨⟨name', d⟩, hmem, hconverts⟩
    dsimp only at hconverts
    split at hconverts
    · rename_i hvalue
      obtain ⟨rfl, rfl⟩ := Prod.mk.inj (Option.some.inj hconverts)
      exact ⟨d, hmem, hvalue⟩
    · exact absurd hconverts (by simp)
  · rintro ⟨d, hmem, hvalue⟩
    exact ⟨(name, d), hmem, by simp only [hvalue]⟩

theorem names_converted_sublist (globals : List (Text × Datum)) :
    ((converted globals).map Prod.fst).Sublist (globals.map Prod.fst) := by
  induction globals with
  | nil => exact .slnil
  | cons g rest ih =>
    cases hvalue : g.2.toValue with
    | ok v =>
      rw [converted, List.filterMap_cons_some (b := (g.1, v)) (by simp only [hvalue])]
      exact ih.cons_cons g.1
    | error error =>
      rw [converted, List.filterMap_cons_none (by simp only [hvalue])]
      exact ih.cons g.1

theorem isLeast_of_seedError? {e : SeedError} (h : seedError? globals = some e) :
    e.IsLeast globals := by
  have hsorted : (globals.mergeSort fun a b => a.1 ≤ b.1).Pairwise fun a b =>
      decide (a.1 ≤ b.1) = true := by
    refine List.pairwise_mergeSort (fun a b c hab hbc => ?_) (fun a b => ?_) _
    · exact decide_eq_true (List.le_trans (of_decide_eq_true hab) (of_decide_eq_true hbc))
    · simpa using List.le_total a.1 b.1
  have hperm := List.mergeSort_perm globals fun a b => a.1 ≤ b.1
  obtain ⟨before, ⟨name, d⟩, rest, hsplit, hfails, hbefore⟩ := List.findSome?_eq_some_iff.1 h
  rw [hsplit] at hsorted hperm
  dsimp only at hfails
  split at hfails
  · exact absurd hfails (by simp)
  · rename_i error herror
    obtain rfl := Option.some.inj hfails
    refine ⟨⟨d, hperm.mem_iff.1 (by simp), herror⟩, fun other hother => ?_⟩
    obtain ⟨d', hmem, hd'⟩ := hother
    -- what fails does not stand before the first that fails
    have hlater : (other.name, d') ∈ (name, d) :: rest := by
      refine (List.mem_append.1 (hperm.mem_iff.2 hmem)).resolve_left fun hfront => ?_
      have hpasses := hbefore _ hfront
      rw [hd'] at hpasses
      exact absurd hpasses (by simp)
    rcases List.mem_cons.1 hlater with hsame | hbehind
    · exact (Prod.mk.inj hsame).1 ▸ List.le_refl name
    · have hordered := (List.pairwise_append.1 hsorted).2.1
      exact of_decide_eq_true ((List.pairwise_cons.1 hordered).1 _ hbehind)

theorem exists_seedError?_of_concerns {e : SeedError} (h : e.Concerns globals) :
    ∃ first, seedError? globals = some first := by
  obtain ⟨d, hmem, herror⟩ := h
  refine Option.isSome_iff_exists.1 (List.findSome?_isSome_iff.2 ⟨(e.name, d), ?_, ?_⟩)
  · exact (List.mergeSort_perm _ _).mem_iff.2 hmem
  · simp only [herror, Option.isSome_some]

section Distinct
variable (distinct : (globals.map Prod.fst).Nodup)
include distinct

theorem eq_of_isLeast {e e' : SeedError} (h : e.IsLeast globals) (h' : e'.IsLeast globals) :
    e = e' := by
  have hname : e.name = e'.name := List.le_antisymm (h.2 e' h'.1) (h'.2 e h.1)
  obtain ⟨⟨d, hmem, herror⟩, -⟩ := h
  obtain ⟨⟨d', hmem', herror'⟩, -⟩ := h'
  obtain ⟨name, error⟩ := e
  obtain ⟨name', error'⟩ := e'
  obtain rfl : name = name' := hname
  obtain rfl := (Prod.mk.inj (List.inj_on_of_nodup_map distinct hmem hmem' rfl)).2
  exact congrArg (SeedError.mk name) (Except.error.inj (herror.symm.trans herror'))

theorem seedError?_eq_some_iff {e : SeedError} :
    seedError? globals = some e ↔ e.IsLeast globals := by
  refine ⟨isLeast_of_seedError?, fun h => ?_⟩
  obtain ⟨first, hfirst⟩ := exists_seedError?_of_concerns h.1
  rw [hfirst, eq_of_isLeast distinct h (isLeast_of_seedError? hfirst)]

end Distinct

end Globals

/-- Globals that are all values are all converted. -/
theorem seed_of_values {s : Settings} (h : ∀ g ∈ s.globals, ∃ v, g.2.toValue = .ok v) :
    s.seed = .ok (Store.ofList (converted s.globals)) := by
  rw [seed]
  cases hfails : seedError? s.globals with
  | none => rfl
  | some e =>
    obtain ⟨d, hmem, herror⟩ := (isLeast_of_seedError? hfails).1
    obtain ⟨v, hvalue⟩ := h _ hmem
    rw [hvalue] at herror
    exact absurd herror (by simp)

section Seed
variable {s : Settings} (distinct : (s.globals.map Prod.fst).Nodup)
include distinct

theorem seed_eq_error_iff {e : SeedError} : s.seed = .error e ↔ e.IsLeast s.globals := by
  rw [← seedError?_eq_some_iff distinct, seed]
  cases seedError? s.globals <;> simp

theorem get?_of_seed {m : Store} (h : s.seed = .ok m) {name : Text} {v : Value} :
    m.get? name = some v ↔ ∃ d, (name, d) ∈ s.globals ∧ d.toValue = .ok v := by
  have hstore : Store.ofList (converted s.globals) = m := by
    rw [seed] at h
    split at h
    · exact absurd h (by simp)
    · exact Except.ok.inj h
  have hentries := Store.perm_ofList (distinct.sublist (names_converted_sublist s.globals))
  rw [Store.get?_eq_some_iff, ← hstore, hentries.mem_iff, mem_converted]

/-- The conversion does not depend on the order of the globals. -/
theorem seed_perm {s' : Settings} (h : s'.globals.Perm s.globals) : s'.seed = s.seed := by
  have hconcerns (e : SeedError) : e.Concerns s'.globals ↔ e.Concerns s.globals := by
    simp only [SeedError.Concerns, h.mem_iff]
  have hleast (e : SeedError) : e.IsLeast s'.globals ↔ e.IsLeast s.globals := by
    simp only [SeedError.IsLeast, hconcerns]
  have distinct' : (s'.globals.map Prod.fst).Nodup := (h.map Prod.fst).nodup_iff.2 distinct
  have herror (e : SeedError) : s'.seed = .error e ↔ s.seed = .error e := by
    rw [seed_eq_error_iff distinct', seed_eq_error_iff distinct, hleast]
  cases hseed : s.seed with
  | error e => rw [herror, hseed]
  | ok m =>
    cases hseed' : s'.seed with
    | error e => exact absurd (hseed.symm.trans ((herror e).1 hseed')) (by simp)
    | ok m' =>
      have hentry (e : Text × Value) : e ∈ m'.entries ↔ e ∈ m.entries := by
        rw [← Store.get?_eq_some_iff, ← Store.get?_eq_some_iff, get?_of_seed distinct' hseed',
          get?_of_seed distinct hseed]
        simp only [h.mem_iff]
      have hperm := (List.perm_ext_iff_of_nodup (.of_map _ m'.nodup_names)
        (.of_map _ m.nodup_names)).2 hentry
      rw [Store.eq_of_perm hperm]

end Seed

/-- A new engine with the globals of the settings, which go into it in the order chosen. -/
def launch (s : Settings) (visit : Store → List (Text × Value)) (maxLine : Int) :
    Except CommandError Engine :=
  (s.seed.mapError .seed).bind fun globals =>
    (Engine.ofGlobals (visit globals) maxLine).mapError .global

end Settings

/-- A choice of an order for the entries of every store. -/
def Store.IsOrder (visit : Store → List (Text × Value)) : Prop := ∀ s, (visit s).Perm s.entries

theorem Store.exists_isOrder {s : Store} {order : List (Text × Value)} (h : order.Perm s.entries) :
    ∃ visit, IsOrder visit ∧ visit s = order := by
  refine ⟨fun other => if other = s then order else other.entries, fun other => ?_, if_pos rfl⟩
  dsimp only
  split
  · rename_i hsame
    rwa [hsame]
  · exact .refl _

namespace Settings
variable {s : Settings} {visit : Store → List (Text × Value)} {maxLine : Int}

theorem launch_of_seed {globals : Store} (h : s.seed = .ok globals) :
    s.launch visit maxLine = (Engine.ofGlobals (visit globals) maxLine).mapError .global := by
  rw [launch, h]
  rfl

/-- The order of the names in the store is the one that the commands take. -/
theorem launch_entries : s.launch Store.entries maxLine = (s.seed.mapError .seed).bind fun globals =>
    (Engine.new globals maxLine).mapError .global := by
  simp only [launch, Engine.new_eq_ofGlobals]

theorem launch_eq_ok_iff {globals : Store} (h : s.seed = .ok globals) {e : Engine} :
    s.launch visit maxLine = .ok e ↔ Engine.ofGlobals (visit globals) maxLine = .ok e := by
  rw [launch_of_seed h]
  cases Engine.ofGlobals (visit globals) maxLine <;> simp [Except.mapError]

theorem launch_eq_global_iff {globals : Store} (h : s.seed = .ok globals) {err : GlobalError} :
    s.launch visit maxLine = .error (.global err) ↔
      Engine.ofGlobals (visit globals) maxLine = .error err := by
  rw [launch_of_seed h]
  cases Engine.ofGlobals (visit globals) maxLine <;> simp [Except.mapError]

theorem exists_launch_iff {globals : Store} (h : s.seed = .ok globals) (maxLine : Int)
    {err : GlobalError} :
    (∃ visit, Store.IsOrder visit ∧ s.launch visit maxLine = .error (.global err)) ↔
      err.Concerns globals := by
  simp only [launch_eq_global_iff h]
  constructor
  · rintro ⟨visit, hvisit, herror⟩
    exact Engine.concerns_of_ofGlobals (hvisit globals) herror
  · intro hconcerns
    obtain ⟨order, hperm, herror⟩ := Engine.exists_order_of_concerns hconcerns maxLine
    obtain ⟨visit, hvisit, rfl⟩ := Store.exists_isOrder hperm
    exact ⟨visit, hvisit, herror⟩

end Settings

/-- Seeding a new engine with configured globals, in any orders. The conversion is refused for the
least name whose datum is no value, or it ends in a store of just the converted globals. The engine is
then the same in all orders if it can bind every name; otherwise it reports a name that cannot be
bound, and any of these in some order. The order that a new engine takes is one of them. So the
outcome does not depend on the orders exactly if the conversion is refused or at most one name cannot
be bound. -/
theorem seeding_order_free_iff {s : Settings} (distinct : (s.globals.map Prod.fst).Nodup)
    (maxLine : Int) :
    (∀ e, s.seed = .error e ↔ e.IsLeast s.globals) ∧
    (∀ globals, s.seed = .ok globals →
      (∀ name v, globals.get? name = some v ↔ ∃ d, (name, d) ∈ s.globals ∧ d.toValue = .ok v) ∧
      (∀ visit, Store.IsOrder visit → ∀ e, s.launch visit maxLine = .ok e ↔
        (∀ err : GlobalError, ¬ err.Concerns globals) ∧
          e = { globals, lineLimit := Lines.limitOf maxLine, store := globals }) ∧
      ∀ err, (∃ visit, Store.IsOrder visit ∧ s.launch visit maxLine = .error (.global err)) ↔
        err.Concerns globals) ∧
    (Store.IsOrder Store.entries ∧ s.launch Store.entries maxLine =
      (s.seed.mapError .seed).bind fun globals =>
        (Engine.new globals maxLine).mapError .global) ∧
    ((∀ (s' : Settings) visit visit', s'.globals.Perm s.globals → Store.IsOrder visit →
        Store.IsOrder visit' → s'.launch visit' maxLine = s.launch visit maxLine) ↔
      ∀ globals, s.seed = .ok globals → ∀ e e' : GlobalError,
        e.Concerns globals → e'.Concerns globals → e = e') := by
  refine ⟨fun e => Settings.seed_eq_error_iff distinct, fun globals hseed => ⟨fun name v => ?_,
    fun visit hvisit e => ?_, fun err => Settings.exists_launch_iff hseed maxLine⟩,
    ⟨fun _ => .refl _, Settings.launch_entries⟩, ?_, ?_⟩
  · exact Settings.get?_of_seed distinct hseed
  · exact (Settings.launch_eq_ok_iff hseed).trans (Engine.ofGlobals_eq_ok_iff (hvisit globals))
  · intro hfree globals hseed e e' he he'
    obtain ⟨visit, hvisit, herror⟩ := (Settings.exists_launch_iff hseed maxLine).2 he
    obtain ⟨visit', hvisit', herror'⟩ := (Settings.exists_launch_iff hseed maxLine).2 he'
    have hsame := hfree s visit visit' (.refl _) hvisit hvisit'
    rw [herror, herror'] at hsame
    exact (CommandError.global.inj (Except.error.inj hsame)).symm
  · intro hone s' visit visit' hperm hvisit hvisit'
    have hseed' := Settings.seed_perm distinct hperm
    cases hseed : s.seed with
    | error e => simp only [Settings.launch, hseed', hseed, Except.mapError, Except.bind]
    | ok globals =>
      rw [Settings.launch_of_seed hseed, Settings.launch_of_seed (hseed'.trans hseed),
        Engine.ofGlobals_eq_ofGlobals (hvisit' globals) (hvisit globals) (hone globals hseed)]

/-- With a single name that cannot be bound, all orders report the same. -/
theorem seeding_single_unbindable :
    let s : Settings := ⟨"auto", [".esp"], [("n", .int 7), ("a b", .bool true)]⟩
    (s.globals.map Prod.fst).Nodup ∧
    ∀ (s' : Settings) visit visit', s'.globals.Perm s.globals → Store.IsOrder visit →
      Store.IsOrder visit' → s'.launch visit' 0 = s.launch visit 0 := by
  intro s
  have distinct : (s.globals.map Prod.fst).Nodup := by decide +kernel
  have hconverted : s.seed = .ok (.ofList [("n", .int 7), ("a b", .bool true)]) :=
    Settings.seed_of_values
      (List.forall_mem_cons.2 ⟨⟨_, rfl⟩, List.forall_mem_singleton.2 ⟨_, rfl⟩⟩)
  refine ⟨distinct, (seeding_order_free_iff distinct 0).2.2.2.2 fun globals hseed e e' he he' => ?_⟩
  obtain rfl := Except.ok.inj (hconverted.symm.trans hseed)
  have hgood : IdentifierError.ofName? "n" = none := by decide +kernel
  have hbad : IdentifierError.ofName? "a b" = some .whiteSpace := by decide +kernel
  have hunique {e : GlobalError}
      (h : e.Concerns (.ofList [("n", .int 7), ("a b", .bool true)])) :
      e = ⟨"a b", .whiteSpace⟩ := by
    obtain ⟨name, error⟩ := e
    obtain ⟨hmem, herror⟩ := h
    rcases List.mem_pair.1 hmem with rfl | rfl
    · rw [hbad] at herror
      rw [Option.some.inj herror]
    · rw [hgood] at herror
      exact absurd herror (by simp)
  rw [hunique he, hunique he']

/-- Two names cannot be bound, and two orders report different ones. -/
theorem not_seeding_order_free :
    let s : Settings := ⟨"auto", [".esp"], [("c d", .int 1), ("a b", .int 2)]⟩
    ∃ visit visit', Store.IsOrder visit ∧ Store.IsOrder visit' ∧
      (s.launch visit 0).mapError CommandError.message =
        .error "esp: global \"a b\": identifier cannot contain whitespace" ∧
      (s.launch visit' 0).mapError CommandError.message =
        .error "esp: global \"c d\": identifier cannot contain whitespace" := by
  intro s
  have hconverted : s.seed = .ok (.ofList [("c d", .int 1), ("a b", .int 2)]) :=
    Settings.seed_of_values
      (List.forall_mem_cons.2 ⟨⟨_, rfl⟩, List.forall_mem_singleton.2 ⟨_, rfl⟩⟩)
  refine ⟨fun store => store.entries, fun store => store.entries.reverse, fun store => .refl _,
    fun store => List.reverse_perm _, ?_, ?_⟩
  · rw [Settings.launch_of_seed hconverted]
    decide +kernel
  · rw [Settings.launch_of_seed hconverted]
    decide +kernel

end LineScript
