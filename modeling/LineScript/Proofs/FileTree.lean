import LineScript.Proofs.Path

/-! Trees whose files are given other content. Every path leads to the same place in them, and the
same files lie below every directory. -/

namespace LineScript

namespace Entry

/-- An entry with other content, if it is a file. -/
def map (f : Text → Text) : Entry → Entry
  | .file content => .file (f content)
  | .directory => .directory

theorem map_self (e : Entry) : e.map (fun content => content) = e := by cases e <;> rfl

theorem map_map (f g : Text → Text) (e : Entry) : (e.map f).map g = e.map (g ∘ f) := by
  cases e <;> rfl

end Entry

namespace FileTree

/-- The tree is one of a file system: its working directory has an absolute path, the elements of
its places are names, and no two entries are at one place. -/
structure WellFormed (tree : FileTree) : Prop where
  absolute : Path.isAbsolute tree.workingDirectory = true
  here : ∀ name ∈ tree.here, IsName name
  names : ∀ e ∈ tree.entries, ∀ name ∈ e.1, IsName name
  distinct : (tree.entries.map Prod.fst).Nodup

instance (tree : FileTree) : Decidable tree.WellFormed :=
  decidable_of_iff (Path.isAbsolute tree.workingDirectory = true ∧
      (∀ name ∈ tree.here, IsName name) ∧ (∀ e ∈ tree.entries, ∀ name ∈ e.1, IsName name) ∧
      (tree.entries.map Prod.fst).Nodup)
    ⟨fun h => ⟨h.1, h.2.1, h.2.2.1, h.2.2.2⟩, fun h => ⟨h.absolute, h.here, h.names, h.distinct⟩⟩

section Lookup
variable {tree : FileTree} {place : Place}

theorem mem_entries_of_entryAt? {content : Text} (h : tree.entryAt? place = some (.file content)) :
    (place, .file content) ∈ tree.entries := by
  unfold entryAt? at h
  cases hentry : tree.entries.lookup place with
  | none =>
    rw [hentry, Option.none_or] at h
    split at h <;> cases h
  | some e =>
    rw [hentry, Option.some_or] at h
    obtain ⟨before, after, hentries, -⟩ := List.lookup_eq_some_iff.1 hentry
    rw [hentries, Option.some.inj h]
    exact List.mem_append_right _ List.mem_cons_self

theorem WellFormed.entryAt? (wf : tree.WellFormed) {e : Entry} (h : (place, e) ∈ tree.entries) :
    tree.entryAt? place = some e := by
  have hlookup : tree.entries.lookup place = some e := by
    obtain ⟨before, after, hentries⟩ := List.append_of_mem h
    refine List.lookup_eq_some_iff.2 ⟨before, after, hentries, fun other hother => ?_⟩
    have hdistinct := wf.distinct
    rw [hentries, List.map_append, List.map_cons] at hdistinct
    have hne := (List.nodup_append.1 hdistinct).2.2 _ (List.mem_map_of_mem hother) _
      List.mem_cons_self
    exact bne_iff_ne.2 hne.symm
  rw [FileTree.entryAt?, hlookup, Option.some_or]

end Lookup

/-- Following elements in a tree without links leads where their spelling leads. -/
theorem follow_eq_ok {tree : FileTree} {start place : Place} {elements : List Text} {e : Entry}
    (h : tree.follow start elements = .ok (place, e)) :
    place = elements.foldl descend start ∧ tree.entryAt? place = some e := by
  induction elements generalizing start with
  | nil =>
    unfold follow at h
    split at h
    · rename_i entry hentry
      cases h
      exact ⟨rfl, hentry⟩
    · cases h
  | cons element rest ih =>
    unfold follow at h
    split at h
    · cases h
    · cases h
    · rw [List.foldl_cons, descend]
      -- the last case, a name too long to follow, is no success
      split_ifs at h ⊢
      · exact ih h
      · exact ih h
      · exact ih h

theorem locate_eq_ok {tree : FileTree} {p : Text} {found : Place × Entry}
    (h : tree.locate p = .ok found) :
    tree.follow (if Path.isAbsolute p then [] else tree.here) (p.splitOn Text.slash) =
      .ok found := by
  unfold locate at h
  iterate 3
    split at h
    · cases h
  exact h

/-- A path leads to the place of its absolute spelling. -/
theorem WellFormed.locate {tree : FileTree} (wf : tree.WellFormed) {p : Text} {place : Place}
    {e : Entry} (h : tree.locate p = .ok (place, e)) :
    place = placeOf (Path.absolute tree.workingDirectory p) ∧ (∀ name ∈ place, IsName name) ∧
      tree.entryAt? place = some e := by
  obtain ⟨rfl, hentry⟩ := follow_eq_ok (locate_eq_ok h)
  refine ⟨(Path.placeOf_absolute wf.absolute wf.here p).symm, ?_, hentry⟩
  refine isName_of_mem_foldl_descend ?_ fun _ => Lines.not_mem_of_mem_splitOn
  split
  · exact List.forall_mem_nil _
  · exact wf.here

theorem readFile_of_locate {tree : FileTree} {p content : Text} {place : Place}
    (h : tree.locate p = .ok (place, .file content)) : tree.readFile p = .ok content := by
  rw [readFile, h]

theorem locate_of_readFile {tree : FileTree} {p content : Text}
    (h : tree.readFile p = .ok content) : ∃ place, tree.locate p = .ok (place, .file content) := by
  unfold readFile at h
  split at h
  · rename_i place found hlocate
    cases h
    exact ⟨place, hlocate⟩
  · cases h
  · cases h

/-- What is read at the path of a place is what stands at the place. -/
theorem WellFormed.readFile_pathOf {tree : FileTree} (wf : tree.WellFormed) {place : Place}
    (hplace : ∀ name ∈ place, IsName name) {content : Text}
    (h : tree.readFile (pathOf place) = .ok content) :
    tree.locate (pathOf place) = .ok (place, .file content) := by
  obtain ⟨found, hlocate⟩ := locate_of_readFile h
  obtain ⟨hfound, -, -⟩ := wf.locate hlocate
  have helements : ((pathOf place).splitOn Text.slash).foldl descend [] = place := by
    rw [← foldl_descend_filter]
    have hread : ((pathOf place).splitOn Text.slash).filter (· ≠ []) = place :=
      placeOf_pathOf hplace
    rw [hread, foldl_descend_of_isName hplace, List.nil_append]
  have habsolute : Path.isAbsolute (pathOf place) = true := rfl
  rw [Path.placeOf_absolute wf.absolute wf.here, if_pos habsolute, helements] at hfound
  rw [hlocate, hfound]

/-- The tree with other content in its files. -/
def mapFiles (f : Place → Text → Text) (tree : FileTree) : FileTree :=
  { tree with entries := tree.entries.map fun e => (e.1, e.2.map (f e.1)) }

section MapFiles
variable (f : Place → Text → Text) (tree : FileTree)

theorem mapFiles_mapFiles (g : Place → Text → Text) :
    (tree.mapFiles f).mapFiles g = tree.mapFiles fun place => g place ∘ f place := by
  simp only [mapFiles, List.map_map]
  congr 1
  exact List.map_congr_left fun e _ => congrArg (Prod.mk e.1) (Entry.map_map _ _ _)

theorem mapFiles_self : tree.mapFiles (fun _ content => content) = tree := by
  simp only [mapFiles, Entry.map_self, List.map_id']

theorem map_fst_mapFiles : (tree.mapFiles f).entries.map Prod.fst = tree.entries.map Prod.fst := by
  rw [mapFiles, List.map_map]
  rfl

theorem here_mapFiles : (tree.mapFiles f).here = tree.here := rfl

theorem entryAt?_mapFiles (place : Place) :
    (tree.mapFiles f).entryAt? place = (tree.entryAt? place).map (Entry.map (f place)) := by
  have hlookup : (tree.mapFiles f).entries.lookup place =
      (tree.entries.lookup place).map (Entry.map (f place)) := by
    rw [mapFiles]
    induction tree.entries with
    | nil => rfl
    | cons e rest ih =>
      rw [List.map_cons, List.lookup_cons, List.lookup_cons, ih]
      split
      · rename_i heq
        rw [← beq_iff_eq.1 heq]
        rfl
      · rfl
  have hany : (tree.mapFiles f).entries.any (place.isPrefixOf ·.1) =
      tree.entries.any (place.isPrefixOf ·.1) := by
    rw [mapFiles, List.any_map]
    rfl
  rw [entryAt?, entryAt?, hlookup, hany, here_mapFiles]
  cases tree.entries.lookup place with
  | some e => rfl
  | none =>
    simp only [Option.map_none, Option.none_or]
    split <;> rfl

/-- What stands where a path leads has changed, and where it leads has not. -/
def mapFound (found : Place × Entry) : Place × Entry := (found.1, found.2.map (f found.1))

theorem follow_mapFiles (place : Place) (elements : List Text) :
    (tree.mapFiles f).follow place elements =
      (tree.follow place elements).map (mapFound f) := by
  induction elements generalizing place with
  | nil =>
    rw [follow, follow, entryAt?_mapFiles]
    cases tree.entryAt? place <;> rfl
  | cons element rest ih =>
    rw [follow, follow, entryAt?_mapFiles]
    cases tree.entryAt? place with
    | none => rfl
    | some e =>
      cases e with
      | file content => rfl
      | directory =>
        simp only [Option.map_some, Entry.map, ih]
        split_ifs <;> rfl

theorem locate_mapFiles (p : Text) :
    (tree.mapFiles f).locate p = (tree.locate p).map (mapFound f) := by
  rw [locate, locate, follow_mapFiles, here_mapFiles]
  split_ifs <;> rfl

theorem filesBelow_mapFiles (place : Place) :
    (tree.mapFiles f).filesBelow place = tree.filesBelow place := by
  rw [filesBelow, filesBelow, mapFiles, List.filterMap_map]
  refine List.filterMap_congr fun e _ => ?_
  obtain ⟨place, _ | _⟩ := e <;> rfl

theorem WellFormed.mapFiles {tree : FileTree} (wf : tree.WellFormed) :
    (tree.mapFiles f).WellFormed where
  absolute := wf.absolute
  here := wf.here
  names := by
    intro e he
    obtain ⟨old, hold, rfl⟩ := List.mem_map.1 he
    exact wf.names old hold
  distinct := by
    rw [map_fst_mapFiles]
    exact wf.distinct

end MapFiles

/-- Writing a file gives it other content and leaves all others as they are. -/
theorem WellFormed.writeAt {tree : FileTree} (wf : tree.WellFormed) {place : Place} {content : Text}
    (h : (place, .file content) ∈ tree.entries) (g : Text → Text) :
    tree.writeAt place (g content) =
      tree.mapFiles fun q c => if q = place then g c else c := by
  rw [FileTree.writeAt, FileTree.mapFiles]
  congr 1
  refine List.map_congr_left fun e he => ?_
  obtain ⟨q, entry⟩ := e
  by_cases hq : q = place
  · subst hq
    have hentry : entry = .file content :=
      Option.some.inj ((wf.entryAt? he).symm.trans (wf.entryAt? h))
    subst hentry
    simp [Entry.map]
  · simp only [if_neg hq]
    exact congrArg (Prod.mk q) entry.map_self.symm

theorem WellFormed.writeAt_self {tree : FileTree} (wf : tree.WellFormed) {place : Place}
    {content : Text} (h : (place, .file content) ∈ tree.entries) :
    tree.writeAt place content = tree := by
  have hsame : (fun q c => if q = place then id c else c : Place → Text → Text) = fun _ c => c := by
    funext q c
    exact ite_self c
  rw [← id_eq content, wf.writeAt h id, hsame, mapFiles_self]

theorem mem_filesBelow {tree : FileTree} {dir place : Place} :
    place ∈ tree.filesBelow dir ↔
      (∃ content, (place, .file content) ∈ tree.entries) ∧ dir <+: place := by
  rw [filesBelow, List.mem_filterMap]
  constructor
  · rintro ⟨⟨q, _ | _⟩, he, hq⟩
    · dsimp only at hq
      split at hq
      · rename_i hprefix
        cases hq
        exact ⟨⟨_, he⟩, List.isPrefixOf_iff_prefix.1 hprefix⟩
      · cases hq
    · cases hq
  · rintro ⟨⟨content, he⟩, hprefix⟩
    exact ⟨_, he, if_pos (List.isPrefixOf_iff_prefix.2 hprefix)⟩

end FileTree

end LineScript
