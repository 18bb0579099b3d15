import LineScript.Command
import LineScript.Proofs.Canonical
import LineScript.Proofs.FileTree

/-! Formatting scripts in place. Targets name a set of scripts, listed in the order of their paths
however the targets are given. Writing formats these and nothing else, and afterwards nothing is
left to format. -/

namespace LineScript

theorem eraseDups_sublist_nodup {α : Type} [BEq α] [LawfulBEq α] (l : List α) :
    l.eraseDups.Sublist l ∧ l.eraseDups.Nodup := by
  cases l with
  | nil => exact ⟨.slnil, .nil⟩
  | cons a rest =>
    obtain ⟨hsub, hnodup⟩ := eraseDups_sublist_nodup (rest.filter fun b => !b == a)
    rw [List.eraseDups_cons]
    refine ⟨(hsub.trans List.filter_sublist).cons_cons a,
      List.nodup_cons.2 ⟨fun hmem => ?_, hnodup⟩⟩
    simpa using List.mem_eraseDups.1 hmem
termination_by l.length
decreasing_by
  have hless := List.length_filter_le (fun b => !b == a) rest
  rw [List.length_cons]
  omega

section Except
variable {ε α β : Type} {f : α → Except ε (List β)}

theorem exists_mapM_eq_ok {l : List α} (h : ∀ a ∈ l, ∃ bs, f a = .ok bs) :
    ∃ bss, l.mapM f = .ok bss := by
  induction l with
  | nil => exact ⟨[], rfl⟩
  | cons a l ih =>
    obtain ⟨⟨bs, hbs⟩, hrest⟩ := List.forall_mem_cons.1 h
    obtain ⟨bss, hbss⟩ := ih hrest
    refine ⟨bs :: bss, ?_⟩
    rw [List.mapM_cons, hbs, hbss]
    rfl

theorem mem_flatten_of_mapM {l : List α} {bss : List (List β)} (h : l.mapM f = .ok bss) {b : β} :
    b ∈ bss.flatten ↔ ∃ a ∈ l, ∃ bs, f a = .ok bs ∧ b ∈ bs := by
  induction l generalizing bss with
  | nil =>
    obtain rfl : [] = bss := Except.ok.inj h
    simp
  | cons a l ih =>
    rw [List.mapM_cons] at h
    cases hbs : f a with
    | error e =>
      rw [hbs] at h
      cases h
    | ok bs =>
      cases hrest : l.mapM f with
      | error e =>
        rw [hbs, hrest] at h
        cases h
      | ok rest =>
        rw [hbs, hrest] at h
        obtain rfl : bs :: rest = bss := Except.ok.inj h
        rw [List.flatten_cons, List.mem_append, ih hrest]
        simp [hbs]

end Except

/-- The tree with the scripts at some places formatted. -/
def FileTree.formatted (tree : FileTree) (places : List Place) : FileTree :=
  tree.mapFiles fun place content => if place ∈ places then formatScript content else content

theorem FileTree.WellFormed.formatted {tree : FileTree} (wf : tree.WellFormed)
    (places : List Place) : (tree.formatted places).WellFormed :=
  FileTree.WellFormed.mapFiles _ wf

theorem FileTree.entryAt?_formatted (tree : FileTree) (places : List Place) (place : Place) :
    (tree.formatted places).entryAt? place =
      if place ∈ places then (tree.entryAt? place).map (Entry.map formatScript)
      else tree.entryAt? place := by
  rw [formatted, entryAt?_mapFiles]
  split
  · rfl
  · cases tree.entryAt? place with
    | none => rfl
    | some e => exact congrArg some e.map_self

theorem FileTree.formatted_cons (tree : FileTree) (place : Place) (places : List Place) :
    (tree.formatted [place]).formatted places = tree.formatted (place :: places) := by
  rw [formatted, formatted, mapFiles_mapFiles, formatted]
  congr 1
  funext q content
  have hagain : formatScript (formatScript content) = formatScript content :=
    formatScript_of_canonical (canonical_formatScript content)
  by_cases hq : q = place <;> by_cases hmem : q ∈ places <;> simp [hq, hmem, hagain]

namespace Command

/-- The place is that of a script that a target names: a file, or a file with a script's extension
below a directory. -/
inductive Names (tree : FileTree) (target : Text) (place : Place) : Prop
  | file {content : Text} (located : tree.locate target = .ok (place, .file content))
  | below {dir : Place} {content : Text} (located : tree.locate target = .ok (dir, .directory))
    (entry : (place, .file content) ∈ tree.entries) (inside : dir <+: place)
    (extension : Settings.default.hasExtension (FileTree.pathOf place) = true)

section Targets
variable {tree : FileTree} {target : Text} {targets : List Text} {place : Place}
  {places : List Place}

theorem mem_targetPlaces (wf : tree.WellFormed) (h : targetPlaces tree target = .ok places) :
    place ∈ places ↔ Names tree target place := by
  unfold targetPlaces at h
  split at h
  · cases h
  · rename_i q content hlocate
    obtain rfl := Except.ok.inj h
    obtain ⟨hq, -, -⟩ := wf.locate hlocate
    rw [FileTree.absolute, ← hq, List.mem_singleton]
    constructor
    · rintro rfl
      exact .file hlocate
    · rintro (hfile | hdir)
      · rw [hlocate] at hfile
        cases hfile
        rfl
      · rw [hlocate] at hdir
        cases hdir
  · rename_i dir hlocate
    obtain rfl := Except.ok.inj h
    rw [List.mem_filter, FileTree.mem_filesBelow]
    constructor
    · rintro ⟨⟨⟨content, hentry⟩, hinside⟩, hextension⟩
      exact .below hlocate hentry hinside hextension
    · rintro (hfile | ⟨hdir, hentry, hinside, hextension⟩)
      · rw [hlocate] at hfile
        cases hfile
      · rw [hlocate] at hdir
        cases hdir
        exact ⟨⟨⟨_, hentry⟩, hinside⟩, hextension⟩

theorem exists_targetPlaces (h : ∃ found, tree.locate target = .ok found) :
    ∃ places, targetPlaces tree target = .ok places := by
  obtain ⟨⟨place, entry⟩, hlocate⟩ := h
  rw [targetPlaces, hlocate]
  cases entry <;> exact ⟨_, rfl⟩

theorem isName_of_names (wf : tree.WellFormed) (h : Names tree target place) :
    ∀ name ∈ place, IsName name := by
  cases h with
  | file located => exact (wf.locate located).2.1
  | below located entry inside extension => exact wf.names _ entry

theorem exists_collect (h : ∀ t ∈ targets, ∃ found, tree.locate t = .ok found) :
    ∃ places, collect tree targets = .ok places := by
  obtain ⟨lists, hlists⟩ := exists_mapM_eq_ok fun t ht => exists_targetPlaces (h t ht)
  rw [collect, hlists]
  exact ⟨_, rfl⟩

theorem collect_eq_ok (h : collect tree targets = .ok places) :
    ∃ lists, targets.mapM (targetPlaces tree) = .ok lists ∧
      places = (lists.flatten.mergeSort fun a b =>
        FileTree.pathOf a ≤ FileTree.pathOf b).eraseDups := by
  unfold collect at h
  cases hlists : targets.mapM (targetPlaces tree) with
  | error e =>
    rw [hlists] at h
    cases h
  | ok lists =>
    rw [hlists] at h
    exact ⟨lists, rfl, (Except.ok.inj h).symm⟩

theorem mem_collect (wf : tree.WellFormed) (h : collect tree targets = .ok places) :
    place ∈ places ↔ ∃ t ∈ targets, Names tree t place := by
  obtain ⟨lists, hlists, rfl⟩ := collect_eq_ok h
  rw [List.mem_eraseDups, (List.mergeSort_perm _ _).mem_iff, mem_flatten_of_mapM hlists]
  constructor
  · rintro ⟨t, ht, places, hplaces, hmem⟩
    exact ⟨t, ht, (mem_targetPlaces wf hplaces).1 hmem⟩
  · rintro ⟨t, ht, hnames⟩
    have hexists : ∃ found, tree.locate t = .ok found := by
      cases hnames with
      | file located => exact ⟨_, located⟩
      | below located => exact ⟨_, located⟩
    obtain ⟨places, hplaces⟩ := exists_targetPlaces hexists
    exact ⟨t, ht, places, hplaces, (mem_targetPlaces wf hplaces).2 hnames⟩

/-- Scripts are listed in the order of their paths, each once. -/
theorem ordered_collect (h : collect tree targets = .ok places) :
    places.Pairwise (fun a b => FileTree.pathOf a ≤ FileTree.pathOf b) ∧ places.Nodup := by
  obtain ⟨lists, -, rfl⟩ := collect_eq_ok h
  obtain ⟨hsub, hnodup⟩ := eraseDups_sublist_nodup
    (lists.flatten.mergeSort fun a b => FileTree.pathOf a ≤ FileTree.pathOf b)
  have hsorted : (lists.flatten.mergeSort fun a b =>
      FileTree.pathOf a ≤ FileTree.pathOf b).Pairwise fun a b =>
        decide (FileTree.pathOf a ≤ FileTree.pathOf b) = true := by
    refine List.pairwise_mergeSort (fun a b c hab hbc => ?_) (fun a b => ?_) _
    · exact decide_eq_true (List.le_trans (of_decide_eq_true hab) (of_decide_eq_true hbc))
    · simpa using List.le_total (FileTree.pathOf a) (FileTree.pathOf b)
  exact ⟨(hsorted.imp of_decide_eq_true).sublist hsub, hnodup⟩

/-- Targets that name the same scripts have them listed alike. -/
theorem collect_congr (wf : tree.WellFormed) {targets' : List Text} {places' : List Place}
    (h : collect tree targets = .ok places) (h' : collect tree targets' = .ok places')
    (same : ∀ place, (∃ t ∈ targets, Names tree t place) ↔ ∃ t ∈ targets', Names tree t place) :
    places = places' := by
  obtain ⟨hsorted, hnodup⟩ := ordered_collect h
  obtain ⟨hsorted', hnodup'⟩ := ordered_collect h'
  have hperm : places.Perm places' :=
    (List.perm_ext_iff_of_nodup hnodup hnodup').2 fun place => by
      rw [mem_collect wf h, mem_collect wf h', same]
  refine hperm.eq_of_pairwise (fun a b ha hb hab hba => ?_) hsorted hsorted'
  obtain ⟨t, -, hnames⟩ := (mem_collect wf h).1 ha
  obtain ⟨t', -, hnames'⟩ := (mem_collect wf h').1 hb
  rw [← FileTree.placeOf_pathOf (isName_of_names wf hnames), List.le_antisymm hab hba,
    FileTree.placeOf_pathOf (isName_of_names wf hnames')]

theorem collect_mapFiles (f : Place → Text → Text) (tree : FileTree) (targets : List Text) :
    collect (tree.mapFiles f) targets = collect tree targets := by
  have htarget : targetPlaces (tree.mapFiles f) = targetPlaces tree := by
    funext target
    rw [targetPlaces, targetPlaces, FileTree.locate_mapFiles]
    cases tree.locate target with
    | error e => rfl
    | ok found =>
      obtain ⟨place, _ | _⟩ := found
      · rfl
      · simp only [Except.map, FileTree.mapFound, Entry.map, FileTree.filesBelow_mapFiles]
  rw [collect, collect, htarget]

end Targets

/-- Every place holds a file, which its path leads to. -/
def Readable (tree : FileTree) (places : List Place) : Prop :=
  ∀ place ∈ places, ∃ content, tree.locate (FileTree.pathOf place) = .ok (place, .file content)

theorem Readable.mapFiles {tree : FileTree} {places : List Place} (h : Readable tree places)
    (f : Place → Text → Text) : Readable (tree.mapFiles f) places := by
  intro place hplace
  obtain ⟨content, hlocate⟩ := h place hplace
  refine ⟨f place content, ?_⟩
  rw [FileTree.locate_mapFiles, hlocate]
  rfl

section FormatAll
variable {p : FormatProgress} {place : Place} {places : List Place}

theorem formatOne_write (wf : p.tree.WellFormed) (readable : Readable p.tree [place]) :
    ∃ changed, formatOne true false p place =
      .ok { p with tree := p.tree.formatted [place], changed } := by
  obtain ⟨content, hlocate⟩ := readable place List.mem_cons_self
  have hentry := FileTree.mem_entries_of_entryAt? (wf.locate hlocate).2.2
  have hwritten : p.tree.formatted [place] = p.tree.writeAt place (formatScript content) := by
    rw [wf.writeAt hentry formatScript, FileTree.formatted]
    simp only [List.mem_singleton]
  simp only [formatOne, FileTree.readFile_of_locate hlocate, hwritten, bind, Except.bind]
  by_cases hsame : formatScript content = content
  · rw [if_neg (not_not.2 hsame), hsame, wf.writeAt_self hentry]
    exact ⟨p.changed, rfl⟩
  · rw [if_pos hsame]
    exact ⟨p.changed + 1, rfl⟩

theorem formatAll_write (wf : p.tree.WellFormed) (readable : Readable p.tree places) :
    ∃ changed, formatAll true false p places =
      ({ p with tree := p.tree.formatted places, changed }, none) := by
  induction places generalizing p with
  | nil =>
    have hnone : p.tree.formatted [] = p.tree := by
      simp only [FileTree.formatted, List.not_mem_nil, if_false, FileTree.mapFiles_self]
    rw [hnone]
    exact ⟨p.changed, rfl⟩
  | cons place rest ih =>
    obtain ⟨hplace, hrest⟩ := List.forall_mem_cons.1 readable
    obtain ⟨changed, hone⟩ := formatOne_write wf (List.forall_mem_singleton.2 hplace)
    let next : FormatProgress := { p with tree := p.tree.formatted [place], changed }
    have hwf : next.tree.WellFormed := wf.formatted [place]
    have hreadable : Readable next.tree rest := Readable.mapFiles hrest _
    obtain ⟨changed', hall⟩ := ih hwf hreadable
    refine ⟨changed', ?_⟩
    rw [formatAll, hone, ← p.tree.formatted_cons place rest]
    exact hall

theorem formatAll_check (hnone : p.changed = 0)
    (h : ∀ place ∈ places, ∃ content,
      p.tree.readFile (FileTree.pathOf place) = .ok content ∧ formatScript content = content) :
    formatAll false true p places = (p, none) := by
  induction places with
  | nil => rw [formatAll, hnone]; rfl
  | cons place rest ih =>
    obtain ⟨⟨content, hread, hsame⟩, hrest⟩ := List.forall_mem_cons.1 h
    have hone : formatOne false true p place = .ok p := by
      simp only [formatOne, hread, bind, Except.bind, hsame, if_neg (not_not.2 rfl)]
      rfl
    rw [formatAll, hone]
    exact ih hrest

end FormatAll

/-- The arguments ask the format command to write or to check the given targets. -/
def Asks (args : List Text) (write check : Bool) (targets : List Text) : Prop :=
  ∃ o, Options.parse formatOptions {} args = .ok o ∧ o.isSet "w" = write ∧
    o.isSet "check" = check ∧ o.arguments = targets

theorem asks_write (targets : List Text) : Asks ("-w" :: "--" :: targets) true false targets := by
  have hread : Options.readArgument "-w" = .option ⟨"w", none⟩ := rfl
  refine ⟨{ switches := [("w", true)], arguments := targets }, ?_, rfl, rfl, rfl⟩
  rw [Options.parse, hread]
  rfl

theorem asks_check (targets : List Text) :
    Asks ("-check" :: "--" :: targets) false true targets := by
  have hread : Options.readArgument "-check" = .option ⟨"check", none⟩ := rfl
  refine ⟨{ switches := [("check", true)], arguments := targets }, ?_, rfl, rfl, rfl⟩
  rw [Options.parse, hread]
  rfl

theorem format_of_asks {tree : FileTree} {args targets : List Text} {write check : Bool}
    {places : List Place} (asks : Asks args write check targets) (given : targets ≠ [])
    (h : collect tree targets = .ok places) :
    format tree args =
      { tree := (formatAll write check { tree } places).1.tree
        stdout := (formatAll write check { tree } places).1.printed.reverse.flatten
        error := (formatAll write check { tree } places).2 } := by
  obtain ⟨o, hparse, rfl, rfl, rfl⟩ := asks
  simp only [format, hparse, if_neg given, h]

section Rewriting
variable {tree : FileTree} {targets : List Text} {places : List Place}

theorem format_write {args : List Text} (wf : tree.WellFormed) (asks : Asks args true false targets)
    (given : targets ≠ []) (h : collect tree targets = .ok places)
    (readable : Readable tree places) : format tree args = { tree := tree.formatted places } := by
  obtain ⟨changed, hall⟩ := formatAll_write (p := { tree }) wf readable
  rw [format_of_asks asks given h, hall]
  rfl

theorem format_check {args : List Text} (asks : Asks args false true targets)
    (given : targets ≠ []) (h : collect tree targets = .ok places)
    (readable : Readable tree places) :
    format (tree.formatted places) args = { tree := tree.formatted places } := by
  have hcollect : collect (tree.formatted places) targets = .ok places := by
    rw [FileTree.formatted, collect_mapFiles, h]
  have hclean : ∀ place ∈ places, ∃ content,
      (tree.formatted places).readFile (FileTree.pathOf place) = .ok content ∧
        formatScript content = content := by
    intro place hplace
    obtain ⟨content, hlocate⟩ := readable place hplace
    have hfound : (tree.formatted places).locate (FileTree.pathOf place) =
        .ok (place, .file (formatScript content)) := by
      rw [FileTree.formatted, FileTree.locate_mapFiles, hlocate]
      simp [Except.map, FileTree.mapFound, Entry.map, hplace]
    exact ⟨formatScript content, FileTree.readFile_of_locate hfound,
      formatScript_of_canonical (canonical_formatScript content)⟩
  have hall := formatAll_check (p := { tree := tree.formatted places }) rfl hclean
  rw [format_of_asks asks given hcollect, hall]
  rfl

/-- A target that names nothing new: it leads where another one leads, or to a script below a
directory that another one names. -/
def Repeats (tree : FileTree) (targets : List Text) (t : Text) : Prop :=
  ∃ s ∈ targets, tree.locate t = tree.locate s ∨
    ∃ dir place content, tree.locate s = .ok (dir, .directory) ∧
      tree.locate t = .ok (place, .file content) ∧ dir <+: place ∧
      Settings.default.hasExtension (FileTree.pathOf place) = true

theorem names_congr {t s : Text} (h : tree.locate t = tree.locate s) {place : Place}
    (hnames : Names tree t place) : Names tree s place := by
  cases hnames with
  | file located => exact .file (h ▸ located)
  | below located entry inside extension => exact .below (h ▸ located) entry inside extension

theorem Repeats.exists_names (wf : tree.WellFormed) {t : Text} (h : Repeats tree targets t)
    {place : Place} (hnames : Names tree t place) : ∃ s ∈ targets, Names tree s place := by
  obtain ⟨s, hs, hsame | ⟨dir, q, content, hdir, hfile, hinside, hextension⟩⟩ := h
  · exact ⟨s, hs, names_congr hsame hnames⟩
  · have hplace : place = q := by
      cases hnames with
      | file located =>
        rw [hfile] at located
        cases located
        rfl
      | below located =>
        rw [hfile] at located
        cases located
    subst hplace
    have hentry := FileTree.mem_entries_of_entryAt? (wf.locate hfile).2.2
    exact ⟨s, hs, .below hdir hentry hinside hextension⟩

theorem readable_collect (wf : tree.WellFormed) (h : collect tree targets = .ok places)
    (hread : ∀ place ∈ places, ∃ content,
      tree.readFile (FileTree.pathOf place) = .ok content) : Readable tree places := by
  intro place hplace
  obtain ⟨t, -, hnames⟩ := (mem_collect wf h).1 hplace
  obtain ⟨content, hcontent⟩ := hread place hplace
  exact ⟨content, wf.readFile_pathOf (isName_of_names wf hnames) hcontent⟩

end Rewriting

/-- Writing converges at once and touches nothing else. Let targets be given that exist and whose
scripts can be read. Writing gives each script that they name its formatted text, and leaves every
other place and the working directory as they are; it prints nothing and succeeds. A check of the
same targets then prints nothing, changes nothing and succeeds. Writing does the very same for
targets in another order, given several times or spelled otherwise, also if a script is named both
by itself and by a directory it lies below. -/
theorem rewriting_converges {tree : FileTree} (wf : tree.WellFormed) {args targets : List Text}
    (asks : Asks args true false targets) (given : targets ≠ [])
    (exist : ∀ t ∈ targets, ∃ found, tree.locate t = .ok found)
    (readable : ∀ places, collect tree targets = .ok places → ∀ place ∈ places, ∃ content,
      tree.readFile (FileTree.pathOf place) = .ok content) :
    let result := format tree args
    (∃ places, collect tree targets = .ok places ∧
      (∀ place, place ∈ places ↔ ∃ t ∈ targets, Names tree t place) ∧
      (∀ place ∈ places, ∃ content, tree.entryAt? place = some (.file content) ∧
        result.tree.entryAt? place = some (.file (formatScript content))) ∧
      ∀ place ∉ places, result.tree.entryAt? place = tree.entryAt? place) ∧
    result = { tree := { tree with entries := result.tree.entries } } ∧
    (∀ args', Asks args' false true targets →
      format result.tree args' = { tree := result.tree }) ∧
    ∀ args' targets', Asks args' true false targets' →
      (∀ t ∈ targets, ∃ t' ∈ targets', tree.locate t' = tree.locate t) →
      (∀ t' ∈ targets', Repeats tree targets t') → format tree args' = result := by
  intro result
  obtain ⟨places, hplaces⟩ := exists_collect exist
  have hreadable : Readable tree places := readable_collect wf hplaces (readable places hplaces)
  have hresult : result = { tree := tree.formatted places } :=
    format_write wf asks given hplaces hreadable
  rw [hresult]
  refine ⟨⟨places, hplaces, fun place => mem_collect wf hplaces, fun place hplace => ?_,
    fun place hplace => ?_⟩, rfl, ?_, ?_⟩
  · obtain ⟨content, hlocate⟩ := hreadable place hplace
    have hentry := (wf.locate hlocate).2.2
    refine ⟨content, hentry, ?_⟩
    rw [FileTree.entryAt?_formatted, if_pos hplace, hentry]
    rfl
  · exact (FileTree.entryAt?_formatted tree places place).trans (if_neg hplace)
  · exact fun args' asks' => format_check asks' given hplaces hreadable
  · intro args' targets' asks' hkept hrepeats
    have hexist : ∀ t' ∈ targets', ∃ found, tree.locate t' = .ok found := by
      intro t' ht'
      obtain ⟨s, hs, hsame | ⟨dir, place, content, -, hfile, -⟩⟩ := hrepeats t' ht'
      · exact hsame ▸ exist s hs
      · exact ⟨_, hfile⟩
    have hgiven : targets' ≠ [] := by
      rintro rfl
      obtain ⟨t, ht⟩ := List.exists_mem_of_ne_nil targets given
      obtain ⟨t', ht', -⟩ := hkept t ht
      cases ht'
    obtain ⟨places', hplaces'⟩ := exists_collect hexist
    have hsame : places = places' := by
      refine collect_congr wf hplaces hplaces' fun place => ⟨?_, ?_⟩
      · rintro ⟨t, ht, hnames⟩
        obtain ⟨t', ht', hlocate⟩ := hkept t ht
        exact ⟨t', ht', names_congr hlocate.symm hnames⟩
      · rintro ⟨t', ht', hnames⟩
        exact (hrepeats t' ht').exists_names wf hnames
    subst hsame
    exact format_write wf asks' hgiven hplaces' hreadable

/-- Three scripts and notes. The scripts are named by a directory and by the path of the one beside
it; then one of those in the directory is named by its path as well, in a roundabout way. -/
theorem rewriting_converges_named_twice :
    let tree := FileTree.ofFiles "/work" [("a.esp", "let  int x = 1\r\n"),
      ("d/b.esp", "\techo  b  "), ("d/e/c.esp", "echo c\n"), ("d/notes.txt", " x ")]
    let targets : List Text := ["a.esp", "d"]
    let result := format tree ("-w" :: "--" :: targets)
    let place (names : List String) : Place := names.map Text.ofString
    tree.WellFormed ∧ collect tree targets =
      .ok [place ["work", "a.esp"], place ["work", "d", "b.esp"],
        place ["work", "d", "e", "c.esp"]] ∧
    result.tree.entryAt? (place ["work", "a.esp"]) = some (.file "let int x = 1\n") ∧
    result.tree.entryAt? (place ["work", "d", "notes.txt"]) = some (.file " x ") ∧
    format result.tree ("-check" :: "--" :: targets) = { tree := result.tree } ∧
    format tree ["-w", "--", "d", "d/e/../b.esp", "./a.esp", "d"] = result := by
  intro tree targets result place
  have wf : tree.WellFormed := by decide +kernel
  have given : targets ≠ [] := List.cons_ne_nil _ _
  have ha : tree.locate "a.esp" = .ok (place ["work", "a.esp"], .file "let  int x = 1\r\n") := by
    decide +kernel
  have hagain : tree.locate "./a.esp" = tree.locate "a.esp" := by decide +kernel
  have hb : tree.locate "d/e/../b.esp" =
      .ok (place ["work", "d", "b.esp"], .file "\techo  b  ") := by decide +kernel
  have hd : tree.locate "d" = .ok (place ["work", "d"], .directory) := by decide +kernel
  have exist : ∀ t ∈ targets, ∃ found, tree.locate t = .ok found :=
    List.forall_mem_cons.2 ⟨⟨_, ha⟩, List.forall_mem_singleton.2 ⟨_, hd⟩⟩
  have hplaces : collect tree targets = .ok [place ["work", "a.esp"], place ["work", "d", "b.esp"],
      place ["work", "d", "e", "c.esp"]] := by
    have hlists : targets.mapM (targetPlaces tree) = .ok [[place ["work", "a.esp"]],
        [place ["work", "d", "b.esp"], place ["work", "d", "e", "c.esp"]]] := by decide +kernel
    have hsorted : [place ["work", "a.esp"], place ["work", "d", "b.esp"],
        place ["work", "d", "e", "c.esp"]].Pairwise fun a b =>
          decide (FileTree.pathOf a ≤ FileTree.pathOf b) = true := by decide +kernel
    rw [collect, hlists]
    exact congrArg (Except.ok ∘ List.eraseDups) (List.mergeSort_of_pairwise hsorted)
  have readable : ∀ places, collect tree targets = .ok places → ∀ place ∈ places, ∃ content,
      tree.readFile (FileTree.pathOf place) = .ok content := by
    intro places h
    obtain rfl := Except.ok.inj (hplaces.symm.trans h)
    refine List.forall_mem_cons.2 ⟨⟨"let  int x = 1\r\n", by decide +kernel⟩, List.forall_mem_cons.2
      ⟨⟨"\techo  b  ", by decide +kernel⟩, List.forall_mem_singleton.2
        ⟨"echo c\n", by decide +kernel⟩⟩⟩
  obtain ⟨⟨places, h, -, hchanged, hkept⟩, -, hcheck, hagree⟩ :=
    rewriting_converges wf (asks_write targets) given exist readable
  obtain rfl := Except.ok.inj (hplaces.symm.trans h)
  refine ⟨wf, hplaces, ?_, ?_, hcheck _ (asks_check targets), hagree _ _ (asks_write _) ?_ ?_⟩
  · obtain ⟨content, hold, hnew⟩ := hchanged _ List.mem_cons_self
    have hcontent : tree.entryAt? (place ["work", "a.esp"]) =
        some (.file "let  int x = 1\r\n") := by decide +kernel
    obtain rfl := Entry.file.inj (Option.some.inj (hcontent.symm.trans hold))
    exact hnew
  · rw [hkept _ (by decide +kernel)]
    decide +kernel
  · exact List.forall_mem_cons.2 ⟨⟨"./a.esp", by simp, hagain⟩,
      List.forall_mem_singleton.2 ⟨"d", by simp, rfl⟩⟩
  · have hinside : place ["work", "d"] <+: place ["work", "d", "b.esp"] := ⟨_, rfl⟩
    refine List.forall_mem_cons.2 ⟨⟨"d", by simp [targets], .inl rfl⟩, List.forall_mem_cons.2
      ⟨⟨"d", by simp [targets], .inr ⟨_, _, _, hd, hb, hinside, by decide +kernel⟩⟩,
        List.forall_mem_cons.2 ⟨⟨"a.esp", by simp [targets], .inl hagain⟩,
          List.forall_mem_singleton.2 ⟨"d", by simp [targets], .inl rfl⟩⟩⟩⟩

/-- Without targets there is nothing to write, and a check then fails none the less. -/
theorem not_converges_without_targets :
    let tree := FileTree.ofFiles "/work" []
    tree.WellFormed ∧ (∀ t ∈ ([] : List Text), ∃ found, tree.locate t = .ok found) ∧
      Asks ["-w"] true false [] ∧ Asks ["-check"] false true [] ∧
      (format (format tree ["-w"]).tree ["-check"]).error ≠ none := by
  have hwrite : Options.parse formatOptions {} ["-w"] = .ok { switches := [("w", true)] } := by
    decide +kernel
  have hcheck : Options.parse formatOptions {} ["-check"] =
      .ok { switches := [("check", true)] } := by
    decide +kernel
  refine ⟨by decide +kernel, List.forall_mem_nil _, ⟨_, hwrite, rfl, rfl, rfl⟩,
    ⟨_, hcheck, rfl, rfl, rfl⟩, by decide +kernel⟩

end Command

end LineScript
