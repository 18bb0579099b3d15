import LineScript.Proofs.Path
import LineScript.Settings

/-! Which scripts the configured extensions let pass. A path is compared by what its last element
ends in from its last dot on, so that an entry with a further dot or with a slash is in the settings
and in the message, but it is the extension of no path. -/

namespace LineScript

/-- What can be the extension of a path: a dot and no further dot, and no slash. -/
def IsExtension (e : Text) : Prop :=
  ∃ tail, e = Text.dot :: tail ∧ Text.dot ∉ tail ∧ Text.slash ∉ tail

section BehindLast
variable {separator : UInt8} {front tail : Text}

/-- A text has no separator, or there is a last one. -/
theorem exists_last_of_mem {t : Text} (h : separator ∈ t) :
    ∃ front tail, t = front ++ separator :: tail ∧ separator ∉ tail := by
  obtain ⟨tail, front, hsplit, htail⟩ := List.eq_append_cons_of_mem (List.mem_reverse.2 h)
  refine ⟨front.reverse, tail.reverse, ?_, fun hmem => htail (List.mem_reverse.1 hmem)⟩
  rw [← List.reverse_reverse t, hsplit]
  simp

theorem behindLast_append (h : separator ∉ tail) :
    ((front ++ tail).reverse.takeWhile (· != separator)).reverse =
      (front.reverse.takeWhile (· != separator)).reverse ++ tail := by
  have hpass : ∀ b ∈ tail.reverse, (b != separator) = true := fun b hb =>
    bne_iff_ne.2 fun hsame => h (hsame ▸ List.mem_reverse.1 hb)
  rw [List.reverse_append, List.takeWhile_append_of_pos hpass, List.reverse_append,
    List.reverse_reverse]

theorem behindLast_of_notMem {t : Text} (h : separator ∉ t) :
    (t.reverse.takeWhile (· != separator)).reverse = t := by
  rw [← List.nil_append t, behindLast_append h]
  rfl

theorem behindLast_append_cons (h : separator ∉ tail) :
    ((front ++ separator :: tail).reverse.takeWhile (· != separator)).reverse = tail := by
  have hfront : (front ++ [separator]).reverse.takeWhile (· != separator) = [] := by simp
  rw [List.append_cons, behindLast_append h, hfront]
  rfl

end BehindLast

namespace Path

theorem slash_notMem_lastElement (p : Text) : Text.slash ∉ lastElement p := by
  intro h
  have hpass := List.mem_takeWhile_imp (List.mem_reverse.1 h)
  exact absurd hpass (by simp)

theorem lastElement_append {front tail : Text} (h : Text.slash ∉ tail) :
    lastElement (front ++ tail) = lastElement front ++ tail := behindLast_append h

theorem lastElement_of_notMem {p : Text} (h : Text.slash ∉ p) : lastElement p = p :=
  behindLast_of_notMem h

theorem lastElement_append_cons_of_notMem {front tail : Text} (h : Text.slash ∉ tail) :
    lastElement (front ++ Text.slash :: tail) = tail := behindLast_append_cons h

theorem lastElement_append_cons (front rest : Text) :
    lastElement (front ++ Text.slash :: rest) = lastElement rest := by
  by_cases h : Text.slash ∈ rest
  · obtain ⟨middle, tail, rfl, htail⟩ := exists_last_of_mem h
    have hlonger : front ++ Text.slash :: (middle ++ Text.slash :: tail) =
        (front ++ Text.slash :: middle) ++ Text.slash :: tail := by simp
    rw [hlonger, lastElement_append_cons_of_notMem htail, lastElement_append_cons_of_notMem htail]
  · rw [lastElement_append_cons_of_notMem h, lastElement_of_notMem h]

theorem splitOn_eq_concat (p : Text) :
    ∃ elements, p.splitOn Text.slash = elements ++ [lastElement p] := by
  by_cases h : Text.slash ∈ p
  · obtain ⟨front, tail, rfl, htail⟩ := exists_last_of_mem h
    refine ⟨front.splitOn Text.slash, ?_⟩
    rw [splitOn_append_slash, lastElement_append_cons_of_notMem htail,
      List.splitOn_eq_singleton htail]
  · exact ⟨[], by rw [lastElement_of_notMem h, List.splitOn_eq_singleton h]; rfl⟩

theorem push_of_isName {name : Text} (h : IsName name) (rooted : Bool) (stack : List Text) :
    push rooted stack name = name :: stack := by
  unfold push
  rw [if_neg (not_or.2 ⟨h.nonempty, h.not_dot⟩), if_neg h.not_dots]

theorem lastElement_joinWith {name : Text} (h : Text.slash ∉ name) (elements : List Text) :
    lastElement (Text.joinWith [Text.slash] (elements ++ [name])) = name := by
  induction elements with
  | nil =>
    rw [List.nil_append, Text.joinWith, List.intercalate_singleton, lastElement_of_notMem h]
  | cons element rest ih =>
    rw [List.cons_append, Text.joinWith, List.intercalate_cons_of_ne_nil (by simp),
      List.append_assoc]
    exact (lastElement_append_cons ..).trans ih

/-- A name at the end of a path is kept in the shortest spelling. -/
theorem lastElement_clean {p : Text} (h : IsName (lastElement p)) :
    lastElement (clean p) = lastElement p := by
  obtain ⟨elements, hsplit⟩ := splitOn_eq_concat p
  have hstack (rooted : Bool) : ((p.splitOn Text.slash).foldl (push rooted) []).reverse =
      (elements.foldl (push rooted) []).reverse ++ [lastElement p] := by
    rw [hsplit, List.foldl_append, List.foldl_cons, List.foldl_nil, push_of_isName h,
      List.reverse_cons]
  have hjoined := lastElement_joinWith h.slash (elements.foldl (push (isAbsolute p)) []).reverse
  simp only [clean, hstack]
  split
  · exact (lastElement_append_cons [] _).trans hjoined
  · rw [if_neg]
    · exact hjoined
    · intro hnothing
      rw [hnothing] at hjoined
      exact h.nonempty hjoined.symm

/-- The path of a name in a directory. Without a directory the name stands alone. -/
def within (dir name : Text) : Text := if dir = [] then clean name else join dir name

theorem lastElement_within {name : Text} (h : IsName (lastElement name)) (dir : Text) :
    lastElement (within dir name) = lastElement name := by
  unfold within
  split
  · exact lastElement_clean h
  · have hcat : Text.cat [dir, "/", name] = dir ++ Text.slash :: name := by
      rw [Text.cat, List.flatten_cons, List.flatten_cons, List.flatten_singleton]
      rfl
    have hlast := lastElement_append_cons dir name
    rw [join, hcat, lastElement_clean (hlast ▸ h), hlast]

theorem extension_congr {p q : Text} (h : lastElement p = lastElement q) :
    extension p = extension q := by
  rw [extension, extension, h]

theorem extension_of_notMem {p : Text} (h : Text.dot ∉ lastElement p) : extension p = [] := by
  rw [extension, behindLast_of_notMem h]
  exact if_pos rfl

theorem extension_of_last {p front tail : Text} (hlast : lastElement p = front ++ Text.dot :: tail)
    (htail : Text.dot ∉ tail) : extension p = Text.dot :: tail := by
  rw [extension, hlast, behindLast_append_cons htail]
  refine if_neg ?_
  rw [List.length_append, List.length_cons]
  omega

/-- The extension of a path is an entry if the last element ends in it and nothing in the entry
cuts it short. -/
theorem extension_eq_iff {p e : Text} (he : e ≠ []) :
    extension p = e ↔ IsExtension e ∧ e <:+ lastElement p := by
  constructor
  · rintro rfl
    by_cases h : Text.dot ∈ lastElement p
    · obtain ⟨front, tail, hlast, htail⟩ := exists_last_of_mem h
      have hslash : Text.slash ∉ tail := fun hmem =>
        slash_notMem_lastElement p (by rw [hlast]; simp [hmem])
      rw [extension_of_last hlast htail]
      exact ⟨⟨tail, rfl, htail, hslash⟩, front, hlast.symm⟩
    · exact absurd (extension_of_notMem h) he
  · rintro ⟨⟨tail, rfl, htail, -⟩, front, hlast⟩
    exact extension_of_last hlast.symm htail

/-- What stands before a dot does not count. -/
theorem extension_append {e : Text} (he : e.head? = some Text.dot) (stem : Text) :
    extension (stem ++ e) = extension e := by
  by_cases hslash : Text.slash ∈ e
  · obtain ⟨front, tail, rfl, htail⟩ := exists_last_of_mem hslash
    apply extension_congr
    rw [← List.append_assoc, lastElement_append_cons, lastElement_append_cons]
  · obtain ⟨front, tail, rfl, htail⟩ := exists_last_of_mem (List.mem_of_head? he)
    have hlast : lastElement (stem ++ (front ++ Text.dot :: tail)) =
        (lastElement stem ++ front) ++ Text.dot :: tail := by
      rw [lastElement_append hslash, List.append_assoc]
    rw [extension_of_last hlast htail, extension_of_last (lastElement_of_notMem hslash) htail]

end Path

namespace Settings

theorem head?_normalizeExtension {t e : Text} (h : normalizeExtension t = .ok e) :
    e.head? = some Text.dot := by
  rw [normalizeExtension] at h
  split at h
  · exact absurd h (by simp)
  · obtain rfl := Except.ok.inj h
    split
    · assumption
    · rfl

theorem head?_of_mapM {entries exts : List Text} (h : entries.mapM normalizeExtension = .ok exts) :
    ∀ e ∈ exts, e.head? = some Text.dot := by
  induction entries generalizing exts with
  | nil =>
    obtain rfl := Except.ok.inj h
    exact List.forall_mem_nil _
  | cons t rest ih =>
    rw [List.mapM_cons] at h
    cases hfirst : normalizeExtension t with
    | error err => simp [hfirst, bind, Except.bind] at h
    | ok e =>
      cases hrest : rest.mapM normalizeExtension with
      | error err => simp [hfirst, hrest, bind, Except.bind] at h
      | ok others =>
        rw [hfirst, hrest] at h
        obtain rfl := Except.ok.inj h
        exact List.forall_mem_cons.2 ⟨head?_normalizeExtension hfirst, ih hrest⟩

/-- The entries of accepted settings all start with a dot. -/
theorem head?_of_validate {s s' : Settings} (h : s.validate = .ok s') :
    ∀ e ∈ s'.extensions, e.head? = some Text.dot := by
  rw [validate] at h
  generalize (if s.color = [] then (Text.ofString "auto") else s.color) = color at h
  split at h
  · split at h
    · rename_i exts hexts
      obtain rfl := Except.ok.inj h
      dsimp only
      split
      · exact List.forall_mem_singleton.2 (by decide)
      · exact head?_of_mapM hexts
    · exact absurd h (by simp)
  · exact absurd h (by simp)

theorem extensionError?_eq_none_iff {s : Settings} {path : Text} :
    s.extensionError? path = none ↔ Path.extension path ∈ s.extensions := by
  rw [extensionError?, hasExtension, ite_eq_left_iff, List.contains_iff_mem]
  simp

theorem extensionError?_of_notMem {s : Settings} {path : Text}
    (h : Path.extension path ∉ s.extensions) :
    s.extensionError? path = some ⟨path, s.extensions⟩ := by
  rw [extensionError?, hasExtension, if_neg]
  rwa [List.contains_iff_mem]

theorem extension_mem_iff {s : Settings} (dotted : ∀ e ∈ s.extensions, e.head? = some Text.dot)
    (path : Text) : Path.extension path ∈ s.extensions ↔
      ∃ e ∈ s.extensions, IsExtension e ∧ e <:+ Path.lastElement path := by
  have hne {e : Text} (he : e ∈ s.extensions) : e ≠ [] := by
    rintro rfl
    exact absurd (dotted [] he) (by simp)
  constructor
  · exact fun h => ⟨_, h, (Path.extension_eq_iff (hne h)).1 rfl⟩
  · rintro ⟨e, he, hends⟩
    rwa [(Path.extension_eq_iff (hne he)).2 hends]

end Settings

theorem IsExtension.isName_append {e stem : Text} (h : IsExtension e) (hne : stem ≠ [])
    (hslash : Text.slash ∉ stem) (hdots : stem ++ e ≠ "..") : IsName (stem ++ e) := by
  obtain ⟨tail, rfl, -, htail⟩ := h
  refine ⟨by simp, fun hdot => ?_, hdots, ?_⟩
  · obtain ⟨b, rest, rfl⟩ := List.exists_cons_of_ne_nil hne
    have hrest : rest ++ Text.dot :: tail = [] := (List.cons.inj hdot).2
    exact absurd hrest (by simp)
  · rw [List.mem_append, List.mem_cons, not_or, not_or]
    exact ⟨hslash, by decide, htail⟩

/-- Which scripts pass settings that were accepted, whatever they were decoded from: those whose last
element ends in an entry that can be an extension. A file that carries such an entry passes in every
directory, unless its name says to go back. Any other entry is the extension of no path, and a file
that carries it passes only if what the entry ends in from its last dot on is itself an entry. A file
that carries no entry is refused. -/
theorem extension_carried {raw s : Settings} (accepted : raw.validate = .ok s) :
    (∀ path, s.extensionError? path = none ↔
      ∃ e ∈ s.extensions, IsExtension e ∧ e <:+ Path.lastElement path) ∧
    (∀ e ∈ s.extensions, ∀ dir stem : Text, stem ≠ [] → Text.slash ∉ stem →
      (IsExtension e → stem ++ e ≠ ".." →
        s.extensionError? (Path.within dir (stem ++ e)) = none) ∧
      (¬ IsExtension e → (∀ path, Path.extension path ≠ e) ∧
        (IsName (Path.lastElement (stem ++ e)) →
          (s.extensionError? (Path.within dir (stem ++ e)) = none ↔
            Path.extension e ∈ s.extensions)))) ∧
    ∀ path, (∀ e ∈ s.extensions, ¬ e <:+ Path.lastElement path) →
      s.extensionError? path = some ⟨path, s.extensions⟩ := by
  have dotted := Settings.head?_of_validate accepted
  have hpasses (path : Text) := Settings.extension_mem_iff dotted path
  refine ⟨fun path => Settings.extensionError?_eq_none_iff.trans (hpasses path),
    fun e he dir stem hne hslash => ⟨fun hproper hdots => ?_, fun himproper => ⟨fun path hext => ?_,
      fun hname => ?_⟩⟩, fun path hnone => ?_⟩
  · have hname := hproper.isName_append hne hslash hdots
    have hlast := Path.lastElement_of_notMem hname.slash
    rw [Settings.extensionError?_eq_none_iff, hpasses,
      Path.lastElement_within (hlast.symm ▸ hname) dir, hlast]
    exact ⟨e, he, hproper, List.suffix_append ..⟩
  · have hdot := dotted e he
    exact himproper ((Path.extension_eq_iff (by rintro rfl; simp at hdot)).1 hext).1
  · rw [Settings.extensionError?_eq_none_iff,
      Path.extension_congr (Path.lastElement_within hname dir), Path.extension_append (dotted e he)]
  · refine Settings.extensionError?_of_notMem fun hmem => ?_
    obtain ⟨e, he, -, hends⟩ := (hpasses path).1 hmem
    exact hnone e he hends

/-- An entry with two dots lets files pass beside one that it ends in. -/
theorem extension_carried_archive :
    let raw : Settings := ⟨"auto", ["gz", " .tar.gz"], []⟩
    let s : Settings := ⟨"auto", [".gz", ".tar.gz"], []⟩
    raw.validate = .ok s ∧
      s.extensionError? (Path.within "d" "a.gz") = none ∧
      s.extensionError? (Path.within "d" "a.tar.gz") = none ∧
      s.extensionError? "d/a.tar" = some ⟨"d/a.tar", s.extensions⟩ := by
  intro raw s
  have accepted : raw.validate = .ok s := by decide +kernel
  obtain ⟨-, hcarried, hrefused⟩ := extension_carried accepted
  have hgz := hcarried ".gz" (by decide) "d" "a" (by decide) (by decide)
  have htar := hcarried ".tar.gz" (by decide) "d" "a" (by decide) (by decide)
  refine ⟨accepted, hgz.1 ⟨"gz", by decide⟩ (by decide), ?_, hrefused _ (by decide +kernel)⟩
  refine ((htar.2 ?_).2 (by decide +kernel)).2 (by decide +kernel)
  rintro ⟨tail, htail, hdot, -⟩
  exact hdot ((List.cons.inj htail).2 ▸ by decide)

/-- Settings accept an entry with two dots, and a file that carries it is refused for not carrying
it. -/
theorem not_extension_carried :
    let s : Settings := ⟨"auto", [".tar.gz"], []⟩
    let stem : Text := "a"
    s.validate = .ok s ∧
      (s.extensionError? (Path.within "d" (stem ++ ".tar.gz"))).map ExtensionError.message =
        some "script \"a.tar.gz\" must have extension .tar.gz" := by
  decide +kernel

end LineScript
