import LineScript.FileTree
import LineScript.Proofs.Lines

/-! Where a path leads by its spelling. Its elements are followed one by one from the root or from
the working directory, and the shortest spelling of an absolute path is the path of that place. -/

namespace LineScript

/-- What can stand for an element of a place: a name that says neither to stay nor to go back. -/
structure IsName (name : Text) : Prop where
  nonempty : name ≠ []
  not_dot : name ≠ "."
  not_dots : name ≠ ".."
  slash : Text.slash ∉ name

instance (name : Text) : Decidable (IsName name) :=
  decidable_of_iff (name ≠ [] ∧ name ≠ "." ∧ name ≠ ".." ∧ Text.slash ∉ name)
    ⟨fun h => ⟨h.1, h.2.1, h.2.2.1, h.2.2.2⟩, fun h => ⟨h.nonempty, h.not_dot, h.not_dots, h.slash⟩⟩

/-- The place that one more element of a path leads to. -/
def descend (place : Place) (element : Text) : Place :=
  if element = [] ∨ element = "." then place
  else if element = ".." then place.dropLast
  else place ++ [element]

section Descend
variable {place : Place} {elements : List Text}

theorem descend_of_isName {name : Text} (h : IsName name) :
    descend place name = place ++ [name] := by
  rw [descend, if_neg (not_or.2 ⟨h.nonempty, h.not_dot⟩), if_neg h.not_dots]

theorem foldl_descend_of_isName (h : ∀ name ∈ elements, IsName name) :
    elements.foldl descend place = place ++ elements := by
  induction elements generalizing place with
  | nil => exact (List.append_nil place).symm
  | cons name rest ih =>
    obtain ⟨hname, hrest⟩ := List.forall_mem_cons.1 h
    rw [List.foldl_cons, descend_of_isName hname, ih hrest, List.append_assoc]
    rfl

theorem foldl_descend_filter :
    (elements.filter (· ≠ [])).foldl descend place = elements.foldl descend place := by
  induction elements generalizing place with
  | nil => rfl
  | cons element rest ih =>
    by_cases helement : element = []
    · have hstay : descend place element = place := if_pos (.inl helement)
      rw [List.filter_cons_of_neg (by simp [helement]), List.foldl_cons, hstay, ih]
    · rw [List.filter_cons_of_pos (by simp [helement]), List.foldl_cons, List.foldl_cons, ih]

theorem isName_of_mem_descend (hplace : ∀ name ∈ place, IsName name) {element : Text}
    (helement : Text.slash ∉ element) : ∀ name ∈ descend place element, IsName name := by
  intro name hname
  unfold descend at hname
  split_ifs at hname with hstay hback
  · exact hplace name hname
  · exact hplace name (List.dropLast_subset _ hname)
  · rcases List.mem_append.1 hname with hold | hnew
    · exact hplace name hold
    · obtain rfl := List.mem_singleton.1 hnew
      obtain ⟨hempty, hdot⟩ := not_or.1 hstay
      exact ⟨hempty, hdot, hback, helement⟩

theorem isName_of_mem_foldl_descend (hplace : ∀ name ∈ place, IsName name)
    (helements : ∀ element ∈ elements, Text.slash ∉ element) :
    ∀ name ∈ elements.foldl descend place, IsName name := by
  induction elements generalizing place with
  | nil => exact hplace
  | cons element rest ih =>
    obtain ⟨helement, hrest⟩ := List.forall_mem_cons.1 helements
    exact ih (isName_of_mem_descend hplace helement) hrest

end Descend

theorem splitOn_append_slash (a b : Text) :
    (a ++ Text.slash :: b).splitOn Text.slash = a.splitOn Text.slash ++ b.splitOn Text.slash :=
  List.splitOnP_append_cons _ _ rfl

namespace FileTree

/-- A place is read back from its path. -/
theorem placeOf_pathOf {place : Place} (h : ∀ name ∈ place, IsName name) :
    placeOf (pathOf place) = place := by
  have hsplit : (pathOf place).splitOn Text.slash =
      [] :: (Text.joinWith [Text.slash] place).splitOn Text.slash :=
    splitOn_append_slash [] _
  have hnames : place.filter (· ≠ []) = place :=
    List.filter_eq_self.2 fun name hname => decide_eq_true (h name hname).nonempty
  rw [placeOf, hsplit]
  cases place with
  | nil => rfl
  | cons name rest =>
    rw [Text.joinWith, List.splitOn_intercalate _ (fun name hname => (h name hname).slash)
      (List.cons_ne_nil name rest), List.filter_cons_of_neg (by simp), hnames]

end FileTree

namespace Path

theorem push_dots {stack : List Text} (h : ∀ top ∈ stack, top ≠ "..") :
    push true stack ".." = stack.tail := by
  cases stack with
  | nil => rfl
  | cons top rest =>
    have htop := h top List.mem_cons_self
    exact if_neg htop

/-- Elements on a stack are those of a place, last first, as long as the stack holds no double
dots. -/
theorem push_rooted {stack : List Text} (h : ∀ top ∈ stack, top ≠ "..") (element : Text) :
    (push true stack element).reverse = descend stack.reverse element ∧
      ∀ top ∈ push true stack element, top ≠ ".." := by
  by_cases hback : element = ".."
  · subst hback
    rw [push_dots h]
    exact ⟨List.dropLast_reverse.symm, fun top htop => h top (List.mem_of_mem_tail htop)⟩
  · simp only [push, descend, if_neg hback]
    split
    · exact ⟨rfl, h⟩
    · exact ⟨List.reverse_cons, List.forall_mem_cons.2 ⟨hback, h⟩⟩

theorem reverse_foldl_push {stack : List Text} (h : ∀ top ∈ stack, top ≠ "..")
    (elements : List Text) :
    (elements.foldl (push true) stack).reverse = elements.foldl descend stack.reverse := by
  induction elements generalizing stack with
  | nil => rfl
  | cons element rest ih =>
    obtain ⟨hpush, hnext⟩ := push_rooted h element
    rw [List.foldl_cons, List.foldl_cons, ih hnext, hpush]

theorem clean_of_isAbsolute {p : Text} (h : isAbsolute p = true) :
    clean p = FileTree.pathOf ((p.splitOn Text.slash).foldl descend []) := by
  have helements := reverse_foldl_push (List.forall_mem_nil _) (p.splitOn Text.slash)
  simp only [clean, h, if_true, helements]
  rfl

/-- An absolute path leads from the root, and any other from the working directory, which is the
place that its own path leads to. -/
theorem placeOf_absolute {w : Text} (hw : isAbsolute w = true)
    (hnames : ∀ name ∈ FileTree.placeOf w, IsName name) (p : Text) :
    FileTree.placeOf (absolute w p) = (p.splitOn Text.slash).foldl descend
      (if isAbsolute p then [] else FileTree.placeOf w) := by
  have hslash (t : Text) : ∀ element ∈ t.splitOn Text.slash, Text.slash ∉ element :=
    fun _ => Lines.not_mem_of_mem_splitOn
  unfold absolute
  split
  · rename_i hp
    rw [clean_of_isAbsolute hp]
    exact FileTree.placeOf_pathOf (isName_of_mem_foldl_descend (List.forall_mem_nil _) (hslash p))
  · have hcat : Text.cat [w, "/", p] = w ++ Text.slash :: p := by
      rw [Text.cat, List.flatten_cons, List.flatten_cons, List.flatten_singleton]
      rfl
    have hjoined : isAbsolute (Text.cat [w, "/", p]) = true := by
      cases w with
      | nil => exact absurd hw (by decide)
      | cons b rest => exact hw
    have hfrom : (w.splitOn Text.slash).foldl descend [] = FileTree.placeOf w := by
      rw [← foldl_descend_filter]
      exact foldl_descend_of_isName hnames
    rw [join, clean_of_isAbsolute hjoined, hcat, splitOn_append_slash, List.foldl_append, hfrom]
    exact FileTree.placeOf_pathOf (isName_of_mem_foldl_descend hnames (hslash p))

end Path

end LineScript
