import LineScript.Proofs.Bindings
import LineScript.Proofs.Decimal.Layout
import LineScript.Proofs.Formatting
import LineScript.Proofs.Store

/-! Stores written as scripts. A value that can be declared is read back from its text under its
type, whatever it is: integers down to the least, every finite float, and strings without white
space, of which the empty one takes no field. Hence the declarations of a store, run in the order of
the names, make up the store again. -/

namespace LineScript

def FloatClass.isFinite : FloatClass → Bool
  | .finite _ _ => true
  | _ => false

namespace Value

/-- The type under which a value is declared. The empty value has none of its own, and what is
declared by its text is the empty string. -/
def declaredType : Value → DeclaredType
  | .int _ => .int
  | .float _ => .float
  | .bool _ => .boolean
  | .string _ => .string
  | .empty => .string

/-- Whether a declaration can give the value. -/
def IsDeclarable : Value → Prop
  | .empty => False
  | .int _ => True
  | .float f => (FloatClass.ofFloat f).isFinite = true
  | .bool _ => True
  | .string t => t.all (!Text.isSpace ·) = true

instance : DecidablePred IsDeclarable
  | .empty => inferInstanceAs (Decidable False)
  | .int _ => inferInstanceAs (Decidable True)
  | .float f => inferInstanceAs (Decidable ((FloatClass.ofFloat f).isFinite = true))
  | .bool _ => inferInstanceAs (Decidable True)
  | .string t => inferInstanceAs (Decidable (t.all (!Text.isSpace ·) = true))

/-- What can be declared is read back from its text. -/
theorem read_text {v : Value} (h : v.IsDeclarable) : v.declaredType.read v.text = .ok v := by
  cases v with
  | empty => exact absurd h id
  | int i =>
    have hends : ∀ b, ([] : Text).head? = some b → Text.isDigit b = false := by simp
    have hread := Literal.int_ofInt i hends
    rw [List.append_nil] at hread
    rw [declaredType, text, DeclaredType.read, hread]
    rfl
  | float f =>
    obtain ⟨negative, magnitude, hf⟩ :
        ∃ negative magnitude, FloatClass.ofFloat f = .finite negative magnitude := by
      have hfinite : (FloatClass.ofFloat f).isFinite = true := h
      cases hf : FloatClass.ofFloat f with
      | finite negative magnitude => exact ⟨negative, magnitude, rfl⟩
      | nan => simp [hf, FloatClass.isFinite] at hfinite
      | infinite negative => simp [hf, FloatClass.isFinite] at hfinite
    rw [declaredType, text, DeclaredType.read, Literal.float_write hf]
    rfl
  | bool b => cases b <;> rfl
  | string t => rfl

theorem isSpace_of_declarable {v : Value} (h : v.IsDeclarable) :
    ∀ b ∈ v.text, Text.isSpace b = false := by
  by_cases hstring : ∃ t, v = .string t
  · obtain ⟨t, rfl⟩ := hstring
    exact Text.isSpace_of_mem_of_all h
  · exact isSpace_of_mem_text fun t ht => hstring ⟨t, ht⟩

end Value

namespace Line

/-- The line that declares a name with the text of a value. -/
def declaring (name : Text) (v : Value) : Text :=
  Text.joinWith [0x20] ["let", v.declaredType.name, name, "=", v.text]

def opening (type : DeclaredType) (name : Text) : List Text := ["let", type.name, name, "="]

variable {name : Text} {v : Value}

theorem isWord_of_mem_opening (hname : name.IsWord) (type : DeclaredType) {word : Text}
    (h : word ∈ opening type name) : word.IsWord := by
  simp only [opening, List.mem_cons, List.not_mem_nil, or_false] at h
  rcases h with rfl | rfl | rfl | rfl
  · exact ⟨by decide, Text.isSpace_of_mem_of_all rfl⟩
  · cases type <;> exact ⟨by decide, Text.isSpace_of_mem_of_all rfl⟩
  · exact hname
  · exact ⟨by decide, Text.isSpace_of_mem_of_all rfl⟩

theorem isSpace_of_mem_declaring (hname : name.IsWord) (hv : v.IsDeclarable) :
    ∀ word ∈ opening v.declaredType name ++ [v.text], ∀ b ∈ word, Text.isSpace b = false := by
  refine List.forall_mem_append.2 ⟨fun word hword => ?_, List.forall_mem_singleton.2 ?_⟩
  · exact (isWord_of_mem_opening hname _ hword).isSpace
  · exact Value.isSpace_of_declarable hv

theorem classify_opening (type : DeclaredType) (name : Text) (more : List Text) :
    classify (Text.joinWith [0x20] (opening type name ++ more)) = .declaration := by
  have hlet : ("let" : Text) ∈ declarationKeywords := by decide
  rw [opening, List.cons_append, List.cons_append, joinWith_cons_cons, classify_keyword_append hlet]

/-- An empty text takes no field, and leaves only a blank at the end. -/
theorem trim_declaring (hname : name.IsWord) (hv : v.IsDeclarable) : ∃ more : List Text,
    (declaring name v).trim = Text.joinWith [0x20] (opening v.declaredType name ++ more) ∧
      fieldTexts (declaring name v).trim = opening v.declaredType name ++ more ∧
      v.text = more[0]?.getD [] := by
  have hspace := isSpace_of_mem_declaring hname hv
  have hopening : ∀ word ∈ opening v.declaredType name, word ≠ [] :=
    fun word hword => (isWord_of_mem_opening hname _ hword).ne_nil
  by_cases htext : v.text = []
  · have hwords : ∀ word ∈ opening v.declaredType name, ∀ b ∈ word, Text.isSpace b = false :=
      (List.forall_mem_append.1 hspace).1
    have hline : declaring name v =
        [] ++ Text.joinWith [0x20] (opening v.declaredType name) ++ [0x20] := by
      simp only [declaring, opening, htext, joinWith_cons_cons, joinWith_singleton,
        List.append_assoc, List.cons_append, List.nil_append]
    have htrim : (declaring name v).trim = Text.joinWith [0x20] (opening v.declaredType name) := by
      rw [hline, Text.trim_append (by simp) _ (by simp [Text.isBlank]),
        trim_joinWith hopening hwords]
    refine ⟨[], ?_, ?_, htext⟩
    · rw [htrim, List.append_nil]
    · rw [htrim, fieldTexts_joinWith hopening hwords, List.append_nil]
  · have hne : ∀ word ∈ opening v.declaredType name ++ [v.text], word ≠ [] :=
      List.forall_mem_append.2 ⟨hopening, List.forall_mem_singleton.2 htext⟩
    have htrim : (declaring name v).trim = declaring name v := trim_joinWith hne hspace
    refine ⟨[v.text], htrim, ?_, rfl⟩
    rw [htrim]
    exact fieldTexts_joinWith hne hspace

theorem declares_declaring (hname : name.IsWord) (hv : v.IsDeclarable) :
    Declares (declaring name v) v.declaredType name v.text := by
  obtain ⟨more, htrim, hfields, htext⟩ := trim_declaring hname hv
  have hlet : ("let" : Text) ∈ declarationKeywords := by decide
  refine ⟨?_, "let", hlet, "=" :: more, hfields, htext⟩
  rw [htrim, classify_opening]

theorem cr_not_mem_declaring (hname : name.IsWord) (hv : v.IsDeclarable) :
    Text.cr ∉ declaring name v := by
  intro hcr
  rcases mem_joinWith hcr with hblank | ⟨word, hword, hmem⟩
  · exact absurd hblank (by decide)
  · have hspace := isSpace_of_mem_declaring hname hv word hword Text.cr hmem
    exact absurd hspace (by decide)

end Line

namespace Store

def declarations (s : Store) : List Text := s.entries.map fun e => Line.declaring e.1 e.2

theorem assign_of_declares {raw name value : Text} {type : DeclaredType} {v : Value}
    (h : Line.Declares raw type name value) (hread : type.read value = .ok v) (s : Store) :
    s.assign raw.trim = .ok (s.set name v) := by
  obtain ⟨heffect, hname, hvalue⟩ := h.effect?
  simp only [assign, Declaration.run, heffect, hname, hvalue, hread]

end Store

namespace Session

theorem exec_of_declares (s : Session) (sink : Sink) {raw name value : Text} {type : DeclaredType}
    {v : Value} (h : Line.Declares raw type name value) (hread : type.read value = .ok v) :
    (s.exec sink raw).2 = none ∧ (s.exec sink raw).1.cancelled = s.cancelled ∧
      (s.exec sink raw).1.engine.store = s.engine.store.set name v := by
  have hassign := Store.assign_of_declares h hread (s.engine.count .declaration).store
  have hstep : s.engine.exec (sink.refusal s.attempts) raw = { engine :=
      { s.engine.count .declaration with store := s.engine.store.set name v } } := by
    rw [Engine.exec_declaration h.1, Engine.declare_of_ok hassign]
    rfl
  simp only [exec, hstep]
  exact ⟨trivial, trivial, trivial⟩

/-- Each declaration adds what it declares, and none of them writes anything that could fail. -/
theorem runLines_declaring {s : Session} (sink : Sink) {entries : List (Text × Value)}
    (h : ∀ e ∈ entries, e.1.IsWord ∧ e.2.IsDeclarable) (hs : s.cancelled = false) :
    (runLines sink s (entries.map fun e => Line.declaring e.1 e.2)).2 = none ∧
      (runLines sink s (entries.map fun e => Line.declaring e.1 e.2)).1.engine.store =
        s.engine.store.setAll entries := by
  induction entries generalizing s with
  | nil => exact ⟨rfl, rfl⟩
  | cons e rest ih =>
    obtain ⟨⟨hname, hvalue⟩, hrest⟩ := List.forall_mem_cons.1 h
    obtain ⟨hnone, hcancelled, hstore⟩ := s.exec_of_declares sink
      (Line.declares_declaring hname hvalue) (Value.read_text hvalue)
    obtain ⟨hpasses, hleft⟩ := ih hrest (hcancelled.trans hs)
    rw [List.map_cons, runLines_cons_of_none hs hnone]
    refine ⟨hpasses, ?_⟩
    rw [hleft, hstore]
    rfl

end Session

/-- Declarations serialise a store. A script that declares all that is bound, with the text of each
value and in the order of the names, passes on an engine without variables and leaves the same
store. The names have to be words, and the values integers, truth values, finite floats or strings
without white space. -/
theorem run_declarations {s : Store} (declarable : ∀ e ∈ s.entries, e.1.IsWord ∧ e.2.IsDeclarable)
    {t : Session} (fresh : t.engine.store = Store.empty) {script : Text}
    (declares : Lines.terminated script = s.declarations)
    (short : ∀ line ∈ s.declarations, line.length < t.engine.lineLimit) (sink : Sink) :
    let ran := t.run sink false script
    ran.2 = none ∧ ran.1.engine.store = s := by
  intro ran
  have hstrip : s.declarations.map Lines.strip = s.declarations := by
    refine (List.map_congr_left fun line hline => ?_).trans (List.map_id _)
    obtain ⟨e, he, rfl⟩ := List.mem_map.1 hline
    obtain ⟨hname, hvalue⟩ := declarable e he
    exact Lines.strip_of_not_mem (Line.cr_not_mem_declaring hname hvalue)
  have hrun : ran = Session.runLines sink (t.atStart false) s.declarations := by
    rw [← declares] at short
    have hlines := t.run_eq_runLines sink short
    rw [declares, hstrip] at hlines
    exact hlines
  obtain ⟨hpasses, hleft⟩ :=
    Session.runLines_declaring (s := t.atStart false) sink declarable rfl
  rw [hrun]
  refine ⟨hpasses, ?_⟩
  have hstart : (t.atStart false).engine.store = Store.empty := fresh
  rw [Store.declarations, hleft, hstart, Store.setAll_entries]

/-- The least integer, a zero with a sign, floats in both layouts and the least of all, a name that
reads as a number, and the empty string, whose line ends in a blank. -/
theorem run_declarations_least :
    let s : Store := .ofList [("i", .int Int64.minValue), ("7", .bool true),
      ("zero", .float (-0.0)), ("f", .float 2.5e-3), ("g", .float 1e23),
      ("least", .float (Float.ofBits 1)), ("none", .string []), ("s", .string "\x7bx\x7d=")]
    let t : Session :=
      { engine := { globals := Store.empty, lineLimit := 65536, store := Store.empty } }
    let script : Text := "let boolean 7 = true\nlet float f = 0.0025\nlet float g = 1e+23\n" ++
      "let int i = -9223372036854775808\nlet float least = 5e-324\nlet string none = \n" ++
      "let string s = \x7bx\x7d=\nlet float zero = -0\n"
    (∀ e ∈ s.entries, e.1.IsWord ∧ e.2.IsDeclarable) ∧ Lines.terminated script = s.declarations ∧
      (∀ line ∈ s.declarations, line.length < t.engine.lineLimit) ∧
      (t.run {} false script).2 = none ∧ (t.run {} false script).1.engine.store = s := by
  intro s t script
  have declarable : ∀ e ∈ s.entries, e.1.IsWord ∧ e.2.IsDeclarable := by decide +kernel
  have declares : Lines.terminated script = s.declarations := by decide +kernel
  have short : ∀ line ∈ s.declarations, line.length < t.engine.lineLimit := by
    rw [← declares]
    decide +kernel
  exact ⟨declarable, declares, short, run_declarations declarable rfl declares short {}⟩

end LineScript
