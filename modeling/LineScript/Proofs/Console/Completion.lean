import LineScript.Proofs.Console.Field
import LineScript.Proofs.Store
import LineScript.Proofs.Text.Words
import Mathlib.Data.List.Nodup
import Mathlib.Data.Set.Subsingleton

/-! Completion by the tab key. The words that can complete the last word of the input come from the
vocabulary and from the names of variables. A single one is put in place of the last word, and of
several a list is shown. A variable that is named like a word of the vocabulary counts twice, and
white space other than a blank behind the last word goes unnoticed. -/

namespace LineScript

namespace Console

/-- The words that complete a given one. -/
def candidates (s : Store) (word : Text) : Set Text :=
  {w | (w ∈ vocabulary ∨ w ∈ s.names) ∧ word <+: w}

theorem mem_completions (s : Store) (word w : Text) :
    w ∈ completions s word ↔ w ∈ candidates s word := by
  rw [completions, List.mem_filter, List.mem_append, List.isPrefixOf_iff_prefix]
  rfl

theorem candidates_of_completions {s : Store} {word only : Text}
    (h : completions s word = [only]) : candidates s word = {only} := by
  ext w
  rw [← mem_completions, h, List.mem_singleton, Set.mem_singleton_iff]

theorem filter_isPrefixOf {words : List Text} (nodup : words.Nodup) {word only : Text}
    (honly : word <+: only) (h : ∀ w ∈ words, word <+: w → w = only) :
    words.filter word.isPrefixOf = if only ∈ words then [only] else [] := by
  have hsame : words.filter word.isPrefixOf = words.filter (· == only) := by
    refine List.filter_congr fun w hw => ?_
    rw [Bool.eq_iff_iff, List.isPrefixOf_iff_prefix, beq_iff_eq]
    exact ⟨h w hw, fun heq => heq ▸ honly⟩
  rw [hsame, List.filter_beq, nodup.count]
  split_ifs <;> rfl

/-- A single word is found once in the vocabulary and once among the names. -/
theorem completions_of_unique {s : Store} {word only : Text} (h : candidates s word = {only}) :
    completions s word = if only ∈ vocabulary ∧ only ∈ s.names then [only, only] else [only] := by
  have hunique (w : Text) (hw : w ∈ candidates s word) : w = only := by
    rw [h] at hw
    exact hw
  obtain ⟨hfound, honly⟩ : only ∈ candidates s word := h ▸ Set.mem_singleton only
  have hvocabulary := filter_isPrefixOf (show vocabulary.Nodup by decide) honly
    fun w hw hprefix => hunique w ⟨.inl hw, hprefix⟩
  have hnames := filter_isPrefixOf s.nodup_names honly
    fun w hw hprefix => hunique w ⟨.inr hw, hprefix⟩
  rw [completions, List.filter_append, hvocabulary, hnames]
  by_cases hword : only ∈ vocabulary <;> by_cases hname : only ∈ s.names <;>
    simp_all

theorem dropSuffix_append (before word : Text) : dropSuffix (before ++ word) word = before := by
  have hends : word.isSuffixOf (before ++ word) = true :=
    List.isSuffixOf_iff_suffix.2 (List.suffix_append before word)
  rw [dropSuffix, if_pos hends, List.length_append, Nat.add_sub_cancel, List.take_left]

theorem dropSuffix_of_not_suffix {t word : Text} (h : ¬ word <:+ t) : dropSuffix t word = t := by
  rw [dropSuffix, if_neg (fun hends => h (List.isSuffixOf_iff_suffix.1 hends))]

/-- The input with its last word replaced by one that starts with it. Behind white space the last
word is not found, and the other one is put behind the whole input. -/
def completed (t word only : Text) : Text :=
  if Text.endsWhite t then t ++ only else t ++ only.drop word.length

theorem dropSuffix_append_eq {cs : List Char} {word only : Text}
    (last : (Text.words (Text.ofChars cs)).getLast? = some word) (h : word <+: only) :
    dropSuffix (Text.ofChars cs) word ++ only = completed (Text.ofChars cs) word only := by
  rw [completed]
  split_ifs with hwhite
  · rw [dropSuffix_of_not_suffix (Text.not_suffix_of_getLast?_words last hwhite)]
  · obtain ⟨before, hbefore⟩ := Text.suffix_of_getLast?_words last (by simpa using hwhite)
    obtain ⟨rest, rfl⟩ := h
    rw [← hbefore, dropSuffix_append, List.drop_left, List.append_assoc]

theorem complete_of_blank {c : Console} (h : c.field.text = [] ∨
    c.field.text.getLast? = some 0x20 ∨ Text.words c.field.text = []) : c.complete = c := by
  simp only [complete]
  cases hlast : (Text.words c.field.text).getLast? with
  | none => rfl
  | some word =>
    rcases h with hempty | hblank | hnone
    · have hnone : Text.words [] = [] := rfl
      rw [hempty, hnone] at hlast
      exact absurd hlast (by simp)
    · simp only [if_pos hblank]
    · rw [hnone] at hlast
      exact absurd hlast (by simp)

section Complete
variable {c : Console} {word : Text} (last : (Text.words c.field.text).getLast? = some word)
  (unblank : c.field.text.getLast? ≠ some 0x20)
include last unblank

theorem complete_of_none (h : candidates c.engine.store word = ∅) : c.complete = c := by
  have hfound : completions c.engine.store word = [] := by
    refine List.eq_nil_iff_forall_not_mem.2 fun w hw => ?_
    rw [mem_completions, h] at hw
    exact hw
  simp only [complete, last, if_neg unblank, hfound]

theorem complete_of_several {first second : Text} {rest : List Text}
    (h : completions c.engine.store word = first :: second :: rest) : c.complete =
      c.log { output := Text.cat ["Completions: ",
        Text.joinWith ", " (completions c.engine.store word)] } := by
  simp only [complete, last, if_neg unblank, h]

theorem complete_of_nontrivial (h : (candidates c.engine.store word).Nontrivial) : c.complete =
    c.log { output := Text.cat ["Completions: ",
      Text.joinWith ", " (completions c.engine.store word)] } := by
  obtain ⟨w, hw, w', hw', hne⟩ := h
  rw [← mem_completions] at hw hw'
  match hfound : completions c.engine.store word with
  | [] =>
    rw [hfound] at hw
    exact absurd hw List.not_mem_nil
  | [only] =>
    rw [hfound, List.mem_singleton] at hw hw'
    exact absurd (hw.trans hw'.symm) hne
  | first :: second :: rest => exact hfound ▸ complete_of_several last unblank hfound

variable {only : Text} (unique : candidates c.engine.store word = {only})
include unique

theorem complete_of_twice (h : only ∈ vocabulary ∧ only ∈ c.engine.store.names) : c.complete =
    c.log { output := Text.cat ["Completions: ", Text.joinWith ", " [only, only]] } := by
  have hfound := completions_of_unique unique
  rw [if_pos h] at hfound
  exact hfound ▸ complete_of_several last unblank hfound

theorem complete_of_once (h : ¬ (only ∈ vocabulary ∧ only ∈ c.engine.store.names)) :
    c.complete =
      { c with field := (c.field.setText (completed c.field.text word only)).moveToEnd } := by
  have hfound := completions_of_unique unique
  rw [if_neg h] at hfound
  have hprefix : word <+: only := (unique ▸ Set.mem_singleton only :
    only ∈ candidates c.engine.store word).2
  have htext : dropSuffix c.field.text word ++ only = completed c.field.text word only :=
    dropSuffix_append_eq last hprefix
  simp only [complete, last, if_neg unblank, hfound, htext]

end Complete

end Console

open Console

/-- Nothing happens at an empty input and behind a blank. Otherwise the last word of the input is
completed if there is one candidate, a list is shown if there are several, and nothing happens if
there is none. But a candidate that is both in the vocabulary and a variable is listed twice
instead, and behind white space other than a blank a candidate is added to the input in full. -/
theorem tab_completes (files : FileTree) (c : Console) :
    let t := c.field.text
    let tabbed := (c.update files (.key .tab)).1
    (t = [] ∨ t.getLast? = some 0x20 ∨ Text.words t = [] → tabbed = c) ∧
    (t ≠ [] → Text.endsWhite t = false → ∃ word, (Text.words t).getLast? = some word) ∧
    ∀ word, (Text.words t).getLast? = some word → t.getLast? ≠ some 0x20 →
      (candidates c.engine.store word = ∅ → tabbed = c) ∧
      ((candidates c.engine.store word).Nontrivial → ∃ several : List Text,
        (∀ w, w ∈ several ↔ w ∈ candidates c.engine.store word) ∧
        tabbed = c.log { output := Text.cat ["Completions: ", Text.joinWith ", " several] }) ∧
      ∀ only, candidates c.engine.store word = {only} →
        (only ∈ vocabulary ∧ only ∈ c.engine.store.names →
          tabbed = c.log
            { output := Text.cat ["Completions: ", Text.joinWith ", " [only, only]] }) ∧
        (¬ (only ∈ vocabulary ∧ only ∈ c.engine.store.names) →
          tabbed = { c with field := (c.field.setText (completed t word only)).moveToEnd } ∧
          (InputField.Holds (completed t word only) →
            tabbed.field.text = completed t word only)) := by
  intro t tabbed
  refine ⟨complete_of_blank, fun hne hopen => ?_, fun word last unblank =>
    ⟨complete_of_none last unblank, fun hseveral => ?_, fun only unique =>
      ⟨complete_of_twice last unblank unique, fun honce => ?_⟩⟩⟩
  · have hwords := Text.words_ne_nil_of_endsWhite hne hopen
    exact ⟨_, List.getLast?_eq_some_getLast hwords⟩
  · exact ⟨completions c.engine.store word, mem_completions _ word,
      complete_of_nontrivial last unblank hseveral⟩
  · have htabbed := complete_of_once last unblank unique honce
    refine ⟨htabbed, fun hholds => ?_⟩
    rw [show tabbed = _ from htabbed]
    exact hholds.text_setText c.field

/-- The last word of the input is completed by the name of a variable. -/
theorem tab_completes_greeting :
    let files : FileTree := ⟨"/", []⟩
    let e := { Console.start.engine with store := Store.empty.set "greeting" (.string "hi") }
    let c := { Console.start with engine := e, field := { value := "echo gree".toList } }
    candidates e.store "gree" = {Text.ofString "greeting"} ∧
      (c.update files (.key .tab)).1.field.text = Text.ofString "echo greeting" := by
  intro files e c
  have hcandidates : candidates e.store "gree" = {Text.ofString "greeting"} :=
    candidates_of_completions (by decide)
  have hwords : (Text.words c.field.text).getLast? = some "gree" := by decide +kernel
  have hcompleted : completed c.field.text "gree" "greeting" = Text.ofString "echo greeting" := by
    decide +kernel
  have hholds : InputField.Holds "echo greeting" :=
    ⟨by decide +kernel, by decide +kernel, by decide +kernel⟩
  have htab := ((((tab_completes files c).2.2 "gree" hwords (by decide)).2.2 "greeting"
    hcandidates).2 (by decide +kernel)).2
  rw [hcompleted] at htab
  exact ⟨hcandidates, htab hholds⟩

/-- The only candidate is listed twice if a variable has its name, and white space other than a
blank at the end does not keep the tab key from completing. -/
theorem not_completes_echo :
    let files : FileTree := ⟨"/", []⟩
    let e := { Console.start.engine with store := Store.empty.set "echo" (.int 1) }
    let c := { Console.start with engine := e, field := { value := "ech".toList } }
    let spaced := { Console.start with field := { value := ['e', 'c', 'h', '\u3000'] } }
    candidates e.store "ech" = {Text.ofString "echo"} ∧
      (c.update files (.key .tab)).1 =
        c.log { output := Text.ofString "Completions: echo, echo" } ∧
      Text.endsWhite spaced.field.text = true ∧
      (spaced.update files (.key .tab)).1.field.text =
        spaced.field.text ++ Text.ofString "echo" := by
  intro files e c spaced
  have hcandidates : candidates e.store "ech" = {Text.ofString "echo"} := by
    ext w
    rw [← mem_completions, show completions e.store "ech" = ["echo", "echo"] by decide]
    simp
  exact ⟨hcandidates, by decide +kernel, by decide +kernel, by decide +kernel⟩

end LineScript
