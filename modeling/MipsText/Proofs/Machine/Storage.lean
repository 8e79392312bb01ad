/-
# `MipsText.Proofs.Machine.Storage` — storage evolves in one direction

`Symbols.Evolves s s'` is a preorder on tables of labels.  What a run does to storage goes
along it: arrays are never made and never get shorter, strings are never lost, and an array
that disappears leaves a string behind.  A label never comes to stand for an array and a
string at once.  So what can be shown once can be shown for the rest of the run.
-/
import MipsText.Proofs.Machine.Transition
import MipsText.Proofs.Symbols

namespace MipsText

namespace Symbols

/-- `s.Evolves s'`: the tables `s` can become `s'` in the course of a run. -/
structure Evolves (s s' : Symbols) : Prop where
  lines : s'.lines = s.lines
  /-- No array is new, and none is shorter. -/
  words : ∀ (label : String) (words' : Array Word), s'.words[label]? = some words' →
    ∃ words : Array Word, s.words[label]? = some words ∧ words.size ≤ words'.size
  strings : ∀ label ∈ s.strings, label ∈ s'.strings
  /-- An array that is gone has become a string. -/
  replaced : ∀ label ∈ s.words, label ∉ s'.words → label ∈ s'.strings
  both : ∀ label ∈ s'.words, label ∈ s'.strings → label ∈ s.words ∧ label ∈ s.strings

section Evolves

variable {s s' s'' : Symbols}

@[refl] theorem Evolves.refl (s : Symbols) : Evolves s s where
  lines := rfl
  words := fun _ words h => ⟨words, h, Nat.le_refl _⟩
  strings := fun _ h => h
  replaced := fun _ h hnot => absurd h hnot
  both := fun _ hwords hstrings => ⟨hwords, hstrings⟩

theorem Evolves.trans (h : Evolves s s') (h' : Evolves s' s'') : Evolves s s'' := by
  refine ⟨h'.lines.trans h.lines, ?_, ?_, ?_, ?_⟩
  · intro label words'' hwords''
    obtain ⟨words', hwords', hsize'⟩ := h'.words label words'' hwords''
    obtain ⟨words, hwords, hsize⟩ := h.words label words' hwords'
    exact ⟨words, hwords, Nat.le_trans hsize hsize'⟩
  · intro label hlabel
    exact h'.strings label (h.strings label hlabel)
  · intro label hlabel hgone
    -- the array went in the first part of the run or in the second
    by_cases hmiddle : label ∈ s'.words
    · exact h'.replaced label hmiddle hgone
    · exact h'.strings label (h.replaced label hlabel hmiddle)
  · intro label hwords hstrings
    obtain ⟨hwords', hstrings'⟩ := h'.both label hwords hstrings
    exact h.both label hwords' hstrings'

theorem evolves_setWord (s : Symbols) (name : String) (i : Nat) (value : Word) :
    s.Evolves (s.setWord name i value) := by
  refine ⟨rfl, ?_, fun _ h => h, ?_, ?_⟩
  · intro label words' h
    rw [words_setWord] at h
    split at h
    · obtain ⟨words, hwords, rfl⟩ := Option.map_eq_some_iff.mp h
      exact ⟨words, hwords, size_le_size_putWord words i value⟩
    · exact ⟨words', h, Nat.le_refl _⟩
  · intro label h hnot
    rw [mem_words_setWord] at hnot
    exact absurd h hnot
  · intro label hwords hstrings
    rw [mem_words_setWord] at hwords
    exact ⟨hwords, hstrings⟩

theorem evolves_turnIntoString (s : Symbols) (name text : String) :
    s.Evolves (s.turnIntoString name text) := by
  refine ⟨rfl, ?_, ?_, ?_, ?_⟩
  · intro label words' h
    rw [words_turnIntoString] at h
    split at h
    · exact nomatch h
    · exact ⟨words', h, Nat.le_refl _⟩
  · intro label h
    rw [mem_strings_turnIntoString]
    exact Or.inr h
  · intro label h hnot
    rw [mem_words_turnIntoString] at hnot
    rw [mem_strings_turnIntoString]
    by_cases same : name = label
    · exact Or.inl same
    · exact absurd ⟨same, h⟩ hnot
  · intro label hwords hstrings
    rw [mem_words_turnIntoString] at hwords
    rw [mem_strings_turnIntoString] at hstrings
    exact ⟨hwords.2, hstrings.resolve_left hwords.1⟩

/-! ## Showing -/

theorem describe_ref_isOk {label : String} :
    (∃ text, s.describe (.ref label) = .ok text) ↔
      label ∈ s.lines ∨ label ∈ s.words ∨ label ∈ s.strings := by
  simp only [Std.ExtTreeMap.mem_iff_isSome_getElem?, describe]
  cases s.lines[label]? with
  | some line => simp
  | none =>
      cases s.words[label]? with
      | some words => simp
      | none =>
          cases s.strings[label]? with
          | some text => simp
          | none => simp

/-- What can be shown can be shown later as well. -/
theorem Evolves.describe_ref {label text : String} (h : Evolves s s')
    (htext : s.describe (.ref label) = .ok text) :
    ∃ text', s'.describe (.ref label) = .ok text' := by
  rw [describe_ref_isOk]
  rcases describe_ref_isOk.mp ⟨text, htext⟩ with hline | hwords | hstring
  · exact Or.inl (h.lines ▸ hline)
  · by_cases hkept : label ∈ s'.words
    · exact Or.inr (Or.inl hkept)
    · exact Or.inr (Or.inr (h.replaced label hwords hkept))
  · exact Or.inr (Or.inr (h.strings label hstring))

end Evolves

end Symbols

namespace Machine

/-! ## Steps and runs -/

theorem evolves_apply (m : Machine) (change : Change) :
    m.symbols.Evolves (m.apply change).symbols := by
  cases change with
  | store label i value => exact Symbols.evolves_setWord m.symbols label i value
  | tookString label text rest => exact Symbols.evolves_turnIntoString m.symbols label text
  | _ => exact Symbols.Evolves.refl m.symbols

theorem Stepped.evolves {m m' : Machine} {fault : Option Fault} (h : Stepped m m' fault) :
    m.symbols.Evolves m'.symbols := by
  cases h with
  | changed => exact evolves_apply m _
  | _ => exact Symbols.Evolves.refl m.symbols

/-- Storage only evolves forward.  From every machine on, the labels of lines stay; arrays
are neither made nor shortened; strings stay; an array that is gone has become a string; no
label comes to have both; and what can be shown stays so. -/
theorem run_evolves (m : Machine) (n : Nat) :
    m.symbols.Evolves (m.after n).symbols ∧
      ∀ label text, m.symbols.describe (.ref label) = .ok text →
        ∃ text', (m.after n).symbols.describe (.ref label) = .ok text' := by
  have hrun : m.symbols.Evolves (m.after n).symbols := by
    refine after_induction (P := fun m' => m.symbols.Evolves m'.symbols) (.refl _) ?_ n
    intro m' hm'
    exact hm'.trans (stepped m').evolves
  refine ⟨hrun, ?_⟩
  intro label text htext
  exact hrun.describe_ref htext

/-- An array that is first made longer by a store and then replaced by a string that is
read can be shown at every point. -/
theorem run_evolves_replaced :
    let source := Stream.ofString
      ".data\na: .word 1\n.text\nla $a0, a\nsw $v0, 4($a0)\nli $v0, 8\nli $a1, 9\nsyscall\n"
    let p := (Assembly.ofLines source.lines).program
    let m := (start p .strict (Stream.ofString "text\n") none).after
    (m 0).symbols.words["a"]? = some #[1] ∧ (m 2).symbols.words["a"]? = some #[1, 0] ∧
      "a" ∉ (m 5).symbols.words ∧ "a" ∈ (m 5).symbols.strings ∧
      ∃ text, (m 5).symbols.describe (.ref "a") = .ok text := by
  intro source p m
  obtain ⟨hfirst, hgrown, hgone⟩ : (m 0).symbols.words["a"]? = some #[1] ∧
      (m 2).symbols.words["a"]? = some #[1, 0] ∧ "a" ∉ (m 5).symbols.words := by
    decide +kernel
  have hlater : m 5 = (m 2).after 3 := after_add _ 2 3
  -- from here on the runs are not to be evaluated again
  clear_value m
  have hheld : "a" ∈ (m 2).symbols.words := by
    rw [Std.ExtTreeMap.mem_iff_isSome_getElem?, hgrown]
    rfl
  obtain ⟨text, htext⟩ := Symbols.describe_ref_isOk.mpr (Or.inr (Or.inl hheld))
  obtain ⟨hevolves, hshows⟩ := run_evolves (m 2) 3
  rw [← hlater] at hevolves hshows
  exact ⟨hfirst, hgrown, hgone, hevolves.replaced "a" hheld hgone, hshows "a" text htext⟩

end Machine

end MipsText
