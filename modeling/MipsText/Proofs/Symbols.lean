/-
# `MipsText.Proofs.Symbols` — looking labels up after a change

Every change to the tables is seen through look-ups alone: what the changed label
stands for now, and that no other label is touched.
-/
import MipsText.Symbols

namespace MipsText.Symbols

theorem compare_label {a b : String} : compare a b = .eq ↔ a = b :=
  Std.LawfulEqCmp.compare_eq_iff_eq

section Lookup

variable (s : Symbols) (label name : String)

theorem line?_setLine (line : Nat) :
    (s.setLine label line).line? name = if label = name then some line else s.line? name := by
  simp only [line?, setLine]
  rw [Std.ExtTreeMap.getElem?_insert]
  simp only [compare_label]

theorem words_appendWords (more : Array Word) :
    (s.appendWords label more).words[name]? =
      if label = name then some (s.words[name]?.getD #[] ++ more) else s.words[name]? := by
  rw [appendWords]
  rw [Std.ExtTreeMap.getElem?_alter]
  simp only [compare_label]
  split
  · next same => rw [same]
  · rfl

theorem strings_setString (text : String) :
    (s.setString label text).strings[name]? =
      if label = name then some text else s.strings[name]? := by
  rw [setString]
  rw [Std.ExtTreeMap.getElem?_insert]
  simp only [compare_label]

theorem words_setWord (i : Nat) (value : Word) :
    (s.setWord label i value).words[name]? =
      if label = name then s.words[name]?.map (putWord · i value) else s.words[name]? := by
  rw [setWord]
  rw [Std.ExtTreeMap.getElem?_modify]
  simp only [compare_label]
  split
  · next same => rw [same]
  · rfl

theorem words_turnIntoString (text : String) :
    (s.turnIntoString label text).words[name]? =
      if label = name then none else s.words[name]? := by
  rw [turnIntoString]
  rw [Std.ExtTreeMap.getElem?_erase]
  simp only [compare_label]

theorem strings_turnIntoString (text : String) :
    (s.turnIntoString label text).strings[name]? =
      if label = name then some text else s.strings[name]? :=
  strings_setString s label name text

theorem mem_words_setWord (i : Nat) (value : Word) :
    name ∈ (s.setWord label i value).words ↔ name ∈ s.words :=
  Std.ExtTreeMap.mem_modify

theorem mem_words_turnIntoString (text : String) :
    name ∈ (s.turnIntoString label text).words ↔ label ≠ name ∧ name ∈ s.words := by
  rw [turnIntoString]
  rw [Std.ExtTreeMap.mem_erase]
  simp only [ne_eq, compare_label]

theorem mem_strings_turnIntoString (text : String) :
    name ∈ (s.turnIntoString label text).strings ↔ label = name ∨ name ∈ s.strings := by
  show name ∈ s.strings.insert label text ↔ _
  rw [Std.ExtTreeMap.mem_insert]
  simp only [compare_label]

end Lookup

theorem size_le_size_putWord (words : Array Word) (i : Nat) (value : Word) :
    words.size ≤ (putWord words i value).size := by
  rw [putWord]
  split
  · exact Nat.le_of_eq Array.size_setIfInBounds.symm
  · rw [Array.size_push]
    exact Nat.le_succ _

end MipsText.Symbols
