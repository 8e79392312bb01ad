/-
# `MipsText.Proofs.Arrays` — word arrays obey the array laws

An offset counts bytes and is rounded toward zero, so the offsets from -3 to 3 all stand for
the first word.  A load needs a word there; a store may also go right behind the last word,
and then the array grows by that word.

  * `load_eq_ok` and `store_eq_ok` say what an access that succeeds has done;
  * `Stored` lists what is left behind by a store;
  * `Refused` says which fault an access ends in that does not succeed.

A machine takes its stores in two parts, the check and then the change.  `run_executeStore`
puts them together again: what becomes of the machine is what `store` says, and nothing is
stored if it refuses.
-/
import MipsText.Proofs.Machine.Transition
import MipsText.Proofs.Symbols

namespace MipsText

open Checked

namespace Symbols

/-! ## From offsets to words -/

section Words

theorem place_mem_range (offset : Word) (n : Nat) :
    0 ≤ place offset ∧ place offset < n ↔
      0 < n ∧ -4 < offset.toInt ∧ offset.toInt < 4 * n := by
  have hsign : Int.sign 4 = 1 := rfl
  rw [place, Int.tdiv_eq_ediv, hsign]
  split <;> omega

variable {words : Array Word} {i : Nat}

theorem getElem?_putWord (h : i ≤ words.size) (value : Word) (j : Nat) :
    (putWord words i value)[j]? = if j = i then some value else words[j]? := by
  rw [putWord]
  split
  · next hlt =>
      rw [Array.getElem?_setIfInBounds, if_pos hlt]
      simp only [eq_comm]
  · next hge =>
      obtain rfl : i = words.size := Nat.le_antisymm h (Nat.le_of_not_lt hge)
      exact Array.getElem?_push

theorem size_putWord (h : i ≤ words.size) (value : Word) :
    (putWord words i value).size = max words.size (i + 1) := by
  rw [putWord]
  split
  · rw [Array.size_setIfInBounds]
    omega
  · rw [Array.size_push]
    omega

end Words

/-! ## Accesses that succeed -/

section Access

variable {s s' : Symbols} {label : String} {offset value : Word} {fault : Fault}

theorem array_eq_ok {words : Array Word} :
    s.array label = .ok words ↔ s.words[label]? = some words := by
  rw [array]
  split
  · next found => simp [found]
  · next missing => simp [missing]

theorem index_eq_ok {length bound i : Nat} :
    index label length bound offset = .ok i ↔ place offset = i ∧ i < bound := by
  rw [index]
  constructor
  · intro h
    split at h
    · obtain rfl := Except.ok.inj h
      omega
    · exact nomatch h
  · rintro ⟨hplace, hi⟩
    rw [if_pos (by omega), hplace]
    rfl

theorem load_eq_ok : s.load label offset = .ok value ↔
    ∃ words i, s.words[label]? = some words ∧ place offset = (i : Nat) ∧
      words[i]? = some value := by
  rw [load, bind_eq_ok]
  constructor
  · rintro ⟨words, hwords, h⟩
    obtain ⟨i, hi, h⟩ := bind_eq_ok.mp h
    obtain ⟨hplace, hlt⟩ := index_eq_ok.mp hi
    refine ⟨words, i, array_eq_ok.mp hwords, hplace, ?_⟩
    rw [← pure_eq_ok.mp h, Array.getD_eq_getD_getElem?, Array.getElem?_eq_getElem hlt]
    rfl
  · rintro ⟨words, i, hwords, hplace, hvalue⟩
    obtain ⟨hlt, -⟩ := Array.getElem?_eq_some_iff.mp hvalue
    refine ⟨words, array_eq_ok.mpr hwords, bind_eq_ok.mpr ⟨i, index_eq_ok.mpr ⟨hplace, hlt⟩, ?_⟩⟩
    rw [Array.getD_eq_getD_getElem?, hvalue]
    rfl

theorem storeIndex_eq_ok {i : Nat} : s.storeIndex label offset = .ok i ↔
    ∃ words, s.words[label]? = some words ∧ place offset = i ∧ i ≤ words.size := by
  rw [storeIndex, bind_eq_ok]
  simp only [array_eq_ok, index_eq_ok, Nat.lt_succ_iff]

theorem store_eq_ok : s.store label offset value = .ok s' ↔
    ∃ words i, s.words[label]? = some words ∧ place offset = (i : Nat) ∧ i ≤ words.size ∧
      s' = s.setWord label i value := by
  rw [store, bind_eq_ok]
  constructor
  · rintro ⟨i, hi, h⟩
    obtain ⟨words, hwords, hplace, hle⟩ := storeIndex_eq_ok.mp hi
    exact ⟨words, i, hwords, hplace, hle, (pure_eq_ok.mp h).symm⟩
  · rintro ⟨words, i, hwords, hplace, hle, rfl⟩
    exact ⟨i, storeIndex_eq_ok.mpr ⟨words, hwords, hplace, hle⟩, rfl⟩

/-- There is a word to load at the offsets from -3 up to the end of an array that is not
empty. -/
theorem load_isOk_iff : (∃ value, s.load label offset = .ok value) ↔
    ∃ words, s.words[label]? = some words ∧ 0 < words.size ∧ -4 < offset.toInt ∧
      offset.toInt < 4 * words.size := by
  simp only [← place_mem_range, load_eq_ok]
  constructor
  · rintro ⟨value, words, i, hwords, hplace, hvalue⟩
    obtain ⟨hlt, -⟩ := Array.getElem?_eq_some_iff.mp hvalue
    exact ⟨words, hwords, by omega⟩
  · rintro ⟨words, hwords, hlow, hhigh⟩
    have hlt : (place offset).toNat < words.size := by omega
    exact ⟨_, words, _, hwords, by omega, Array.getElem?_eq_getElem hlt⟩

/-- A store may go one word further than a load, in an empty array too. -/
theorem store_isOk_iff : (∃ s', s.store label offset value = .ok s') ↔
    ∃ words, s.words[label]? = some words ∧ -4 < offset.toInt ∧
      offset.toInt < 4 * (words.size + 1) := by
  have hrange (n : Nat) : -4 < offset.toInt ∧ offset.toInt < 4 * (n + 1) ↔
      0 ≤ place offset ∧ place offset < (n + 1 : Nat) := by
    rw [place_mem_range]
    omega
  simp only [hrange, store_eq_ok]
  constructor
  · rintro ⟨s', words, i, hwords, hplace, hle, -⟩
    exact ⟨words, hwords, by omega⟩
  · rintro ⟨words, hwords, hlow, hhigh⟩
    exact ⟨_, words, (place offset).toNat, hwords, by omega, by omega, rfl⟩

/-! ## What a store leaves behind -/

/-- `s.Stored s' label offset value`: the tables `s'` are `s` with the word `value` at an
offset of the array of `label`. -/
structure Stored (s s' : Symbols) (label : String) (offset value : Word) : Prop where
  /-- The word is found at every offset that stands for the same place. -/
  here : ∀ y, place y = place offset → s'.load label y = .ok value
  /-- What could be loaded from other places still can. -/
  otherPlace : ∀ y w, place y ≠ place offset → s.load label y = .ok w → s'.load label y = .ok w
  /-- Loads through other labels give what they gave. -/
  otherLabel : ∀ k, k ≠ label → ∀ y, s'.load k y = s.load k y
  /-- The array reaches up to the place, and is not longer than it was otherwise. -/
  length : ∃ words words' i, s.words[label]? = some words ∧ s'.words[label]? = some words' ∧
    place offset = (i : Nat) ∧ words'.size = max words.size (i + 1)
  otherWords : ∀ k, k ≠ label → s'.words[k]? = s.words[k]?
  lines : s'.lines = s.lines
  strings : s'.strings = s.strings

theorem words_setWord_of_ne {k : String} (h : k ≠ label) (i : Nat) (value : Word) :
    (s.setWord label i value).words[k]? = s.words[k]? := by
  rw [words_setWord, if_neg (Ne.symm h)]

theorem words_setWord_self {words : Array Word} (h : s.words[label]? = some words) (i : Nat)
    (value : Word) :
    (s.setWord label i value).words[label]? = some (putWord words i value) := by
  rw [words_setWord, if_pos rfl, h]
  rfl

theorem stored (h : s.store label offset value = .ok s') : s.Stored s' label offset value := by
  obtain ⟨words, i, hwords, hplace, hle, rfl⟩ := store_eq_ok.mp h
  have hnew := words_setWord_self hwords i value
  refine ⟨?_, ?_, ?_, ⟨words, _, i, hwords, hnew, hplace, size_putWord hle value⟩, ?_, rfl, rfl⟩
  · intro y hy
    refine load_eq_ok.mpr ⟨_, i, hnew, hy.trans hplace, ?_⟩
    rw [getElem?_putWord hle, if_pos rfl]
  · intro y w hy hload
    obtain ⟨found, j, hfound, hj, hw⟩ := load_eq_ok.mp hload
    obtain rfl := Option.some.inj (hfound.symm.trans hwords)
    refine load_eq_ok.mpr ⟨_, j, hnew, hj, ?_⟩
    rw [getElem?_putWord hle, if_neg (by omega), hw]
  · intro k hk y
    rw [load, load, array, array, words_setWord_of_ne hk]
  · intro k hk
    exact words_setWord_of_ne hk i value

/-! ## Accesses that are refused -/

/-- `s.Refused label offset fault`: the fault says what is wrong with an access, either
that the label has no array, or where in the array of which length there is no word. -/
structure Refused (s : Symbols) (label : String) (offset : Word) (fault : Fault) : Prop where
  unknown : fault = .unknownStorage label ↔ s.words[label]? = none
  outside : ∀ words, s.words[label]? = some words →
    fault = .outOfBounds label (place offset) words.size

theorem index_eq_error {length bound : Nat}
    (h : index label length bound offset = .error fault) :
    fault = .outOfBounds label (place offset) length := by
  rw [index] at h
  split at h
  · exact nomatch h
  · exact (Except.error.inj h).symm

theorem refused_of_array {α : Type} {access : Array Word → Except Fault α}
    (hplace : ∀ words, access words = .error fault →
      fault = .outOfBounds label (place offset) words.size)
    (h : (s.array label >>= access) = .error fault) : s.Refused label offset fault := by
  cases hwords : s.words[label]? with
  | none =>
      have hmissing : s.array label = .error (.unknownStorage label) := by
        rw [array, hwords]
      rw [hmissing] at h
      obtain rfl := Except.error.inj h
      exact ⟨by simp [hwords], by simp [hwords]⟩
  | some words =>
      rw [array_eq_ok.mpr hwords] at h
      obtain rfl := hplace words h
      exact ⟨by simp [hwords], by simp [hwords]⟩

theorem load_refused (h : s.load label offset = .error fault) : s.Refused label offset fault := by
  refine refused_of_array (fun words hwords => ?_) h
  rcases bind_eq_error.mp hwords with hindex | ⟨i, -, hpure⟩
  · exact index_eq_error hindex
  · exact nomatch hpure

theorem store_refused (h : s.store label offset value = .error fault) :
    s.Refused label offset fault := by
  rcases bind_eq_error.mp h with hindex | ⟨i, -, hpure⟩
  · exact refused_of_array (fun words hwords => index_eq_error hwords) hindex
  · exact nomatch hpure

end Access

end Symbols

/-! ## Machines -/

/-- A store of a machine does what `store` says to its tables; if that refuses, the machine is
the one before. -/
theorem Intent.run_executeStore {x : Execution} {r : Register} {value : Word}
    (hr : x.machine.integer r = .ok value) (label : String) (offset : Word) :
    (executeStore r label offset).run x =
      let noted := { x with events := x.events ++ [.store label offset value] }
      match x.machine.symbols.store label offset value with
      | .ok symbols => .ok () { noted with machine := { x.machine with symbols := symbols } }
      | .error fault => .error (.fault fault) noted := by
  rw [executeStore, Executing.integer, Executing.check_fault_bind, hr]
  show (Executing.check (fun m => m.symbols.storeIndex label offset) >>= _).run
    { x with events := x.events ++ [.store label offset value] } = _
  rw [Executing.check_fault_bind, Symbols.store]
  dsimp only
  cases x.machine.symbols.storeIndex label offset with
  | ok i => rfl
  | error fault => rfl

namespace Symbols

/-- Word arrays obey the array laws.  A load succeeds if its offset is in the array, a store
also right behind it.  A store leaves its word to all loads from the same place, and nothing
else is changed by it.  An access that does not succeed says what is wrong with it, and a
machine whose store is refused stops with its tables as they were. -/
theorem array_laws (s : Symbols) (label : String) (offset value : Word) :
    ((∃ w, s.load label offset = .ok w) ↔
      ∃ words, s.words[label]? = some words ∧ 0 < words.size ∧ -4 < offset.toInt ∧
        offset.toInt < 4 * words.size) ∧
    ((∃ s', s.store label offset value = .ok s') ↔
      ∃ words, s.words[label]? = some words ∧ -4 < offset.toInt ∧
        offset.toInt < 4 * (words.size + 1)) ∧
    (∀ s', s.store label offset value = .ok s' → s.Stored s' label offset value) ∧
    (∀ fault, s.load label offset = .error fault → s.Refused label offset fault) ∧
    ∀ fault, s.store label offset value = .error fault → s.Refused label offset fault ∧
      ∀ (m : Machine) (r : Register), m.symbols = s → m.integer r = .ok value →
        let final := (Intent.store r label offset).execute.run { machine := m, next := m.pc + 1 }
        (Execution.conclude m.pc final).machine = m.stop (.faulted m.pc) := by
  refine ⟨load_isOk_iff, store_isOk_iff, fun _ => stored, fun _ => load_refused, ?_⟩
  intro fault h
  refine ⟨store_refused h, ?_⟩
  rintro m r rfl hr
  have hrun := Intent.run_executeStore (x := { machine := m, next := m.pc + 1 }) hr label offset
  dsimp only at hrun ⊢
  rw [h] at hrun
  rw [Intent.execute, hrun]
  rfl

/-- A store right behind the last word, at an offset that is not a multiple of four, where
a load is refused. -/
theorem array_laws_grown :
    let s := (({} : Symbols).appendWords "a" #[5, 6]).appendWords "b" #[9]
    s.load "a" 11 = .error (.outOfBounds "a" 2 2) ∧
      ∃ s', s.store "a" 11 7 = .ok s' ∧ s'.load "a" 8 = .ok 7 ∧ s'.load "a" (-3) = .ok 5 ∧
        s'.load "b" (-3) = .ok 9 ∧ ∃ words, s'.words["a"]? = some words ∧ words.size = 3 := by
  intro s
  have ha : s.words["a"]? = some #[5, 6] := by decide +kernel
  have hb : s.words["b"]? = some #[9] := by decide +kernel
  have hfirst : s.load "a" (-3) = .ok 5 := load_eq_ok.mpr ⟨_, 0, ha, by decide, rfl⟩
  have hother : s.load "b" (-3) = .ok 9 := load_eq_ok.mpr ⟨_, 0, hb, by decide, rfl⟩
  obtain ⟨hload, hstore, hstored, hrefused, -⟩ := array_laws s "a" 11 7
  obtain ⟨s', hs'⟩ := hstore.mpr ⟨_, ha, by decide, by decide⟩
  have hlaws := hstored s' hs'
  have hnone : ¬ ∃ w, s.load "a" 11 = .ok w := by
    rw [hload]
    rintro ⟨words, hwords, -, -, hlt⟩
    obtain rfl := Option.some.inj (ha.symm.trans hwords)
    exact absurd hlt (by decide)
  refine ⟨?_, s', hs', hlaws.here 8 (by decide), hlaws.otherPlace (-3) 5 (by decide) hfirst,
    (hlaws.otherLabel "b" (by decide) (-3)).trans hother, ?_⟩
  · cases hcase : s.load "a" 11 with
    | ok w => exact absurd ⟨w, hcase⟩ hnone
    | error fault => exact congrArg Except.error ((hrefused fault hcase).outside _ ha)
  · obtain ⟨words, words', i, hwords, hwords', hi, hsize⟩ := hlaws.length
    obtain rfl := Option.some.inj (ha.symm.trans hwords)
    obtain rfl : i = 2 := Int.ofNat.inj (hi.symm.trans (by decide))
    exact ⟨words', hwords', hsize⟩

end Symbols

end MipsText
