/-
# `MipsText.Proofs.Source.View` — what the lines of a source say

Assembling goes through a source once, from the first line to the last, and keeps a
section and tables as it goes.  This module says what a line means without that
state, from the lines before it alone:

  * `stripped`, `begins`: the text of a line without comment and outer blanks;
  * `sectionAfter`: the section behind some lines, found by going backwards;
  * `Labelled`: a line has the form `name: rest`;
  * `LabelAt`: a line of a given section has that form.

The theorems about assembling relate the two.
-/
import Mathlib.Order.Bounds.Basic
import MipsText.Proofs.Text.Splitting
import MipsText.Source.Line

namespace MipsText.Source

/-! ## One line -/

/-- The text of a line without its comment and the blanks around it. -/
def stripped (text : String) : List Char :=
  Text.trim (withoutComment (Text.trim text.toList))

/-- Does the stripped line begin with the given word?  A line that is not UTF-8
begins with none. -/
def begins (head : String) : Option String → Bool
  | some text => Text.startsWith (stripped text) head
  | none => false

def startsSection (line : Option String) : Bool :=
  begins ".text" line || begins ".data" line

/-- `Labelled line name rest`: the stripped line is `name: rest`, cut at its first
colon.  A name is not empty and holds no blank and no double quote. -/
def Labelled (line : Option String) (name : String) (rest : List Char) : Prop :=
  ∃ text before behind, line = some text ∧ stripped text = before ++ ':' :: behind ∧
    ':' ∉ before ∧ Text.trim before = name.toList ∧ isLabelName name.toList = true ∧
    Text.trim behind = rest

theorem not_begins_both {cs : List Char} (h : Text.startsWith cs ".data" = true) :
    Text.startsWith cs ".text" = false := by
  obtain ⟨rest, rfl⟩ := Text.startsWith_iff.mp h
  rfl

theorem labelled?_eq_some {cs name rest : List Char} :
    labelled? cs = some (name, rest) ↔ ∃ before behind, cs = before ++ ':' :: behind ∧
      ':' ∉ before ∧ Text.trim before = name ∧ isLabelName name = true ∧
      Text.trim behind = rest := by
  rw [labelled?]
  constructor
  · intro h
    split at h
    · next before behind hcut =>
        obtain ⟨colon, hcolon, hcs, hbefore⟩ := Text.cut?_eq_some.mp hcut
        obtain rfl : colon = ':' := by simpa using hcolon
        dsimp only at h
        split at h
        · next hname =>
            obtain ⟨rfl, rfl⟩ := Prod.mk.inj (Option.some.inj h)
            exact ⟨before, behind, hcs, fun hm => by simpa using hbefore _ hm, rfl, hname, rfl⟩
        · exact nomatch h
    · exact nomatch h
  · rintro ⟨before, behind, rfl, hbefore, rfl, hname, rfl⟩
    have hcut : Text.cut? (· == ':') (before ++ ':' :: behind) = some (before, behind) :=
      Text.cut?_eq_some.mpr ⟨':', rfl, rfl, fun y hy => by
        simpa using fun heq : y = ':' => hbefore (heq ▸ hy)⟩
    simp only [hcut, hname, if_true]

/-! ## The shape of a line, as it is assembled -/

namespace Line

theorem ofText_eq_data {text : String} :
    ofText text = .enter .data ↔ begins ".data" (some text) = true := by
  show ofStripped (stripped text) = _ ↔ Text.startsWith (stripped text) ".data" = true
  rw [ofStripped]
  split
  · next data => simp [data]
  · next notData =>
      refine ⟨fun h => ?_, fun h => absurd h notData⟩
      split at h
      · exact nomatch h
      · split at h <;> exact nomatch h

theorem ofText_eq_text {text : String} :
    ofText text = .enter .text ↔ begins ".text" (some text) = true := by
  show ofStripped (stripped text) = _ ↔ Text.startsWith (stripped text) ".text" = true
  rw [ofStripped]
  split
  · next data => simp [not_begins_both data]
  · split
    · next isText => simp [isText]
    · next notText =>
        refine ⟨fun h => ?_, fun h => absurd h notText⟩
        split at h <;> exact nomatch h

/-- The lines with a label are those that start no section and have the form. -/
theorem ofText_eq_labelled {text name rest : String} :
    ofText text = .labelled name rest ↔
      startsSection (some text) = false ∧ Labelled (some text) name rest.toList := by
  have hlabel : Labelled (some text) name rest.toList ↔
      labelled? (stripped text) = some (name.toList, rest.toList) := by
    rw [labelled?_eq_some]
    constructor
    · rintro ⟨text', before, behind, htext, h⟩
      obtain rfl := Option.some.inj htext
      exact ⟨before, behind, h⟩
    · rintro ⟨before, behind, h⟩
      exact ⟨text, before, behind, rfl, h⟩
  rw [hlabel]
  show ofStripped (stripped text) = _ ↔ (Text.startsWith (stripped text) ".text" ||
    Text.startsWith (stripped text) ".data") = false ∧ _
  rw [ofStripped]
  split
  · next data => simp [data]
  · next notData =>
      split
      · next isText => simp [isText]
      · next notText =>
          split
          · next found left hfound =>
              simp only [Line.labelled.injEq, hfound, Option.some.injEq, Prod.mk.injEq,
                Bool.not_eq_true _ ▸ notData, Bool.not_eq_true _ ▸ notText, Bool.or_self,
                true_and, ← String.toList_inj, String.toList_ofList]
          · next hnone => simp [hnone]

theorem toList_of_ofText_eq_plain {text rest : String} (h : ofText text = .plain rest) :
    rest.toList = stripped text := by
  rw [show ofText text = ofStripped (stripped text) from rfl, ofStripped] at h
  split at h
  · exact nomatch h
  · split at h
    · exact nomatch h
    · split at h
      · exact nomatch h
      · obtain rfl := Line.plain.inj h
        exact String.toList_ofList

end Line

theorem Labelled.ofText {line : Option String} {name : String} {rest : List Char}
    (h : Labelled line name rest) (hs : startsSection line = false) :
    ∃ text, line = some text ∧ Line.ofText text = .labelled name (String.ofList rest) := by
  obtain ⟨text, -, -, rfl, -⟩ := id h
  exact ⟨text, rfl, Line.ofText_eq_labelled.mpr ⟨hs, by rwa [String.toList_ofList]⟩⟩

/-- A line has at most one label. -/
theorem Labelled.unique {line : Option String} {name name' : String} {rest rest' : List Char}
    (h : Labelled line name rest) (h' : Labelled line name' rest') :
    name = name' ∧ rest = rest' := by
  obtain ⟨text, before, behind, rfl, hlabel⟩ := h
  obtain ⟨text', before', behind', htext, hlabel'⟩ := h'
  obtain rfl := Option.some.inj htext
  have hsome := labelled?_eq_some.mpr ⟨before, behind, hlabel⟩
  have hsome' := labelled?_eq_some.mpr ⟨before', behind', hlabel'⟩
  obtain ⟨hname, hrest⟩ := Prod.mk.inj (Option.some.inj (hsome.symm.trans hsome'))
  exact ⟨String.toList_inj.mp hname, hrest⟩

/-! ## Lines in their place -/

/-- The section behind some lines is the one that the nearest line which starts a
section starts; before any such line it is the data section. -/
def sectionAfter (lines : List (Option String)) : Section :=
  match lines.reverse.find? startsSection with
  | some line => if begins ".text" line then .text else .data
  | none => .data

/-- `LabelAt lines i s name rest`: line `i` lies in the section `s`, starts none
itself, and is `name: rest`. -/
structure LabelAt (lines : List (Option String)) (i : Nat) (s : Section) (name : String)
    (rest : List Char) : Prop where
  within : sectionAfter (lines.take i) = s
  labelled : ∃ line, lines[i]? = some line ∧ startsSection line = false ∧
    Labelled line name rest

section Concat

variable {lines : List (Option String)} {line : Option String}

theorem sectionAfter_concat :
    sectionAfter (lines ++ [line]) =
      if begins ".text" line then .text
      else if begins ".data" line then .data
      else sectionAfter lines := by
  simp only [sectionAfter]
  rw [List.reverse_concat, List.find?_cons]
  cases htext : begins ".text" line with
  | true => simp [startsSection, htext]
  | false =>
      cases hdata : begins ".data" line with
      | true => simp [startsSection, htext, hdata]
      | false => simp [startsSection, htext, hdata]

theorem LabelAt.lt_length {i : Nat} {s : Section} {name : String} {rest : List Char}
    (h : LabelAt lines i s name rest) : i < lines.length := by
  obtain ⟨_, hline, -⟩ := h.labelled
  exact (List.getElem?_eq_some_iff.mp hline).1

theorem labelAt_concat {i : Nat} {s : Section} {name : String} {rest : List Char} :
    LabelAt (lines ++ [line]) i s name rest ↔
      LabelAt lines i s name rest ∨
        i = lines.length ∧ sectionAfter lines = s ∧ startsSection line = false ∧
          Labelled line name rest := by
  rcases Nat.lt_trichotomy i lines.length with hi | rfl | hi
  · have htake : (lines ++ [line]).take i = lines.take i :=
      List.take_append_of_le_length (Nat.le_of_lt hi)
    have hget : (lines ++ [line])[i]? = lines[i]? := List.getElem?_append_left hi
    constructor
    · intro h
      exact Or.inl ⟨htake ▸ h.within, hget ▸ h.labelled⟩
    · rintro (h | ⟨rfl, -⟩)
      · exact ⟨htake.symm ▸ h.within, hget.symm ▸ h.labelled⟩
      · exact absurd hi (Nat.lt_irrefl _)
  · constructor
    · intro h
      obtain ⟨found, hfound, hlabel⟩ := h.labelled
      rw [List.getElem?_concat_length] at hfound
      obtain rfl := Option.some.inj hfound
      have hwithin := h.within
      rw [List.take_left] at hwithin
      exact Or.inr ⟨rfl, hwithin, hlabel⟩
    · rintro (h | ⟨-, hwithin, hlabel⟩)
      · exact absurd h.lt_length (Nat.lt_irrefl _)
      · refine ⟨?_, line, List.getElem?_concat_length, hlabel⟩
        rw [List.take_left]
        exact hwithin
  · constructor
    · intro h
      have hlt := h.lt_length
      rw [List.length_append, List.length_singleton] at hlt
      omega
    · rintro (h | ⟨rfl, -⟩)
      · exact absurd h.lt_length (Nat.lt_asymm hi)
      · exact absurd hi (Nat.lt_irrefl _)

end Concat

/-! ## The last line that has a property -/

theorem exists_line_concat {P : Option String → Prop} {lines : List (Option String)}
    {line : Option String} {i : Nat} :
    (∃ l, (lines ++ [line])[i]? = some l ∧ P l) ↔
      (∃ l, lines[i]? = some l ∧ P l) ∨ i = lines.length ∧ P line := by
  rcases Nat.lt_trichotomy i lines.length with hi | rfl | hi
  · rw [List.getElem?_append_left hi]
    refine ⟨Or.inl, ?_⟩
    rintro (h | ⟨rfl, -⟩)
    · exact h
    · exact absurd hi (Nat.lt_irrefl _)
  · simp
  · have hlong : (lines ++ [line]).length ≤ i := by
      rw [List.length_append, List.length_singleton]
      omega
    rw [List.getElem?_eq_none hlong, List.getElem?_eq_none (Nat.le_of_lt hi)]
    simp only [reduceCtorEq, false_and, exists_false, false_or, false_iff, not_and]
    intro heq
    exact absurd heq (Nat.ne_of_gt hi)

theorem isGreatest_of_joined {Q Q' : Nat → Prop} {n i : Nat} (hlt : ∀ j, Q j → j < n)
    (hjoin : ∀ j, Q' j ↔ Q j ∨ j = n) : IsGreatest {j | Q' j} i ↔ i = n := by
  have hn : IsGreatest {j | Q' j} n := by
    refine ⟨(hjoin n).mpr (Or.inr rfl), fun j hj => ?_⟩
    rcases (hjoin j).mp hj with hj | rfl
    · exact Nat.le_of_lt (hlt j hj)
    · exact Nat.le_refl _
  constructor
  · intro hi
    exact hi.unique hn
  · rintro rfl
    exact hn

end MipsText.Source
