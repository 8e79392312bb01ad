/-
# `MipsText.Proofs.Source.Assembling` — one line at a time

What feeding one more line does to each part of an assembly, and from that, by
induction on the lines read so far, what each part is after a whole source: the
lines that are kept, the section, the entry and the text labels.  The data section
has a module of its own.

The induction adds lines at the end, as assembling does.
-/
import Mathlib.Data.List.Induction
import MipsText.Program
import MipsText.Proofs.Source.View
import MipsText.Proofs.Symbols

namespace MipsText

open Source

namespace Source

/-- What is kept of a source line to be executed. -/
def kept : Option String → String
  | some text => (Line.ofText text).residue
  | none => ""

theorem trim_executable {statement : String}
    (h : Text.trim statement.toList = statement.toList) :
    Text.trim (Line.executable statement).toList = (Line.executable statement).toList := by
  simp only [Line.executable]
  split
  · rfl
  · exact h

theorem trim_kept (line : Option String) :
    Text.trim (kept line).toList = (kept line).toList := by
  cases line with
  | none => rfl
  | some text =>
      rw [kept]
      cases hline : Line.ofText text with
      | enter s => rfl
      | labelled name rest =>
          obtain ⟨-, _, _, behind, -, -, -, -, -, hrest⟩ := Line.ofText_eq_labelled.mp hline
          exact trim_executable (by rw [← hrest, Text.trim_trim])
      | plain rest =>
          have hrest : rest.toList = stripped text := Line.toList_of_ofText_eq_plain hline
          exact trim_executable (by rw [hrest, stripped, Text.trim_trim])

theorem begins_data_eq (text : String) :
    begins ".data" (some text) = decide (Line.ofText text = .enter .data) := by
  rw [Bool.eq_iff_iff, decide_eq_true_eq, Line.ofText_eq_data]

theorem begins_text_eq (text : String) :
    begins ".text" (some text) = decide (Line.ofText text = .enter .text) := by
  rw [Bool.eq_iff_iff, decide_eq_true_eq, Line.ofText_eq_text]

@[simp] theorem Directive.define_lines (d : Directive) (symbols : Symbols) (name : String) :
    (d.define symbols name).lines = symbols.lines := by
  cases d <;> rfl

end Source

namespace Assembly

/-! ## One more line -/

section Feed

variable (a : Assembly)

/-- A label changes the tables or is noted with the number of its line, and nothing
else comes of it. -/
theorem defineLabel_shape (name rest : String) :
    (∃ f, a.defineLabel name rest = a.updateSymbols f) ∨
      ∃ n : Notice, n.line? = some a.lineNumber ∧ a.defineLabel name rest = a.note n := by
  rw [defineLabel]
  cases a.within with
  | text => exact Or.inl ⟨_, rfl⟩
  | data =>
      dsimp only
      rw [addData]
      split
      · exact Or.inl ⟨id, rfl⟩
      · split
        · exact Or.inl ⟨_, rfl⟩
        · exact Or.inr ⟨_, rfl, rfl⟩

theorem define_program_lines (line : Line) : (a.define line).program.lines = a.program.lines := by
  cases line with
  | enter s => cases s <;> rfl
  | labelled name rest =>
      rcases a.defineLabel_shape name rest with ⟨f, h⟩ | ⟨n, -, h⟩
      · exact congrArg (·.program.lines) h
      · exact congrArg (·.program.lines) h
  | plain text => rfl

theorem feed_some (text : String) :
    a.feed (some text) = (a.define (Line.ofText text)).keep (Line.ofText text).residue := rfl

@[simp] theorem keep_within (line : String) : (a.keep line).within = a.within := rfl

@[simp] theorem keep_entry (line : String) : (a.keep line).program.entry = a.program.entry := rfl

@[simp] theorem keep_symbols (line : String) :
    (a.keep line).program.symbols = a.program.symbols := rfl

@[simp] theorem keep_lines (line : String) :
    (a.keep line).program.lines = a.program.lines.push line := rfl

variable (line : Option String)

theorem feed_lines : (a.feed line).program.lines = a.program.lines.push (kept line) := by
  cases line with
  | none => rfl
  | some text => rw [feed_some, keep_lines, define_program_lines, kept]

theorem feed_within :
    (a.feed line).within =
      if begins ".text" line then .text
      else if begins ".data" line then .data
      else a.within := by
  cases line with
  | none => rfl
  | some text =>
      rw [feed_some, keep_within, begins_text_eq, begins_data_eq]
      cases Line.ofText text with
      | enter s => cases s <;> rfl
      | labelled name rest =>
          rcases a.defineLabel_shape name rest with ⟨f, h⟩ | ⟨n, -, h⟩
          · exact congrArg (·.within) h
          · exact congrArg (·.within) h
      | plain rest => rfl

theorem feed_entry :
    (a.feed line).program.entry =
      if begins ".text" line then a.lineNumber + 1 else a.program.entry := by
  cases line with
  | none => rfl
  | some text =>
      rw [feed_some, keep_entry, begins_text_eq]
      cases Line.ofText text with
      | enter s => cases s <;> rfl
      | labelled name rest =>
          rcases a.defineLabel_shape name rest with ⟨f, h⟩ | ⟨n, -, h⟩
          · exact congrArg (·.program.entry) h
          · exact congrArg (·.program.entry) h
      | plain rest => rfl

variable {a line}

theorem feed_symbols_of_text {name : String} {rest : List Char} (hw : a.within = .text)
    (hs : startsSection line = false) (hl : Labelled line name rest) :
    (a.feed line).program.symbols = a.program.symbols.setLine name a.lineNumber := by
  obtain ⟨text, rfl, hline⟩ := hl.ofText hs
  rw [feed_some, keep_symbols, hline, define, defineLabel, hw]
  rfl

theorem feed_of_data {name : String} {rest : List Char} (hw : a.within = .data)
    (hs : startsSection line = false) (hl : Labelled line name rest) :
    a.feed line = (a.addData name (String.ofList rest)).keep (kept line) := by
  obtain ⟨text, rfl, hline⟩ := hl.ofText hs
  rw [feed_some, kept, hline, define, defineLabel, hw]

theorem feed_symbols_of_unlabelled
    (h : ∀ name rest, startsSection line = false → ¬ Labelled line name rest) :
    (a.feed line).program.symbols = a.program.symbols := by
  cases line with
  | none => rfl
  | some text =>
      rw [feed_some, keep_symbols]
      cases hline : Line.ofText text with
      | enter s => cases s <;> rfl
      | labelled name rest =>
          obtain ⟨hs, hl⟩ := Line.ofText_eq_labelled.mp hline
          exact absurd hl (h name _ hs)
      | plain rest => rfl

theorem addData_symbols_lines (name rest : String) :
    (a.addData name rest).program.symbols.lines = a.program.symbols.lines := by
  rw [addData]
  split
  · rfl
  · split
    · exact Directive.define_lines _ _ _
    · rfl

theorem feed_line?_of_not {name : String}
    (h : ∀ rest, a.within = .text → startsSection line = false → ¬ Labelled line name rest) :
    (a.feed line).program.symbols.line? name = a.program.symbols.line? name := by
  by_cases hlabel : ∃ label rest, startsSection line = false ∧ Labelled line label rest
  · obtain ⟨label, rest, hs, hl⟩ := hlabel
    cases hw : a.within with
    | text =>
        have hne : label ≠ name := fun heq => h rest hw hs (heq ▸ hl)
        rw [feed_symbols_of_text hw hs hl, Symbols.line?_setLine, if_neg hne]
    | data =>
        rw [feed_of_data hw hs hl]
        exact congrArg (·[name]?) (addData_symbols_lines label _)
  · rw [feed_symbols_of_unlabelled fun label rest hs hl => hlabel ⟨label, rest, hs, hl⟩]

end Feed

/-! ## All lines -/

section OfLines

variable {lines : List (Option String)}

theorem ofLines_concat (lines : List (Option String)) (line : Option String) :
    ofLines (lines ++ [line]) = (ofLines lines).feed line := by
  rw [ofLines]
  rw [List.foldl_append]
  rfl

theorem ofLines_take_succ {i : Nat} {line : Option String} (h : lines[i]? = some line) :
    ofLines (lines.take (i + 1)) = (ofLines (lines.take i)).feed line := by
  rw [List.take_add_one, h, Option.toList_some, ofLines_concat]

theorem lines_ofLines (lines : List (Option String)) :
    (ofLines lines).program.lines.toList = lines.map kept := by
  induction lines using List.reverseRecOn with
  | nil => rfl
  | append_singleton lines line ih =>
      rw [ofLines_concat, feed_lines, Array.toList_push, ih, List.map_append]
      rfl

theorem lineNumber_ofLines (lines : List (Option String)) :
    (ofLines lines).lineNumber = lines.length := by
  rw [lineNumber]
  rw [← Array.length_toList, lines_ofLines, List.length_map]

/-- The section that is kept while assembling is the one found going backwards. -/
theorem within_ofLines (lines : List (Option String)) :
    (ofLines lines).within = sectionAfter lines := by
  induction lines using List.reverseRecOn with
  | nil => rfl
  | append_singleton lines line ih =>
      rw [ofLines_concat, feed_within, sectionAfter_concat, ih]

theorem entry_ofLines_succ (i : Nat) :
    (ofLines lines).program.entry = i + 1 ↔
      IsGreatest {j | ∃ line, lines[j]? = some line ∧ begins ".text" line = true} i := by
  induction lines using List.reverseRecOn with
  | nil =>
      constructor
      · intro h
        exact nomatch h
      · rintro ⟨⟨_, hline, -⟩, -⟩
        exact nomatch hline
  | append_singleton lines line ih =>
      rw [ofLines_concat, feed_entry, lineNumber_ofLines]
      simp only [exists_line_concat]
      cases htext : begins ".text" line with
      | true =>
          rw [isGreatest_of_joined (n := lines.length)
            (Q := fun j => ∃ line, lines[j]? = some line ∧ begins ".text" line = true)]
          · rw [if_pos rfl, Nat.add_right_cancel_iff, eq_comm]
          · rintro j ⟨found, hfound, -⟩
            exact (List.getElem?_eq_some_iff.mp hfound).1
          · intro j
            simp
      | false => simpa using ih

theorem entry_ofLines_zero :
    (ofLines lines).program.entry = 0 ↔ ∀ line ∈ lines, begins ".text" line = false := by
  induction lines using List.reverseRecOn with
  | nil => simp [ofLines]
  | append_singleton lines line ih =>
      rw [ofLines_concat, feed_entry]
      cases htext : begins ".text" line with
      | true => simp [htext]
      | false => simpa [htext, or_imp, forall_and] using ih

/-- A text label stands for the last line of the text section that it labels. -/
theorem line?_ofLines {name : String} (i : Nat) :
    (ofLines lines).program.symbols.line? name = some i ↔
      IsGreatest {j | ∃ rest, LabelAt lines j .text name rest} i := by
  induction lines using List.reverseRecOn with
  | nil =>
      constructor
      · intro h
        exact absurd h (by simp [ofLines, Symbols.line?])
      · rintro ⟨⟨_, hlabel⟩, -⟩
        exact absurd hlabel.lt_length (Nat.not_lt_zero i)
  | append_singleton lines line ih =>
      rw [ofLines_concat]
      simp only [labelAt_concat, exists_or]
      by_cases hlabel : sectionAfter lines = .text ∧ startsSection line = false ∧
          ∃ rest, Labelled line name rest
      · -- the last line carries the label, and is above all lines that did so before
        obtain ⟨hwithin, hs, rest, hl⟩ := id hlabel
        rw [feed_symbols_of_text ((within_ofLines lines).trans hwithin) hs hl,
          Symbols.line?_setLine, if_pos rfl, lineNumber_ofLines, Option.some_inj, eq_comm,
          isGreatest_of_joined (n := lines.length)
            (Q := fun j => ∃ rest, LabelAt lines j .text name rest)]
        · rintro j ⟨rest, hj⟩
          exact hj.lt_length
        · intro j
          simp [hwithin, hs, show ∃ rest, Labelled line name rest from ⟨rest, hl⟩]
      · rw [feed_line?_of_not]
        · rw [ih]
          have hnone : ∀ j, ¬ ∃ rest, j = lines.length ∧ sectionAfter lines = .text ∧
              startsSection line = false ∧ Labelled line name rest := by
            rintro j ⟨rest, -, hwithin, hs, hl⟩
            exact hlabel ⟨hwithin, hs, rest, hl⟩
          simp only [hnone, or_false]
        · intro rest hwithin hs hl
          exact hlabel ⟨(within_ofLines lines).symm.trans hwithin, hs, rest, hl⟩

end OfLines

end Assembly

end MipsText
