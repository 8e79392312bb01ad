/-
# `MipsText.Proofs.Source.Insertion` — one blank line more

A line of which nothing is left without its comment and outer blanks defines nothing and
leaves nothing to be executed.  Inserted into a source at line `k`, it moves the lines from
there on down by one: `Source.shifted k i` is where line `i` stands then.
`Program.inserted k` is what becomes of the program, an empty line more and labels that
follow their lines, and `Assembly.Inserted` carries this through the assembler.

The entry is no label.  It stands behind the last `.text`, so a blank line that is put
right there becomes the entry itself.
-/
import MipsText.Proofs.Source.Alignment

namespace MipsText

open Source

/-! ## Moved lines -/

namespace Source

/-- Where line `i` stands once a line is inserted at `k`. -/
def shifted (k i : Nat) : Nat :=
  if i < k then i else i + 1

section Shifted

variable {k i : Nat}

theorem shifted_of_lt (h : i < k) : shifted k i = i :=
  if_pos h

theorem shifted_of_le (h : k ≤ i) : shifted k i = i + 1 :=
  if_neg (Nat.not_lt.mpr h)

/-- Lines that follow each other still do, unless the new line is between them. -/
theorem shifted_succ (h : i + 1 ≠ k) : shifted k (i + 1) = shifted k i + 1 := by
  rcases Nat.lt_or_ge i k with hi | hi
  · rw [shifted_of_lt hi, shifted_of_lt (by omega)]
  · rw [shifted_of_le hi, shifted_of_le (by omega)]

theorem shifted_lt_succ {n : Nat} (h : k ≤ n) : shifted k i < n + 1 ↔ i < n := by
  rcases Nat.lt_or_ge i k with hi | hi
  · rw [shifted_of_lt hi]
    omega
  · rw [shifted_of_le hi]
    omega

end Shifted

/-- Lines with an empty line more, at `k`. -/
def withBlank (k : Nat) (lines : Array String) : Array String :=
  (lines.toList.insertIdx k "").toArray

section WithBlank

variable {k : Nat} {lines : Array String}

theorem size_withBlank (h : k ≤ lines.size) : (withBlank k lines).size = lines.size + 1 := by
  rw [withBlank, List.size_toArray]
  exact List.length_insertIdx_of_le_length h ""

theorem getElem?_withBlank_self (h : k ≤ lines.size) : (withBlank k lines)[k]? = some "" := by
  rw [withBlank, List.getElem?_toArray, List.getElem?_insertIdx_self]
  exact if_pos h

theorem getElem?_withBlank_shifted (i : Nat) : (withBlank k lines)[shifted k i]? = lines[i]? := by
  rw [withBlank, List.getElem?_toArray, ← Array.getElem?_toList]
  rcases Nat.lt_or_ge i k with hi | hi
  · rw [shifted_of_lt hi, List.getElem?_insertIdx_of_lt hi]
  · rw [shifted_of_le hi]
    exact List.getElem?_insertIdx_of_gt (Nat.lt_succ_of_le hi)

theorem withBlank_push (h : k ≤ lines.size) (line : String) :
    withBlank k (lines.push line) = (withBlank k lines).push line := by
  have hconcat : ∀ (ls : List String) (k : Nat), k ≤ ls.length →
      (ls ++ [line]).insertIdx k "" = ls.insertIdx k "" ++ [line] := by
    intro ls
    induction ls with
    | nil =>
        intro k hk
        obtain rfl := Nat.le_zero.mp hk
        rfl
    | cons l ls ih =>
        intro k hk
        cases k with
        | zero => rfl
        | succ k => exact congrArg (l :: ·) (ih k (Nat.le_of_succ_le_succ hk))
  rw [withBlank, withBlank, Array.toList_push, hconcat lines.toList k h, List.push_toArray]

end WithBlank

end Source

/-! ## Labels that follow their lines -/

namespace Symbols

/-- The tables after an insertion: labels stand for the moved lines. -/
def shifted (k : Nat) (s : Symbols) : Symbols :=
  { s with lines := s.lines.map fun _ => Source.shifted k }

section Shifted

variable (k : Nat) (s : Symbols) (label : String)

theorem line?_shifted : (s.shifted k).line? label = (s.line? label).map (Source.shifted k) :=
  Std.ExtTreeMap.getElem?_map

theorem ext_line? {s s' : Symbols} (hlines : ∀ label, s.line? label = s'.line? label)
    (hwords : s.words = s'.words) (hstrings : s.strings = s'.strings) : s = s' := by
  obtain ⟨lines, words, strings⟩ := s
  obtain ⟨lines', words', strings'⟩ := s'
  obtain rfl : lines = lines' := Std.ExtTreeMap.ext_getElem? fun {label} => hlines label
  obtain rfl : words = words' := hwords
  obtain rfl : strings = strings' := hstrings
  rfl

theorem shifted_setLine (line : Nat) :
    (s.setLine label line).shifted k = (s.shifted k).setLine label (Source.shifted k line) := by
  refine ext_line? (fun name => ?_) rfl rfl
  rw [line?_shifted, line?_setLine, line?_setLine, line?_shifted, apply_ite (Option.map _)]
  rfl

theorem shifted_eq_self {k : Nat} {s : Symbols} (h : ∀ label i, s.line? label = some i → i < k) :
    s.shifted k = s := by
  refine ext_line? (fun label => ?_) rfl rfl
  rw [line?_shifted]
  cases hline : s.line? label with
  | none => rfl
  | some i => exact congrArg some (shifted_of_lt (h label i hline))

theorem shifted_define (d : Directive) :
    (d.define s label).shifted k = d.define (s.shifted k) label := by
  cases d <;> rfl

end Shifted

end Symbols

def Program.inserted (k : Nat) (p : Program) : Program where
  lines := withBlank k p.lines
  entry := if p.entry ≤ k then p.entry else p.entry + 1
  symbols := p.symbols.shifted k

/-! ## Through the assembler -/

namespace Assembly

/-- `Inserted k a a'`: what is assembled in `a'` is what is assembled in `a`, with a blank
line more at `k`. -/
structure Inserted (k : Nat) (a a' : Assembly) : Prop where
  within : a'.within = a.within
  le : k ≤ a.lineNumber
  program : a'.program = a.program.inserted k

namespace Inserted

variable {k : Nat} {a a' : Assembly}

theorem lineNumber_eq (h : Inserted k a a') : a'.lineNumber = shifted k a.lineNumber := by
  rw [shifted_of_le h.le, lineNumber, h.program]
  exact size_withBlank h.le

theorem keep (h : Inserted k a a') (line : String) : Inserted k (a.keep line) (a'.keep line) where
  within := h.within
  le := by
    show k ≤ (a.program.lines.push line).size
    rw [Array.size_push]
    exact Nat.le_succ_of_le h.le
  program := by
    have hlines : (withBlank k a.program.lines).push line =
        withBlank k (a.program.lines.push line) := (withBlank_push h.le line).symm
    show { a'.program with lines := a'.program.lines.push line } = _
    rw [h.program, Program.inserted, hlines]
    rfl

theorem note (h : Inserted k a a') (n n' : Notice) : Inserted k (a.note n) (a'.note n') :=
  ⟨h.within, h.le, h.program⟩

theorem updateSymbols {f f' : Symbols → Symbols} (h : Inserted k a a')
    (hf : (f a.program.symbols).shifted k = f' (a.program.symbols.shifted k)) :
    Inserted k (a.updateSymbols f) (a'.updateSymbols f') where
  within := h.within
  le := h.le
  program := by
    show { a'.program with symbols := f' a'.program.symbols } = _
    rw [h.program, Program.inserted, ← hf]
    rfl

theorem enter (h : Inserted k a a') (s : Section) : Inserted k (a.enter s) (a'.enter s) := by
  cases s with
  | data => exact ⟨rfl, h.le, h.program⟩
  | text =>
      refine ⟨rfl, h.le, ?_⟩
      -- the line behind is not in front of the insertion
      have hentry : ¬ a.lineNumber + 1 ≤ k := Nat.not_le.mpr (Nat.lt_succ_of_le h.le)
      show { a'.program with entry := a'.lineNumber + 1 } =
        Program.inserted k { a.program with entry := a.lineNumber + 1 }
      rw [h.lineNumber_eq, shifted_of_le h.le, h.program, Program.inserted, Program.inserted,
        if_neg hentry]

theorem addData (h : Inserted k a a') (name rest : String) :
    Inserted k (a.addData name rest) (a'.addData name rest) := by
  rw [Assembly.addData, Assembly.addData]
  split
  · exact h
  · split
    · exact h.updateSymbols (Symbols.shifted_define k _ name _)
    · exact h.note _ _

theorem defineLabel (h : Inserted k a a') (name rest : String) :
    Inserted k (a.defineLabel name rest) (a'.defineLabel name rest) := by
  rw [Assembly.defineLabel, Assembly.defineLabel, h.within]
  cases a.within with
  | text =>
      refine h.updateSymbols ?_
      rw [h.lineNumber_eq]
      exact Symbols.shifted_setLine k _ name _
  | data => exact h.addData name rest

theorem feed (h : Inserted k a a') (line : Option String) :
    Inserted k (a.feed line) (a'.feed line) := by
  cases line with
  | none => exact (h.note _ _).keep ""
  | some text =>
      rw [feed_some, feed_some]
      refine keep ?_ _
      cases Line.ofText text with
      | enter s => exact h.enter s
      | labelled name rest => exact h.defineLabel name rest
      | plain rest => exact h

theorem foldl_feed (h : Inserted k a a') (lines : List (Option String)) :
    Inserted k (lines.foldl Assembly.feed a) (lines.foldl Assembly.feed a') := by
  induction lines generalizing a a' with
  | nil => exact h
  | cons line lines ih => exact ih (h.feed line)

end Inserted

theorem inserted_ofLines (before : List (Option String)) {blank : String}
    (hblank : stripped blank = []) :
    Inserted before.length (ofLines before) ((ofLines before).feed (some blank)) := by
  have hline : Line.ofText blank = .plain "" := congrArg Line.ofStripped hblank
  have hsize : (ofLines before).program.lines.size = before.length := lineNumber_ofLines before
  have hsymbols : (ofLines before).program.symbols.shifted before.length =
      (ofLines before).program.symbols := by
    refine Symbols.shifted_eq_self fun label i hi => ?_
    obtain ⟨⟨rest, hlabel⟩, -⟩ := (line?_ofLines i).mp hi
    exact hlabel.lt_length
  have hlines : withBlank before.length (ofLines before).program.lines =
      (ofLines before).program.lines.push "" := by
    rw [withBlank, ← hsize, ← Array.length_toList, List.insertIdx_length_self,
      ← Array.toList_push, Array.toArray_toList]
  rw [feed_some, hline]
  refine ⟨rfl, Nat.le_of_eq (lineNumber_ofLines before).symm, ?_⟩
  rw [Program.inserted, hsymbols, hlines, if_pos (Program.entry_le_size before)]
  rfl

theorem ofLines_append (before behind : List (Option String)) :
    ofLines (before ++ behind) = behind.foldl feed (ofLines before) :=
  List.foldl_append

/-- The lines behind the insertion are assembled alike. -/
theorem program_ofLines_inserted (before behind : List (Option String)) {blank : String}
    (hblank : stripped blank = []) :
    (ofLines (before ++ some blank :: behind)).program =
      (ofLines (before ++ behind)).program.inserted before.length := by
  rw [ofLines_append, ofLines_append, List.foldl_cons]
  exact ((inserted_ofLines before hblank).foldl_feed behind).program

end Assembly

namespace Program

/-- A source with a blank line more gives the program with an empty line more. -/
theorem assemble_inserted {source source' : Stream} {before behind : List (Option String)}
    {blank : String} {p : Program} (h : (assemble source).1 = .ok p)
    (hfailure : source'.failure = none) (hlines : source.lines = before ++ behind)
    (hlines' : source'.lines = before ++ some blank :: behind) (hblank : stripped blank = []) :
    (assemble source').1 = .ok (p.inserted before.length) := by
  obtain ⟨-, rfl⟩ := assemble_eq_ok.mp h
  refine assemble_eq_ok.mpr ⟨hfailure, ?_⟩
  rw [hlines, hlines', Assembly.program_ofLines_inserted before behind hblank]

end Program

end MipsText
