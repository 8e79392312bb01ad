/-
# `MipsText.Proofs.Source.Alignment` — line numbers mean the same in source and program

A program keeps one line for every source line, made from that line alone, so line
`i` of the one is line `i` of the other whatever stands around it.  Entry and text
labels are line numbers and can therefore be read off the source: the entry stands
behind the last `.text`, and a label stands for the last line of the text section
that carries it.

A line that is not UTF-8 counts as an empty one.  `blankUndecodable` makes that
literal: it puts empty lines in the place of such lines, in the bytes, and the
program stays the same.
-/
import MipsText.Proofs.Source.Assembling

namespace MipsText

open Source

/-! ## Lines that are not UTF-8 -/

namespace Stream

/-- The bytes of each line, without the line feeds. -/
def byteLines (s : Stream) : List (List UInt8) :=
  let pieces := Text.pieces isLineFeed s.bytes
  if s.failure.isSome || (pieces.getLast?.getD []).isEmpty then pieces.dropLast else pieces

/-- An empty line in place of every line that is not UTF-8.  Every line ends with a
line feed, so that an empty last line is a line. -/
def blankUndecodable (s : Stream) : Stream where
  bytes := (s.byteLines.map fun line => if (decode? line).isSome then line else []).flatMap
    fun line => line ++ [10]

theorem lines_eq_map_byteLines (s : Stream) : s.lines = s.byteLines.map decode? := rfl

theorem not_isLineFeed_of_mem_byteLines {s : Stream} {line : List UInt8}
    (h : line ∈ s.byteLines) : ∀ b ∈ line, isLineFeed b = false := by
  have hpiece : line ∈ Text.pieces isLineFeed s.bytes := by
    simp only [byteLines] at h
    split at h
    · exact List.dropLast_subset _ h
    · exact h
  exact Text.not_sep_of_mem_pieces hpiece

theorem length_lines_le (s : Stream) : s.lines.length ≤ s.bytes.length := by
  have hpieces := Text.length_pieces_add_le (p := isLineFeed) s.bytes
  rw [lines_eq_map_byteLines, List.length_map, byteLines]
  split
  · rw [List.length_dropLast]
    omega
  · next hlast =>
      have hne : (Text.pieces isLineFeed s.bytes).getLast?.getD [] ≠ [] := by
        intro hnil
        exact hlast (by rw [hnil, List.isEmpty_nil, Bool.or_true])
      have hpos := List.length_pos_iff.mpr hne
      omega

theorem byteLines_terminated {ls : List (List UInt8)}
    (hls : ∀ line ∈ ls, ∀ b ∈ line, isLineFeed b = false) :
    byteLines { bytes := ls.flatMap fun line => line ++ [10] } = ls := by
  have hpieces : Text.pieces isLineFeed (ls.flatMap fun line => line ++ [10]) = ls ++ [[]] :=
    Text.pieces_terminated rfl hls
  simp only [byteLines, hpieces]
  simp

theorem lines_blankUndecodable (s : Stream) :
    s.blankUndecodable.lines = s.lines.map fun line => some (line.getD "") := by
  have hback : s.blankUndecodable.byteLines =
      s.byteLines.map fun line => if (decode? line).isSome then line else [] := by
    refine byteLines_terminated ?_
    intro line hline
    obtain ⟨raw, hraw, rfl⟩ := List.mem_map.mp hline
    split
    · exact not_isLineFeed_of_mem_byteLines hraw
    · intro b hb
      exact absurd hb List.not_mem_nil
  rw [lines_eq_map_byteLines, hback, lines_eq_map_byteLines, List.map_map, List.map_map]
  refine List.map_congr_left fun raw _ => ?_
  show decode? (if (decode? raw).isSome then raw else []) = some ((decode? raw).getD "")
  cases hraw : decode? raw with
  | none => rfl
  | some text => exact hraw

end Stream

namespace Assembly

/-- Two assemblies differ at most in what they noted. -/
def SameProgram (a b : Assembly) : Prop :=
  a.program = b.program ∧ a.within = b.within

theorem SameProgram.feed {a b : Assembly} (h : SameProgram a b) (line : Option String) :
    SameProgram (a.feed line) (b.feed line) := by
  obtain ⟨p, w, notesA⟩ := a
  obtain ⟨p', w', notesB⟩ := b
  obtain ⟨rfl, rfl⟩ := h
  cases line with
  | none => exact ⟨rfl, rfl⟩
  | some text =>
      rw [feed_some, feed_some]
      cases Line.ofText text with
      | enter s => cases s <;> exact ⟨rfl, rfl⟩
      | labelled name rest =>
          cases w with
          | text => exact ⟨rfl, rfl⟩
          | data =>
              simp only [define, defineLabel, addData]
              split
              · exact ⟨rfl, rfl⟩
              · split <;> exact ⟨rfl, rfl⟩
      | plain rest => exact ⟨rfl, rfl⟩

theorem ofText_empty : Line.ofText "" = .plain "" := by
  decide

/-- A line that is not UTF-8 does what an empty line does. -/
theorem sameProgram_blank (lines : List (Option String)) :
    SameProgram (ofLines (lines.map fun line => some (line.getD ""))) (ofLines lines) := by
  induction lines using List.reverseRecOn with
  | nil => exact ⟨rfl, rfl⟩
  | append_singleton lines line ih =>
      rw [List.map_append, List.map_singleton, ofLines_concat, ofLines_concat]
      cases line with
      | some text => exact ih.feed (some text)
      | none =>
          obtain ⟨hprogram, hwithin⟩ := ih.feed (some "")
          rw [feed_some (ofLines lines), ofText_empty] at hprogram hwithin
          exact ⟨hprogram, hwithin⟩

end Assembly

/-! ## Source and program -/

namespace Program

/-- A source has a program when it can be read to its end. -/
theorem assemble_eq_ok {source : Stream} {p : Program} :
    (assemble source).1 = .ok p ↔
      source.failure = none ∧ (Assembly.ofLines source.lines).program = p := by
  simp only [assemble]
  cases source.failure with
  | none => simp
  | some failure => simp

theorem entry_le_size (lines : List (Option String)) :
    (Assembly.ofLines lines).program.entry ≤ lines.length := by
  cases hentry : (Assembly.ofLines lines).program.entry with
  | zero => exact Nat.zero_le _
  | succ i =>
      obtain ⟨⟨_, hline, -⟩, -⟩ := (Assembly.entry_ofLines_succ i).mp hentry
      exact (List.getElem?_eq_some_iff.mp hline).1

/-- Source and program agree line by line: there are as many lines, each is made from
the source line with its number alone, entry and text labels are where the source has
them, and lines that are not UTF-8 count as empty. -/
theorem assemble_aligned {source : Stream} {p : Program} (h : (assemble source).1 = .ok p) :
    p.lines.size = source.lines.length ∧
    (∀ i : Nat, p.lines[i]? = source.lines[i]?.map kept) ∧
    (p.entry = 0 ↔ ∀ line ∈ source.lines, begins ".text" line = false) ∧
    (∀ i, p.entry = i + 1 ↔
      IsGreatest {j | ∃ line, source.lines[j]? = some line ∧ begins ".text" line = true} i) ∧
    p.entry ≤ p.lines.size ∧
    (∀ name i, p.symbols.line? name = some i ↔
      IsGreatest {j | ∃ rest, LabelAt source.lines j .text name rest} i) ∧
    source.blankUndecodable.lines = source.lines.map (fun line => some (line.getD "")) ∧
    (assemble source.blankUndecodable).1 = .ok p := by
  obtain ⟨hreadable, rfl⟩ := assemble_eq_ok.mp h
  have hsize : (Assembly.ofLines source.lines).program.lines.size = source.lines.length :=
    Assembly.lineNumber_ofLines source.lines
  have hblank := source.lines_blankUndecodable
  refine ⟨hsize, ?_, Assembly.entry_ofLines_zero, fun i => Assembly.entry_ofLines_succ i,
    hsize ▸ entry_le_size source.lines, fun name i => Assembly.line?_ofLines i, hblank, ?_⟩
  · intro i
    rw [← Array.getElem?_toList, Assembly.lines_ofLines, List.getElem?_map]
  · refine assemble_eq_ok.mpr ⟨rfl, ?_⟩
    rw [hblank]
    exact (Assembly.sameProgram_blank source.lines).1

/-- A label that is given twice, around a line that is not UTF-8. -/
theorem assemble_aligned_relabelled :
    let source : Stream :=
      { bytes := ".text\nmain: noop\n".toUTF8.toList ++ [255, 10] ++
          " main : noop\n".toUTF8.toList }
    let p := (Assembly.ofLines source.lines).program
    source.lines[2]? = some none ∧
      IsGreatest {j | ∃ rest, LabelAt source.lines j .text "main" rest} 3 ∧
      (assemble source.blankUndecodable).1 = .ok p := by
  intro source p
  have hp : (assemble source).1 = .ok p := assemble_eq_ok.mpr ⟨rfl, rfl⟩
  obtain ⟨-, -, -, -, -, hlabel, -, hblank⟩ := assemble_aligned hp
  exact ⟨by decide +kernel, (hlabel "main" 3).mp (by decide +kernel), hblank⟩

end Program

end MipsText
