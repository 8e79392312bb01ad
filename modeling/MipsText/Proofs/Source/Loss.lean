/-
# `MipsText.Proofs.Source.Loss` — data directives and what becomes of them

A line of the data section may hold a data directive: its statement, which is what stands behind
its label or the whole line when there is none, begins with `.word`, `.space` or `.asciiz`.
Nothing of it is left to be executed.  So its data have to come into the tables, or somebody has
to be told.

  * With a label, one of the two happens, and never both.
  * Without a label there is nothing to put the data under.  They are lost, and nothing is said:
    the tables are as before, and no note is about the line.

The second case includes a label that stands on the line before, and a line which starts a
section because its label begins like one.
-/
import MipsText.Proofs.Source.Data

namespace MipsText

open Source

namespace Source

/-! ## Lines that hold a directive -/

/-- The statement of a line: what stands behind its label, or the whole line. -/
def statement (text : String) : List Char :=
  match labelled? (stripped text) with
  | some (_, rest) => rest
  | none => stripped text

/-- Does a statement begin like a data directive? -/
def isData (cs : List Char) : Bool :=
  [".word", ".space", ".asciiz"].any (Text.startsWith cs)

/-- `DirectiveAt lines i text`: line `i` lies in the data section and reads `text`, and its
statement begins like a data directive. -/
structure DirectiveAt (lines : List (Option String)) (i : Nat) (text : String) : Prop where
  within : sectionAfter (lines.take i) = .data
  line : lines[i]? = some (some text)
  data : isData (statement text) = true

theorem statement_of_labelled {text name : String} {rest : List Char}
    (h : Labelled (some text) name rest) : statement text = rest := by
  obtain ⟨_, before, behind, htext, hlabel⟩ := h
  obtain rfl := Option.some.inj htext
  rw [statement, labelled?_eq_some.mpr ⟨before, behind, hlabel⟩]

theorem statement_of_plain {text rest : String} (h : Line.ofText text = .plain rest) :
    statement text = rest.toList := by
  rw [statement]
  split
  · next name behind hlabel =>
      -- a line of this form would have been taken as a labelled one
      obtain ⟨before, _, hcut⟩ := labelled?_eq_some.mp hlabel
      have hl : Labelled (some text) (String.ofList name) behind :=
        ⟨text, before, _, rfl, by rwa [String.toList_ofList]⟩
      have hs : startsSection (some text) = false := by
        simp [startsSection, begins_text_eq, begins_data_eq, h]
      obtain ⟨_, htext, hlabelled⟩ := hl.ofText hs
      obtain rfl := Option.some.inj htext
      simp [h] at hlabelled
  · exact (Line.toList_of_ofText_eq_plain h).symm

theorem executable_of_isData {statement : String} (h : isData statement.toList = true) :
    Line.executable statement = "" := by
  simp only [isData, List.any_cons, List.any_nil, Bool.or_false, Bool.or_eq_true] at h
  rw [Line.executable]
  rcases h with h | h | h
  all_goals
    obtain ⟨rest, hrest⟩ := Text.startsWith_iff.mp h
    rw [hrest]
    rfl

theorem kept_of_isData {text : String} (h : isData (statement text) = true) :
    kept (some text) = "" := by
  rw [kept]
  cases hline : Line.ofText text with
  | enter s => rfl
  | labelled name rest =>
      rw [statement_of_labelled (Line.ofText_eq_labelled.mp hline).2] at h
      exact executable_of_isData h
  | plain rest =>
      rw [statement_of_plain hline] at h
      exact executable_of_isData h

/-! ## Data in the tables -/

namespace Directive

/-- `d.Added name before after`: between the two states of the tables, the words of the directive
were put behind those of the label, or its string became the string of the label. -/
structure Added (d : Directive) (name : String) (before after : Symbols) : Prop where
  words : ∀ values, d.words? = some values →
    after.words[name]? = some (before.words[name]?.getD #[] ++ values.toArray)
  string : ∀ text, d.string? = some text → after.strings[name]? = some text

/-- `d.Present name s`: the words of the directive stand together among those of the label; or,
if it declares a string, the label has one. -/
structure Present (d : Directive) (name : String) (s : Symbols) : Prop where
  words : ∀ values, d.words? = some values →
    ∃ ws, s.words[name]? = some ws ∧ values <:+: ws.toList
  string : ∀ text, d.string? = some text → ∃ last, s.strings[name]? = some last

theorem added_define (d : Directive) (name : String) (s : Symbols) :
    d.Added name s (d.define s name) where
  words values hvalues := by rw [words_define, hvalues]
  string text htext := by rw [strings_define, htext, Option.some_or]

end Directive

end Source

namespace Assembly

variable {lines : List (Option String)} {i : Nat}

theorem added_ofLines {name : String} {rest : List Char} {d : Directive}
    (hlabel : LabelAt lines i .data name rest) (hd : Declares rest d) :
    d.Added name (ofLines (lines.take i)).program.symbols
      (ofLines (lines.take (i + 1))).program.symbols := by
  obtain ⟨line, hline, hs, hl⟩ := hlabel.labelled
  rw [ofLines_take_succ hline, feed_of_data ((within_ofLines _).trans hlabel.within) hs hl,
    addData_of_declares hd]
  exact d.added_define name _

/-- No later line takes the data of a directive away, though a string may be replaced. -/
theorem present_ofLines {name : String} {rest : List Char} {d : Directive}
    (hlabel : LabelAt lines i .data name rest) (hd : Declares rest d) :
    d.Present name (ofLines lines).program.symbols := by
  obtain ⟨ds, hds, hnone, hwords, hstring⟩ := data_ofLines lines name
  have hmem : (i, d) ∈ ds := (hds.mem_iff i d).mpr ⟨rest, hlabel, hd⟩
  constructor
  · intro values hvalues
    have hlisted : values ∈ ds.filterMap (·.2.words?) :=
      List.mem_filterMap.mpr ⟨(i, d), hmem, hvalues⟩
    cases hfound : (ofLines lines).program.symbols.words[name]? with
    | none => exact absurd (hnone.mp hfound) (List.ne_nil_of_mem hlisted)
    | some ws =>
        rw [hfound, Option.getD_some] at hwords
        refine ⟨ws, rfl, ?_⟩
        rw [hwords]
        exact List.infix_of_mem_flatten hlisted
  · intro text htext
    have hlisted : text ∈ ds.filterMap (·.2.string?) :=
      List.mem_filterMap.mpr ⟨(i, d), hmem, htext⟩
    rw [hstring]
    exact ⟨_, List.getLast?_eq_some_getLast (List.ne_nil_of_mem hlisted)⟩

theorem feed_notices_of_unlabelled {a : Assembly} {text : String}
    (h : ∀ name rest, startsSection (some text) = false → ¬ Labelled (some text) name rest) :
    (a.feed (some text)).notices = a.notices := by
  rw [feed_some, keep_notices]
  cases hline : Line.ofText text with
  | enter s => cases s <;> rfl
  | labelled name rest =>
      obtain ⟨hs, hl⟩ := Line.ofText_eq_labelled.mp hline
      exact absurd hl (h name _ hs)
  | plain rest => rfl

theorem ofLines_of_unlabelled {text : String} (hwithin : sectionAfter (lines.take i) = .data)
    (hline : lines[i]? = some (some text))
    (hnone : ∀ name rest, ¬ LabelAt lines i .data name rest) :
    (ofLines (lines.take (i + 1))).program.symbols = (ofLines (lines.take i)).program.symbols ∧
      (ofLines lines).notices.toList.filter (fun n => n.line? = some i) = [] := by
  have hunlabelled : ∀ name rest, startsSection (some text) = false →
      ¬ Labelled (some text) name rest := by
    intro name rest hs hl
    exact hnone name rest ⟨hwithin, some text, hline, hs, hl⟩
  constructor
  · rw [ofLines_take_succ hline, feed_symbols_of_unlabelled hunlabelled]
  · exact notices_about_line hline (by rw [feed_notices_of_unlabelled hunlabelled, List.append_nil])

end Assembly

namespace Program

/-- What is noted about a line is noted while the lines are assembled; the summary is about
none. -/
theorem assemble_notices_about {source : Stream} (h : source.failure = none) (i : Nat) :
    (assemble source).2.filter (fun n => n.line? = some i) =
      (Assembly.ofLines source.lines).notices.toList.filter fun n => n.line? = some i := by
  rw [assemble_notices h, List.filter_append]
  exact List.append_nil _

/-- Directives with a label are not lost.  A line of an accepted source lies in the data section,
and its statement begins like a data directive; nothing of it is left to be executed.  If the
line has a label, its data are added to the tables when the line is assembled, are there in the
end, and nothing is said; or the tables stay as they were, and one warning is about the line.
If it has no label, the tables stay as they were, and nothing is said. -/
theorem assemble_directive {source : Stream} {p : Program} (h : (assemble source).1 = .ok p)
    {i : Nat} {text : String} (hat : DirectiveAt source.lines i text) :
    let before := (Assembly.ofLines (source.lines.take i)).program.symbols
    let after := (Assembly.ofLines (source.lines.take (i + 1))).program.symbols
    let notices := (assemble source).2.filter fun n => n.line? = some i
    p.lines[i]? = some "" ∧
    (∀ name rest, LabelAt source.lines i .data name rest →
      (∃ d, Declares rest d ∧ d.Added name before after ∧ d.Present name p.symbols ∧
        notices = []) ∨
      after = before ∧ ∃ n, notices = [n] ∧ n.log.level = .warn) ∧
    ((∀ name rest, ¬ LabelAt source.lines i .data name rest) →
      after = before ∧ notices = []) := by
  intro before after notices
  obtain ⟨hreadable, rfl⟩ := assemble_eq_ok.mp h
  have hnotices : notices = _ := assemble_notices_about hreadable i
  refine ⟨?_, ?_, ?_⟩
  · rw [← Array.getElem?_toList, Assembly.lines_ofLines, List.getElem?_map, hat.line,
      Option.map_some, kept_of_isData hat.data]
  · intro name rest hlabel
    obtain ⟨line, hline, -, hl⟩ := hlabel.labelled
    obtain rfl := Option.some.inj (hat.line.symm.trans hline)
    have hne : rest ≠ [] := by
      rintro rfl
      have hdata := hat.data
      rw [statement_of_labelled hl] at hdata
      exact absurd hdata (by decide)
    rw [hnotices]
    cases hread : Directive.ofChars rest with
    | ok d =>
        have hd := Directive.ofChars_eq_ok.mp hread
        exact Or.inl ⟨d, hd, Assembly.added_ofLines hlabel hd, Assembly.present_ofLines hlabel hd,
          Assembly.notices_about_declares hlabel hd⟩
    | error e =>
        obtain ⟨hsame, hwarned⟩ := Assembly.ofLines_of_error hlabel hne hread
        exact Or.inr ⟨hsame, _, hwarned, rfl⟩
  · intro hnone
    rw [hnotices]
    exact Assembly.ofLines_of_unlabelled hat.within hat.line hnone

/-- A list of words with a bad number, between a label's good ones. -/
theorem assemble_directive_bad_word :
    let source := Stream.ofString ".data\nv: .word 7\nv: .word 1, x # two\nv: .word 8\n"
    DirectiveAt source.lines 2 "v: .word 1, x # two" ∧
      (Assembly.ofLines (source.lines.take 3)).program.symbols =
        (Assembly.ofLines (source.lines.take 2)).program.symbols ∧
      ∃ n, (assemble source).2.filter (fun n => n.line? = some 2) = [n] ∧
        n.log.level = .warn := by
  intro source
  have hat : DirectiveAt source.lines 2 "v: .word 1, x # two" :=
    ⟨by decide +kernel, by decide +kernel, by decide +kernel⟩
  have hread : Directive.ofChars ".word 1, x".toList = .error .badWords := by decide +kernel
  have hlabel : LabelAt source.lines 2 .data "v" ".word 1, x".toList := by
    obtain ⟨hs, hl⟩ := Line.ofText_eq_labelled.mp
      (show Line.ofText "v: .word 1, x # two" = .labelled "v" ".word 1, x" by decide +kernel)
    exact ⟨hat.within, _, hat.line, hs, hl⟩
  obtain ⟨-, hlabelled, -⟩ := assemble_directive (assemble_eq_ok.mpr ⟨rfl, rfl⟩) hat
  refine ⟨hat, ?_⟩
  rcases hlabelled "v" _ hlabel with ⟨d, hd, -⟩ | hwarned
  · exact nomatch hread.symm.trans (Directive.ofChars_eq_ok.mpr hd)
  · exact hwarned

/-- A label on the line before, and the data are lost: no table holds anything, and there is no
warning. -/
theorem assemble_directive_lost :
    let source := Stream.ofString ".data\narr:\n.word 1, 2, 3\n"
    let p := (Assembly.ofLines source.lines).program
    (assemble source).1 = .ok p ∧ DirectiveAt source.lines 2 ".word 1, 2, 3" ∧
      p.symbols.words.isEmpty = true ∧ p.symbols.strings.isEmpty = true ∧
      (assemble source).2.filter (fun n => n.log.level = .warn) = [] := by
  intro source p
  refine ⟨assemble_eq_ok.mpr ⟨rfl, rfl⟩, ⟨?_, ?_, ?_⟩, ?_, ?_, ?_⟩
  all_goals decide +kernel

end Program

end MipsText
