/-
# `MipsText.Proofs.Source.Data` — what the data section declares

A labelled line of the data section declares data for its label.  `Declares` says
which texts are directives and what they declare, without the order in which they
are tried; `Declarations` says that a list holds all that a source declares for one
label, in the order of its lines.  Assembling then comes to this:

  * the words of a label are all words declared for it, one after the other, and it
    has an array when some line declares words, be they none;
  * the string of a label is the one declared last;
  * a text that is no directive changes no table and is noted once, with the number
    of its line.
-/
import Mathlib.Algebra.Order.Floor.Div
import Mathlib.Data.List.Sort
import Mathlib.GroupTheory.GroupAction.Ring
import MipsText.Proofs.Source.Alignment

namespace MipsText

open Source

namespace Source

/-! ## Directives -/

/-- `Declares cs d`: the text behind a label is the directive `d`.  A reservation has
at most 2 ^ 24 bytes, and every value of a list of words is a number. -/
inductive Declares : List Char → Directive → Prop
  | string {body : List Char} {text : String} : literal body = .ok text →
      Declares (".asciiz".toList ++ body) (.string text)
  | space {body : List Char} {bytes : Nat} : size? (Text.trim body) = some bytes →
      bytes ≤ 16777216 → Declares (".space".toList ++ body) (.space bytes)
  | words {body : List Char} {values : List Word} :
      (Text.pieces (· == ',') body).map (fun piece => Text.immediate? (Text.trim piece)) =
        values.map some →
      Declares (".word".toList ++ body) (.words values)

theorem mapM_eq_some {α β : Type} {f : α → Option β} {xs : List α} {ys : List β} :
    xs.mapM f = some ys ↔ xs.map f = ys.map some := by
  induction xs generalizing ys with
  | nil => cases ys <;> simp
  | cons x xs ih => cases ys <;> simp [ih, Option.bind_eq_some_iff]

theorem reservation_eq_ok {cs : List Char} {d : Directive} :
    reservation cs = .ok d ↔
      ∃ bytes, size? (Text.trim cs) = some bytes ∧ bytes ≤ 16777216 ∧ d = .space bytes := by
  simp only [reservation]
  cases size? (Text.trim cs) with
  | none => simp
  | some bytes =>
      by_cases hfits : bytes ≤ spaceLimit
      · have hle : bytes ≤ 16777216 := hfits
        simp [if_pos hfits, hle, eq_comm]
      · have hgt : ¬ bytes ≤ 16777216 := hfits
        simp [if_neg hfits, hgt]

theorem wordList_eq_ok {cs : List Char} {d : Directive} :
    wordList cs = .ok d ↔
      ∃ values : List Word,
        (Text.pieces (· == ',') cs).map (fun piece => Text.immediate? (Text.trim piece)) =
          values.map some ∧ d = .words values := by
  simp only [wordList, ← mapM_eq_some]
  cases (Text.pieces (· == ',') cs).mapM fun piece => Text.immediate? (Text.trim piece) with
  | none => simp
  | some values => simp [eq_comm]

namespace Directive

/-- No text begins like two directives, so the order in which they are tried does not
matter. -/
theorem ofChars_eq_ok {cs : List Char} {d : Directive} : ofChars cs = .ok d ↔ Declares cs d := by
  constructor
  · intro h
    rw [ofChars] at h
    split at h
    · next body hstring =>
        obtain rfl := Text.after?_eq_some.mp hstring
        split at h
        · next text htext =>
            obtain rfl := Except.ok.inj h
            exact .string htext
        · exact nomatch h
    · split at h
      · next body hspace =>
          obtain rfl := Text.after?_eq_some.mp hspace
          obtain ⟨bytes, hbytes, hle, rfl⟩ := reservation_eq_ok.mp h
          exact .space hbytes hle
      · split at h
        · next body hword =>
            obtain rfl := Text.after?_eq_some.mp hword
            obtain ⟨values, hvalues, rfl⟩ := wordList_eq_ok.mp h
            exact .words hvalues
        · exact nomatch h
  · intro h
    cases h with
    | @string body text htext =>
        have hfound : Text.after? (".asciiz".toList ++ body) ".asciiz" = some body :=
          Text.after?_eq_some.mpr rfl
        simp only [ofChars, hfound, htext]
    | @space body bytes hbytes hle =>
        have hother : Text.after? (".space".toList ++ body) ".asciiz" = none := rfl
        have hfound : Text.after? (".space".toList ++ body) ".space" = some body :=
          Text.after?_eq_some.mpr rfl
        simp only [ofChars, hother, hfound]
        exact reservation_eq_ok.mpr ⟨bytes, hbytes, hle, rfl⟩
    | @words body values hvalues =>
        have hother : Text.after? (".word".toList ++ body) ".asciiz" = none := rfl
        have hother' : Text.after? (".word".toList ++ body) ".space" = none := rfl
        have hfound : Text.after? (".word".toList ++ body) ".word" = some body :=
          Text.after?_eq_some.mpr rfl
        simp only [ofChars, hother, hother', hfound]
        exact wordList_eq_ok.mpr ⟨values, hvalues, rfl⟩

/-! ## What a directive adds to the tables -/

/-- The words that a directive declares; a reservation declares zeros, enough to hold
its bytes. -/
def words? : Directive → Option (List Word)
  | .string _ => none
  | .space bytes => some (List.replicate (bytes ⌈/⌉ 4) 0)
  | .words values => some values

def string? : Directive → Option String
  | .string text => some text
  | .space _ => none
  | .words _ => none

theorem zeros_eq (bytes : Nat) : zeros bytes = (List.replicate (bytes ⌈/⌉ 4) 0).toArray := by
  rw [zeros, Nat.ceilDiv_eq_add_pred_div, List.toArray_replicate]
  rfl

section Define

variable (d : Directive) (s : Symbols)

theorem words_define (name : String) :
    (d.define s name).words[name]? =
      match d.words? with
      | some values => some (s.words[name]?.getD #[] ++ values.toArray)
      | none => s.words[name]? := by
  cases d with
  | string text => rfl
  | space bytes => rw [define, Symbols.words_appendWords, if_pos rfl, zeros_eq, words?]
  | words values => rw [define, Symbols.words_appendWords, if_pos rfl, words?]

theorem strings_define (name : String) :
    (d.define s name).strings[name]? = d.string?.or s.strings[name]? := by
  cases d with
  | string text => rw [define, Symbols.strings_setString, if_pos rfl, string?, Option.some_or]
  | space bytes => rfl
  | words values => rfl

theorem define_of_ne {label name : String} (h : label ≠ name) :
    (d.define s label).words[name]? = s.words[name]? ∧
      (d.define s label).strings[name]? = s.strings[name]? := by
  cases d with
  | string text => exact ⟨rfl, by rw [define, Symbols.strings_setString, if_neg h]⟩
  | space bytes => exact ⟨by rw [define, Symbols.words_appendWords, if_neg h], rfl⟩
  | words values => exact ⟨by rw [define, Symbols.words_appendWords, if_neg h], rfl⟩

end Define

end Directive

/-! ## What a source declares -/

/-- `Declarations lines name ds`: the list `ds` holds every directive that a line of the
data section labelled `name` carries, with the number of the line, in the order of the
lines. -/
structure Declarations (lines : List (Option String)) (name : String)
    (ds : List (Nat × Directive)) : Prop where
  ordered : ds.Pairwise fun a b => a.1 < b.1
  mem_iff : ∀ i d, (i, d) ∈ ds ↔ ∃ rest, LabelAt lines i .data name rest ∧ Declares rest d

namespace Declarations

variable {lines : List (Option String)} {line : Option String} {name : String}
  {ds : List (Nat × Directive)}

theorem nil (name : String) : Declarations [] name [] where
  ordered := List.Pairwise.nil
  mem_iff i d := by
    refine ⟨fun h => absurd h List.not_mem_nil, ?_⟩
    rintro ⟨rest, hlabel, -⟩
    exact absurd hlabel.lt_length (Nat.not_lt_zero i)

theorem concat (h : Declarations lines name ds) {rest : List Char} {d : Directive}
    (hw : sectionAfter lines = .data) (hs : startsSection line = false)
    (hl : Labelled line name rest) (hd : Declares rest d) :
    Declarations (lines ++ [line]) name (ds ++ [(lines.length, d)]) where
  ordered := by
    refine List.pairwise_append.mpr ⟨h.ordered, List.pairwise_singleton _ _, ?_⟩
    rintro ⟨i, e⟩ hmem last hlast
    obtain rfl := List.mem_singleton.mp hlast
    obtain ⟨_, hlabel, -⟩ := (h.mem_iff i e).mp hmem
    exact hlabel.lt_length
  mem_iff i e := by
    rw [List.mem_append, List.mem_singleton, h.mem_iff, Prod.mk.injEq]
    simp only [labelAt_concat]
    constructor
    · rintro (⟨rest', hlabel, he⟩ | ⟨rfl, rfl⟩)
      · exact ⟨rest', Or.inl hlabel, he⟩
      · exact ⟨rest, Or.inr ⟨rfl, hw, hs, hl⟩, hd⟩
    · rintro ⟨rest', hlabel | ⟨rfl, -, -, hl'⟩, he⟩
      · exact Or.inl ⟨rest', hlabel, he⟩
      · obtain rfl := (hl.unique hl').2
        have heq := (Directive.ofChars_eq_ok.mpr hd).symm.trans (Directive.ofChars_eq_ok.mpr he)
        exact Or.inr ⟨rfl, (Except.ok.inj heq).symm⟩

theorem skip (h : Declarations lines name ds)
    (hnone : ∀ rest d, sectionAfter lines = .data → startsSection line = false →
      Labelled line name rest → ¬ Declares rest d) :
    Declarations (lines ++ [line]) name ds where
  ordered := h.ordered
  mem_iff i d := by
    rw [h.mem_iff]
    simp only [labelAt_concat]
    constructor
    · rintro ⟨rest, hlabel, hd⟩
      exact ⟨rest, Or.inl hlabel, hd⟩
    · rintro ⟨rest, hlabel | ⟨-, hw, hs, hl⟩, hd⟩
      · exact ⟨rest, hlabel, hd⟩
      · exact absurd hd (hnone rest d hw hs hl)

theorem unique {ds' : List (Nat × Directive)} (h : Declarations lines name ds)
    (h' : Declarations lines name ds') : ds = ds' := by
  have : Std.Antisymm fun a b : Nat × Directive => a.1 < b.1 :=
    ⟨fun a b hab hba => absurd hba (Nat.lt_asymm hab)⟩
  have : Std.Irrefl fun a b : Nat × Directive => a.1 < b.1 :=
    ⟨fun a => Nat.lt_irrefl a.1⟩
  refine h.ordered.eq_of_mem_iff h'.ordered ?_
  rintro ⟨i, d⟩
  rw [h.mem_iff, h'.mem_iff]

theorem filterMap_ne_nil {β : Type} (h : Declarations lines name ds) (f : Directive → Option β) :
    (ds.filterMap fun d => f d.2) ≠ [] ↔ ∃ i rest d, LabelAt lines i .data name rest ∧
      Declares rest d ∧ (f d).isSome = true := by
  rw [Ne, List.filterMap_eq_nil_iff]
  constructor
  · intro hsome
    by_contra hnone
    refine hsome fun listed hmem => ?_
    obtain ⟨rest, hlabel, hd⟩ := (h.mem_iff listed.1 listed.2).mp hmem
    by_contra hf
    exact hnone ⟨listed.1, rest, listed.2, hlabel, hd, Option.isSome_iff_ne_none.mpr hf⟩
  · rintro ⟨i, rest, d, hlabel, hd, hf⟩ hnone
    exact Option.isSome_iff_ne_none.mp hf (hnone (i, d) ((h.mem_iff i d).mpr ⟨rest, hlabel, hd⟩))

theorem getLast?_filterMap {β : Type} (h : Declarations lines name ds) {f : Directive → Option β}
    {i : Nat} {d : Directive} {b : β} (hmem : (i, d) ∈ ds) (hb : f d = some b)
    (hlast : ∀ j e, (j, e) ∈ ds → i < j → f e = none) :
    (ds.filterMap fun d => f d.2).getLast? = some b := by
  obtain ⟨earlier, later, rfl⟩ := List.append_of_mem hmem
  have hlater : (later.filterMap fun d => f d.2) = [] := by
    refine List.filterMap_eq_nil_iff.mpr fun listed hlisted => ?_
    have hlt : i < listed.1 :=
      List.rel_of_pairwise_cons (List.pairwise_append.mp h.ordered).2.1 hlisted
    exact hlast listed.1 listed.2 (by simp [hlisted]) hlt
  rw [List.filterMap_append, List.filterMap_cons, hb, hlater, List.getLast?_concat]

end Declarations

end Source

namespace Assembly

/-! ## One more line of the data section -/

section Feed

variable {a : Assembly} {line : Option String} {name : String} {rest : List Char}

theorem addData_of_declares {d : Directive} (hd : Declares rest d) :
    a.addData name (String.ofList rest) = a.updateSymbols fun symbols => d.define symbols name := by
  have hne : rest ≠ [] := by cases hd <;> exact List.cons_ne_nil _ _
  rw [addData, if_neg (by simpa using hne), String.toList_ofList, Directive.ofChars_eq_ok.mpr hd]

theorem addData_of_error {e : DirectiveError} (hne : rest ≠ [])
    (he : Directive.ofChars rest = .error e) :
    a.addData name (String.ofList rest) = a.note (.badDirective a.lineNumber name e) := by
  rw [addData, if_neg (by simpa using hne), String.toList_ofList, he]

theorem addData_symbols_of_not_declares (h : ∀ d, ¬ Declares rest d) :
    (a.addData name (String.ofList rest)).program.symbols = a.program.symbols := by
  by_cases hempty : rest = []
  · rw [hempty]
    rfl
  · cases hread : Directive.ofChars rest with
    | ok d => exact absurd (Directive.ofChars_eq_ok.mp hread) (h d)
    | error e =>
        rw [addData_of_error hempty hread]
        rfl

theorem feed_data_of_not
    (h : ∀ rest d, a.within = .data → startsSection line = false →
      Labelled line name rest → ¬ Declares rest d) :
    (a.feed line).program.symbols.words[name]? = a.program.symbols.words[name]? ∧
      (a.feed line).program.symbols.strings[name]? = a.program.symbols.strings[name]? := by
  by_cases hlabel : ∃ label rest, startsSection line = false ∧ Labelled line label rest
  · obtain ⟨label, rest, hs, hl⟩ := hlabel
    cases hw : a.within with
    | text =>
        rw [feed_symbols_of_text hw hs hl]
        exact ⟨rfl, rfl⟩
    | data =>
        rw [feed_of_data hw hs hl, keep_symbols]
        by_cases hdeclares : ∃ d, Declares rest d
        · obtain ⟨d, hd⟩ := hdeclares
          have hne : label ≠ name := fun heq => h rest d hw hs (heq ▸ hl) hd
          rw [addData_of_declares hd]
          exact d.define_of_ne a.program.symbols hne
        · rw [addData_symbols_of_not_declares fun d hd => hdeclares ⟨d, hd⟩]
          exact ⟨rfl, rfl⟩
  · rw [feed_symbols_of_unlabelled fun label rest hs hl => hlabel ⟨label, rest, hs, hl⟩]
    exact ⟨rfl, rfl⟩

/-! ## What is noted -/

variable (a line)

@[simp] theorem keep_notices (text : String) : (a.keep text).notices = a.notices := rfl

theorem note_notices (n : Notice) : (a.note n).notices.toList = a.notices.toList ++ [n] :=
  Array.toList_push

theorem feed_notices : ∃ new : List Notice,
    (a.feed line).notices.toList = a.notices.toList ++ new ∧
      ∀ n ∈ new, n.line? = some a.lineNumber := by
  have hsilent : ∃ new : List Notice, a.notices.toList = a.notices.toList ++ new ∧
      ∀ n ∈ new, n.line? = some a.lineNumber :=
    ⟨[], (List.append_nil _).symm, fun n hn => absurd hn List.not_mem_nil⟩
  cases line with
  | none => exact ⟨[.undecodable a.lineNumber], note_notices a _, by simp [Notice.line?]⟩
  | some text =>
      rw [feed_some, keep_notices]
      cases Line.ofText text with
      | enter s => cases s <;> exact hsilent
      | labelled name rest =>
          rw [define]
          rcases a.defineLabel_shape name rest with ⟨f, h⟩ | ⟨n, hn, h⟩
          · rw [h]
            exact hsilent
          · rw [h]
            exact ⟨[n], note_notices a n, by simpa using hn⟩
      | plain rest => exact hsilent

end Feed

/-! ## All lines -/

section OfLines

variable {lines : List (Option String)}

/-- The data of a label are the declarations of the source for it, in their order. -/
theorem data_ofLines (lines : List (Option String)) (name : String) :
    ∃ ds, Declarations lines name ds ∧
      ((ofLines lines).program.symbols.words[name]? = none ↔
        ds.filterMap (·.2.words?) = []) ∧
      ((ofLines lines).program.symbols.words[name]?.getD #[]).toList =
        (ds.filterMap (·.2.words?)).flatten ∧
      (ofLines lines).program.symbols.strings[name]? = (ds.filterMap (·.2.string?)).getLast? := by
  induction lines using List.reverseRecOn with
  | nil => exact ⟨[], .nil name, by simp [ofLines], by simp [ofLines], by simp [ofLines]⟩
  | append_singleton lines line ih =>
      obtain ⟨ds, hds, hnone, hwords, hstring⟩ := ih
      rw [ofLines_concat]
      by_cases hdeclares : ∃ rest d, sectionAfter lines = .data ∧ startsSection line = false ∧
          Labelled line name rest ∧ Declares rest d
      · -- the line adds to the list what it adds to the tables
        obtain ⟨rest, d, hw, hs, hl, hd⟩ := hdeclares
        have hsymbols : ((ofLines lines).feed line).program.symbols =
            d.define (ofLines lines).program.symbols name := by
          rw [feed_of_data ((within_ofLines lines).trans hw) hs hl, keep_symbols,
            addData_of_declares hd]
          rfl
        refine ⟨_, hds.concat hw hs hl hd, ?_⟩
        rw [hsymbols, d.words_define, d.strings_define, List.filterMap_append,
          List.filterMap_append, hstring]
        cases d with
        | string text =>
            have hno : [(lines.length, Directive.string text)].filterMap (·.2.words?) = [] := rfl
            rw [hno, List.append_nil]
            exact ⟨hnone, hwords, by simp [Directive.string?]⟩
        | space bytes => simp [Directive.words?, Directive.string?, hwords]
        | words values => simp [Directive.words?, Directive.string?, hwords]
      · have hskip : ∀ rest d, sectionAfter lines = .data → startsSection line = false →
            Labelled line name rest → ¬ Declares rest d :=
          fun rest d hw hs hl hd => hdeclares ⟨rest, d, hw, hs, hl, hd⟩
        obtain ⟨hsameWords, hsameStrings⟩ := feed_data_of_not (a := ofLines lines)
          fun rest d hw => hskip rest d ((within_ofLines lines).symm.trans hw)
        rw [hsameWords, hsameStrings]
        exact ⟨ds, hds.skip hskip, hnone, hwords, hstring⟩

theorem line_lt_of_mem_notices {n : Notice} (h : n ∈ (ofLines lines).notices.toList) :
    ∃ i, i < lines.length ∧ n.line? = some i := by
  induction lines using List.reverseRecOn with
  | nil => exact absurd h (by simp [ofLines])
  | append_singleton lines line ih =>
      obtain ⟨new, hnotices, hnew⟩ := feed_notices (ofLines lines) line
      rw [ofLines_concat, hnotices, List.mem_append] at h
      rw [List.length_append, List.length_singleton]
      rcases h with h | h
      · obtain ⟨i, hi, hn⟩ := ih h
        exact ⟨i, Nat.lt_succ_of_lt hi, hn⟩
      · exact ⟨lines.length, Nat.lt_succ_self _, lineNumber_ofLines lines ▸ hnew n h⟩

theorem notices_about_append {i : Nat} (hi : i < lines.length) (later : List (Option String)) :
    (ofLines (lines ++ later)).notices.toList.filter (fun n => n.line? = some i) =
      (ofLines lines).notices.toList.filter fun n => n.line? = some i := by
  induction later using List.reverseRecOn with
  | nil => rw [List.append_nil]
  | append_singleton later line ih =>
      obtain ⟨new, hnotices, hnew⟩ := feed_notices (ofLines (lines ++ later)) line
      have hother : new.filter (fun n => n.line? = some i) = [] := by
        refine List.filter_eq_nil_iff.mpr fun n hn => ?_
        rw [hnew n hn, lineNumber_ofLines, List.length_append, decide_eq_true_eq, Option.some_inj]
        omega
      rw [← List.append_assoc, ofLines_concat, hnotices, List.filter_append, hother,
        List.append_nil, ih]

/-- The notes on a line are those that were made when it was read. -/
theorem notices_about_line {i : Nat} {line : Option String} {new : List Notice}
    (hline : lines[i]? = some line)
    (hfeed : ((ofLines (lines.take i)).feed line).notices.toList =
      (ofLines (lines.take i)).notices.toList ++ new) :
    (ofLines lines).notices.toList.filter (fun n => n.line? = some i) =
      new.filter fun n => n.line? = some i := by
  have hi : i < lines.length := (List.getElem?_eq_some_iff.mp hline).1
  have hlength : (lines.take i).length = i := List.length_take_of_le (Nat.le_of_lt hi)
  have hearlier : (ofLines (lines.take i)).notices.toList.filter
      (fun n => n.line? = some i) = [] := by
    refine List.filter_eq_nil_iff.mpr fun n hn => ?_
    obtain ⟨j, hj, hnj⟩ := line_lt_of_mem_notices hn
    rw [hnj, decide_eq_true_eq, Option.some_inj]
    omega
  have hwithin : i < (lines.take (i + 1)).length := by
    rw [List.length_take_of_le hi]
    exact Nat.lt_succ_self i
  have hlater := notices_about_append hwithin (lines.drop (i + 1))
  rw [List.take_append_drop] at hlater
  rw [hlater, ofLines_take_succ hline, hfeed, List.filter_append, hearlier, List.nil_append]

theorem ofLines_of_error {i : Nat} {name : String} {rest : List Char} {e : DirectiveError}
    (hlabel : LabelAt lines i .data name rest) (hne : rest ≠ [])
    (he : Directive.ofChars rest = .error e) :
    (ofLines (lines.take (i + 1))).program.symbols = (ofLines (lines.take i)).program.symbols ∧
      (ofLines lines).notices.toList.filter (fun n => n.line? = some i) =
        [.badDirective i name e] := by
  obtain ⟨line, hline, hs, hl⟩ := hlabel.labelled
  have hlength : (lines.take i).length = i :=
    List.length_take_of_le (Nat.le_of_lt hlabel.lt_length)
  have hfeed : (ofLines (lines.take i)).feed line =
      ((ofLines (lines.take i)).note (.badDirective i name e)).keep (kept line) := by
    rw [feed_of_data ((within_ofLines _).trans hlabel.within) hs hl, addData_of_error hne he,
      lineNumber_ofLines, hlength]
  constructor
  · rw [ofLines_take_succ hline, hfeed]
    rfl
  · rw [notices_about_line hline (by rw [hfeed, keep_notices, note_notices])]
    simp [Notice.line?]

theorem notices_about_declares {i : Nat} {name : String} {rest : List Char} {d : Directive}
    (hlabel : LabelAt lines i .data name rest) (hd : Declares rest d) :
    (ofLines lines).notices.toList.filter (fun n => n.line? = some i) = [] := by
  obtain ⟨line, hline, hs, hl⟩ := hlabel.labelled
  have hfeed : ((ofLines (lines.take i)).feed line).notices.toList =
      (ofLines (lines.take i)).notices.toList ++ [] := by
    rw [feed_of_data ((within_ofLines _).trans hlabel.within) hs hl, addData_of_declares hd,
      List.append_nil]
    rfl
  exact notices_about_line hline hfeed

end OfLines

end Assembly

/-! ## Source and tables -/

namespace Program

theorem assemble_notices {source : Stream} (h : source.failure = none) :
    (assemble source).2 = (Assembly.ofLines source.lines).notices.toList ++
      [(Assembly.ofLines source.lines).program.summary] := by
  simp only [assemble, h]

/-- The data section means what it declares.  Every label has the words declared for
it, all of them and in the order of the source, and the string declared last; where
nothing is declared there is nothing.  A text that is no directive leaves the tables
of all labels as they were before its line, and is the subject of one warning. -/
theorem assemble_data {source : Stream} {p : Program} (h : (assemble source).1 = .ok p)
    (name : String) :
    (p.symbols.words[name]?.isSome = true ↔ ∃ i rest d, LabelAt source.lines i .data name rest ∧
      Declares rest d ∧ d.words?.isSome = true) ∧
    (∃ ds, Declarations source.lines name ds) ∧
    (∀ ds, Declarations source.lines name ds →
      (∀ ws, p.symbols.words[name]? = some ws →
        ws.toList = (ds.filterMap fun d => d.2.words?).flatten) ∧
      p.symbols.strings[name]? = (ds.filterMap fun d => d.2.string?).getLast?) ∧
    ∀ i rest, LabelAt source.lines i .data name rest → rest ≠ [] → (∀ d, ¬ Declares rest d) →
      (Assembly.ofLines (source.lines.take (i + 1))).program.symbols =
        (Assembly.ofLines (source.lines.take i)).program.symbols ∧
      ∃ e, Directive.ofChars rest = .error e ∧
        (assemble source).2.filter (fun n => n.line? = some i) = [.badDirective i name e] ∧
        (Notice.badDirective i name e).log =
          ⟨.warn, "Line " ++ i.repr ++ ": " ++ Notice.directiveText name e⟩ := by
  obtain ⟨hreadable, rfl⟩ := assemble_eq_ok.mp h
  obtain ⟨ds, hds, hnone, hwords, hstring⟩ := Assembly.data_ofLines source.lines name
  refine ⟨?_, ⟨ds, hds⟩, ?_, ?_⟩
  · rw [Option.isSome_iff_ne_none, Ne, hnone]
    exact hds.filterMap_ne_nil Directive.words?
  · intro ds' hds'
    obtain rfl := hds.unique hds'
    refine ⟨fun ws hws => ?_, hstring⟩
    rwa [hws] at hwords
  · intro i rest hlabel hne hinvalid
    cases he : Directive.ofChars rest with
    | ok d => exact absurd (Directive.ofChars_eq_ok.mp he) (hinvalid d)
    | error e =>
        obtain ⟨hsymbols, hnotices⟩ := Assembly.ofLines_of_error hlabel hne he
        refine ⟨hsymbols, e, rfl, ?_, rfl⟩
        rw [assemble_notices hreadable, List.filter_append, hnotices]
        rfl

/-- A label with two directives, a bad list between them and nothing from it. -/
theorem assemble_data_bad_list :
    let source := Stream.ofString
      ".data\nv: .word 7, -1 # two\nv: .word 1, x\nv: .space 5\n.text\nv: noop\n"
    let p := (Assembly.ofLines source.lines).program
    p.symbols.words["v"]? = some #[7, -1, 0, 0] ∧
      (assemble source).2.filter (fun n => n.line? = some 2) = [.badDirective 2 "v" .badWords] := by
  intro source p
  have hlabel : LabelAt source.lines 2 .data "v" ".word 1, x".toList := by
    obtain ⟨hs, hl⟩ := Line.ofText_eq_labelled.mp
      (show Line.ofText "v: .word 1, x" = .labelled "v" ".word 1, x" by decide +kernel)
    exact ⟨by decide +kernel, _, by decide +kernel, hs, hl⟩
  have hread : Directive.ofChars ".word 1, x".toList = .error .badWords := by decide +kernel
  have hinvalid : ∀ d, ¬ Declares ".word 1, x".toList d := by
    intro d hd
    exact nomatch hread.symm.trans (Directive.ofChars_eq_ok.mpr hd)
  have hp : (assemble source).1 = .ok p := assemble_eq_ok.mpr ⟨rfl, rfl⟩
  obtain ⟨-, -, -, hbad⟩ := assemble_data hp "v"
  obtain ⟨-, e, he, hnotices, -⟩ := hbad 2 _ hlabel (by decide) hinvalid
  obtain rfl := Except.error.inj (hread.symm.trans he)
  exact ⟨by decide +kernel, hnotices⟩

end Program

end MipsText
