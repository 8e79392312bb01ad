/-
# `MipsText.Proofs.Source.Transparency` — comments and outer blanks do not count

`Dressed line text` says that `text` is `line` with blanks put before or behind it and
comments put behind it, in any order and number.  A comment may be put behind a text on
which the scan for comments finds one already, or which it leaves outside quotes: behind an
open quote, a `#` is part of a string.

Dressing a line does not change what is left of it once its comment and outer blanks are
gone, and the assembler sees nothing else.  So the same program comes from both sources,
with the same notices.

The trimming that comes before the scan makes no difference (`stripped_eq_trim`), which lets
every rule of `Dressed` be looked at on the whole line.
-/
import MipsText.Proofs.Source.Encoding
import MipsText.Proofs.Source.Literal

namespace MipsText

namespace Source

/-! ## The scan for comments -/

/-- How a scan for a comment ends: where it stands relative to quotes, or `none` if it
finds one. -/
def scanFrom (q : Quoting) : List Char → Option Quoting
  | [] => some q
  | c :: cs => if q = .outside ∧ c = '#' then none else scanFrom (q.next c) cs

/-- The scan goes on behind a text as it stands at its end; behind a comment nothing is
kept. -/
theorem withoutCommentFrom_append (q : Quoting) (cs ds : List Char) :
    withoutCommentFrom q (cs ++ ds) =
      withoutCommentFrom q cs ++ (scanFrom q cs).elim [] (withoutCommentFrom · ds) := by
  induction cs generalizing q with
  | nil => rfl
  | cons c cs ih =>
      rw [List.cons_append, withoutCommentFrom, withoutCommentFrom, scanFrom]
      split
      · rfl
      · rw [ih, List.cons_append]

theorem withoutCommentFrom_blanks {bs : List Char} (h : ∀ b ∈ bs, Text.isBlank b = true)
    (q : Quoting) : withoutCommentFrom q bs = bs := by
  induction bs generalizing q with
  | nil => rfl
  | cons b bs ih =>
      have hhash : b ≠ '#' := (Trailing.not_special_of_blank (h b List.mem_cons_self)).2
      rw [withoutCommentFrom, if_neg (by simp [hhash])]
      exact congrArg (b :: ·) (ih (fun d hd => h d (List.mem_cons_of_mem _ hd)) _)

theorem trim_withoutComment_blanks_append {bs : List Char} (h : ∀ b ∈ bs, Text.isBlank b = true)
    (cs : List Char) : Text.trim (withoutComment (bs ++ cs)) = Text.trim (withoutComment cs) := by
  rw [withoutComment_append fun b hb => Trailing.not_special_of_blank (h b hb)]
  exact Text.trim_blanks_append h _

theorem trim_withoutComment_append_blanks {bs : List Char} (h : ∀ b ∈ bs, Text.isBlank b = true)
    (cs : List Char) : Text.trim (withoutComment (cs ++ bs)) = Text.trim (withoutComment cs) := by
  rw [withoutComment, withoutCommentFrom_append]
  cases scanFrom .outside cs with
  | none => rw [Option.elim_none, List.append_nil, withoutComment]
  | some q =>
      rw [Option.elim_some, withoutCommentFrom_blanks h]
      exact Text.trim_append_blanks h _

theorem stripped_eq_trim (text : String) :
    stripped text = Text.trim (withoutComment text.toList) := by
  obtain ⟨front, back, htext, hfront, hback⟩ := Text.exists_eq_trim text.toList
  conv => rhs; rw [htext]
  rw [trim_withoutComment_blanks_append hfront, trim_withoutComment_append_blanks hback]
  rfl

/-! ## Dressing -/

/-- Blanks that stay within a line. -/
def IsPadding (s : String) : Prop :=
  ∀ c ∈ s.toList, Text.isBlank c = true ∧ c ≠ '\n'

instance (s : String) : Decidable (IsPadding s) :=
  List.decidableBAll _ s.toList

/-- May a comment be put behind the text?  The scan finds one already, or ends outside
quotes. -/
def TakesComment (text : String) : Prop :=
  scanFrom .outside text.toList = none ∨ scanFrom .outside text.toList = some .outside
deriving Decidable

/-- `Dressed line text`: the text is the line with blanks around it and comments behind. -/
inductive Dressed (line : String) : String → Prop
  | same : Dressed line line
  | before {blanks text : String} : IsPadding blanks → Dressed line text →
      Dressed line (blanks ++ text)
  | behind {blanks text : String} : IsPadding blanks → Dressed line text →
      Dressed line (text ++ blanks)
  | comment {text comment : String} : TakesComment text → '\n' ∉ comment.toList →
      Dressed line text → Dressed line (text ++ "#" ++ comment)

namespace Dressed

variable {line text : String}

theorem stripped_comment {comment : String} (h : TakesComment text) :
    stripped (text ++ "#" ++ comment) = stripped text := by
  have htext : (text ++ "#" ++ comment).toList = text.toList ++ '#' :: comment.toList := by
    simp
  rw [stripped_eq_trim, stripped_eq_trim, htext, withoutComment, withoutCommentFrom_append]
  rcases h with h | h
  · rw [h, Option.elim_none, List.append_nil, withoutComment]
  · rw [h, Option.elim_some, withoutCommentFrom, if_pos ⟨rfl, rfl⟩, List.append_nil]
    rfl

/-- A dressed line comes down to the same text. -/
theorem stripped_eq (h : Dressed line text) : stripped text = stripped line := by
  induction h with
  | same => rfl
  | @before blanks text hblanks _ ih =>
      rw [← ih, stripped_eq_trim, stripped_eq_trim, String.toList_append]
      exact trim_withoutComment_blanks_append (fun b hb => (hblanks b hb).1) _
  | @behind blanks text hblanks _ ih =>
      rw [← ih, stripped_eq_trim, stripped_eq_trim, String.toList_append]
      exact trim_withoutComment_append_blanks (fun b hb => (hblanks b hb).1) _
  | comment htakes _ _ ih => rw [stripped_comment htakes, ih]

theorem newline_notMem (h : Dressed line text) (hline : '\n' ∉ line.toList) :
    '\n' ∉ text.toList := by
  induction h with
  | same => exact hline
  | before hblanks _ ih =>
      rw [String.toList_append, List.mem_append]
      rintro (hmem | hmem)
      · exact (hblanks _ hmem).2 rfl
      · exact ih hmem
  | behind hblanks _ ih =>
      rw [String.toList_append, List.mem_append]
      rintro (hmem | hmem)
      · exact ih hmem
      · exact (hblanks _ hmem).2 rfl
  | comment _ hcomment _ ih =>
      simpa using ⟨ih, hcomment⟩

theorem newline_notMem_of_forall₂ {ls ls' : List String} (h : List.Forall₂ Dressed ls ls')
    (hls : ∀ line ∈ ls, '\n' ∉ line.toList) : ∀ text ∈ ls', '\n' ∉ text.toList := by
  induction h with
  | nil => exact hls
  | cons hline _ ih =>
      rw [List.forall_mem_cons] at hls ⊢
      exact ⟨hline.newline_notMem hls.1, ih hls.2⟩

end Dressed

end Source

/-! ## Whole sources -/

open Source

theorem Assembly.feed_dressed (a : Assembly) {line text : String} (h : Dressed line text) :
    a.feed (some text) = a.feed (some line) := by
  have hline : Line.ofText text = Line.ofText line := congrArg Line.ofStripped h.stripped_eq
  rw [feed_some, feed_some, hline]

theorem Assembly.foldl_feed_dressed {ls ls' : List String} (h : List.Forall₂ Dressed ls ls')
    (a : Assembly) : (ls'.map some).foldl feed a = (ls.map some).foldl feed a := by
  induction h generalizing a with
  | nil => rfl
  | cons hline _ ih =>
      rw [List.map_cons, List.map_cons, List.foldl_cons, List.foldl_cons, feed_dressed a hline]
      exact ih _

namespace Program

theorem assemble_congr {source source' : Stream} (hfailure : source'.failure = source.failure)
    (hlines : Assembly.ofLines source'.lines = Assembly.ofLines source.lines) :
    assemble source' = assemble source := by
  rw [assemble, assemble, hfailure, hlines]

/-- Comments and blanks around lines are transparent.  A source of which any lines are
dressed gives the same program, with the same entry and labels, and the same notices.  This
holds of the sources that are written from the lines, and of all that are read as these
lines, such as one whose last line is not ended. -/
theorem assemble_dressed {ls ls' : List String} (hls : ∀ line ∈ ls, '\n' ∉ line.toList)
    (h : List.Forall₂ Dressed ls ls') :
    assemble (Stream.ofLines ls') = assemble (Stream.ofLines ls) ∧
      ∀ source source' : Stream, source'.failure = source.failure →
        source.lines = ls.map some → source'.lines = ls'.map some →
        assemble source' = assemble source := by
  have hread : ∀ source source' : Stream, source'.failure = source.failure →
      source.lines = ls.map some → source'.lines = ls'.map some →
      assemble source' = assemble source := by
    intro source source' hfailure hsource hsource'
    refine assemble_congr hfailure ?_
    rw [hsource, hsource']
    exact Assembly.foldl_feed_dressed h {}
  have hls' := Dressed.newline_notMem_of_forall₂ h hls
  exact ⟨hread _ _ rfl (Stream.lines_ofLines hls) (Stream.lines_ofLines hls'), hread⟩

/-- A string with a `#` in it and an empty line, dressed: the string stays as it is. -/
theorem assemble_dressed_string :
    let ls := ["x: .asciiz \"a#b\"", "", ".text", "syscall # \""]
    let ls' := ["\t" ++ ("x: .asciiz \"a#b\"" ++ " " ++ "#" ++ "\""), "" ++ "#" ++ "x: .word",
      ".text" ++ "\t", "syscall # \"" ++ "#" ++ ""]
    assemble (Stream.ofLines ls') = assemble (Stream.ofLines ls) ∧
      ((assemble (Stream.ofLines ls')).1.toOption.bind (·.symbols.strings["x"]?)) =
        some "a#b" := by
  intro ls ls'
  have hls : ∀ line ∈ ls, '\n' ∉ line.toList := by decide
  have htab : IsPadding "\t" := by decide
  have hspace : IsPadding " " := by decide
  have hdressed : List.Forall₂ Dressed ls ls' :=
    .cons (.before htab (.comment (by decide) (by decide) (.behind hspace .same)))
      (.cons (.comment (by decide) (by decide) .same)
        (.cons (.behind htab .same)
          (.cons (.comment (by decide) (by decide) .same) .nil)))
  exact ⟨(assemble_dressed hls hdressed).1, by decide +kernel⟩

end Program

end MipsText
