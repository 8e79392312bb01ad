/-
# `MipsText.Proofs.Source.Literal` — strings survive being written down

`Escapes s e` says that `e` is a way to write the string `s` between quotes.  Three
scanners go over a line with a literal, each with its own memory of backslashes: the
one that looks for a comment, the one that looks for the closing quote and the one
that decodes escapes.  On `e` all three stay in step: they pass over an escape as one
unit and over any other character as itself.  So whatever the string holds, `#`, `:`
and quotes included, the line with its literal comes to the string, and what follows
the closing quote is taken as blanks and a comment.
-/
import MipsText.Proofs.Source.Data
import MipsText.Proofs.Source.Quotation

namespace MipsText

namespace Source

/-! ## Written strings -/

/-- The letter that stands for a character behind a backslash, if there is one. -/
def escapeLetter? : Char → Option Char
  | '\n' => some 'n'
  | '\r' => some 'r'
  | '\t' => some 't'
  | '\x00' => some '0'
  | '\\' => some '\\'
  | '\'' => some '\''
  | '"' => some '"'
  | _ => none

/-- `Escapes s e`: the string `s` is written `e` between quotes.  A line feed, a quote
and a backslash are escaped, and any other character may be if it has an escape. -/
inductive Escapes : List Char → List Char → Prop
  | nil : Escapes [] []
  | plain {c : Char} {s e : List Char} : c ≠ '\n' → c ≠ '"' → c ≠ '\\' → Escapes s e →
      Escapes (c :: s) (c :: e)
  | escape {c letter : Char} {s e : List Char} : escapeLetter? c = some letter → Escapes s e →
      Escapes (c :: s) ('\\' :: letter :: e)

theorem escape?_of_escapeLetter? {c letter : Char} (h : escapeLetter? c = some letter) :
    escape? letter = some c := by
  unfold escapeLetter? at h
  split at h
  case h_8 => exact nomatch h
  all_goals
    obtain rfl := Option.some.inj h
    rfl

/-! ## The three scanners -/

namespace Escapes

variable {s e : List Char}

/-- No comment starts in a literal, and the scan leaves it at its closing quote. -/
theorem withoutCommentFrom (h : Escapes s e) (rest : List Char) :
    withoutCommentFrom .inside (e ++ '"' :: rest) = e ++ '"' :: withoutComment rest := by
  induction h with
  | nil => rfl
  | @plain c s e _ hquote hbackslash _ ih =>
      rw [List.cons_append, Source.withoutCommentFrom, if_neg (by simp), Quoting.next,
        if_neg hbackslash, if_neg hquote, ih, List.cons_append]
  | @escape c letter s e _ _ ih =>
      rw [List.cons_append, List.cons_append, Source.withoutCommentFrom, if_neg (by simp),
        Quoting.next, if_pos rfl, Source.withoutCommentFrom, if_neg (by simp), Quoting.next, ih]
      rfl

/-- What is written is items, which the other two scanners go over. -/
theorem items (h : Escapes s e) : Items e s := by
  induction h with
  | nil => exact .nil
  | plain _ hquote hbackslash _ ih => exact .plain hquote hbackslash ih
  | escape hletter _ ih =>
      exact .escape (escape?_eq_some.mp (escape?_of_escapeLetter? hletter)) ih

end Escapes

theorem literal_of_escapes {s e cs rest : List Char} (h : Escapes s e)
    (hcs : Text.trim cs = '"' :: e ++ '"' :: rest) : literal cs = .ok (String.ofList s) :=
  (Judged.string hcs h.items).literal_eq

/-! ## Lines with a literal -/

/-- `Trailing cs`: blanks, and a comment or none. -/
inductive Trailing : List Char → Prop
  | blanks {bs : List Char} : (∀ b ∈ bs, Text.isBlank b = true) → Trailing bs
  | comment {bs text : List Char} : (∀ b ∈ bs, Text.isBlank b = true) →
      Trailing (bs ++ '#' :: text)

theorem withoutComment_append {cs : List Char} (h : ∀ c ∈ cs, c ≠ '"' ∧ c ≠ '#')
    (rest : List Char) : withoutComment (cs ++ rest) = cs ++ withoutComment rest := by
  induction cs with
  | nil => rfl
  | cons c cs ih =>
      obtain ⟨hquote, hhash⟩ := h c List.mem_cons_self
      rw [List.cons_append, withoutComment, withoutCommentFrom, if_neg (by simp [hhash]),
        Quoting.next, if_neg hquote]
      exact congrArg (c :: ·) (ih fun d hd => h d (List.mem_cons_of_mem _ hd))

namespace Trailing

variable {cs : List Char}

theorem not_special_of_blank {b : Char} (h : Text.isBlank b = true) : b ≠ '"' ∧ b ≠ '#' := by
  constructor
  · rintro rfl
    exact absurd h (by decide)
  · rintro rfl
    exact absurd h (by decide)

theorem trimEnd (h : Trailing cs) : Trailing (Text.trimEnd cs) := by
  cases h with
  | blanks h =>
      rw [Text.trimEnd_blanks h]
      exact .blanks fun b hb => absurd hb List.not_mem_nil
  | comment h =>
      rw [Text.trimEnd_append_cons _ _ (by decide)]
      exact .comment h

theorem blank_of_mem_withoutComment (h : Trailing cs) :
    ∀ b ∈ withoutComment cs, Text.isBlank b = true := by
  cases h with
  | blanks h =>
      rw [← List.append_nil cs, withoutComment_append fun b hb => not_special_of_blank (h b hb)]
      simpa [withoutComment, withoutCommentFrom] using h
  | @comment bs text h =>
      rw [withoutComment_append fun b hb => not_special_of_blank (h b hb)]
      simpa [withoutComment, withoutCommentFrom] using h

end Trailing

/-- What follows a line whose comment scan ended outside quotes is dropped, if it is
blanks and a comment. -/
theorem stripped_eq {text : String} {c d : Char} {cs trailing : List Char}
    (htext : text.toList = c :: cs ++ d :: trailing) (hc : Text.isBlank c = false)
    (hd : Text.isBlank d = false) (ht : Trailing trailing)
    (hscan : ∀ rest, withoutComment (c :: cs ++ d :: rest) = c :: cs ++ d :: withoutComment rest) :
    stripped text = c :: cs ++ [d] := by
  rw [stripped, htext, Text.trim_append_cons _ _ hc hd, hscan, Text.trim_append_cons _ _ hc hd,
    Text.trimEnd_blanks ht.trimEnd.blank_of_mem_withoutComment]

/-- `PlainName name`: a name that a line may begin with before a colon, without starting
a section, a string or a comment. -/
structure PlainName (name : String) : Prop where
  nonempty : name ≠ ""
  chars : ∀ c ∈ name.toList, Text.isBlank c = false ∧ c ≠ ':' ∧ c ≠ '"' ∧ c ≠ '#'
  notData : Text.startsWith name.toList ".data" = false
  notText : Text.startsWith name.toList ".text" = false

/-- The directive `.asciiz "e"`. -/
def literalDirective (e : List Char) : List Char :=
  ".asciiz ".toList ++ '"' :: (e ++ ['"'])

/-- The line `name: .asciiz "e"` with something behind it. -/
def literalLine (name : String) (e trailing : List Char) : String :=
  name ++ ": .asciiz \"" ++ String.ofList e ++ "\"" ++ String.ofList trailing

namespace PlainName

variable {name : String}

theorem toList_ne_nil (h : PlainName name) : name.toList ≠ [] := by
  intro hnil
  exact h.nonempty (by simpa using hnil)

theorem isLabelName (h : PlainName name) : isLabelName name.toList = true := by
  have hchars : ∀ c ∈ name.toList, ¬ (Text.isBlank c = true ∨ c = '"') := by
    rintro c hc (hblank | hquote)
    · exact absurd hblank (by simp [(h.chars c hc).1])
    · exact (h.chars c hc).2.2.1 hquote
  simpa [Source.isLabelName, h.toList_ne_nil] using hchars

theorem colon_notMem (h : PlainName name) : ':' ∉ name.toList := fun hmem =>
  (h.chars ':' hmem).2.1 rfl

theorem trim_eq (h : PlainName name) : Text.trim name.toList = name.toList :=
  Text.trim_of_not_blank fun c hc => (h.chars c hc).1

theorem labelled (h : PlainName name) {text : String} {behind : List Char}
    (htext : stripped text = name.toList ++ ':' :: behind) :
    startsSection (some text) = false ∧ Labelled (some text) name (Text.trim behind) := by
  constructor
  · simp only [startsSection, begins, htext]
    rw [Text.startsWith_append_cons (by decide), Text.startsWith_append_cons (by decide),
      h.notText, h.notData]
    rfl
  · exact ⟨_, _, _, rfl, htext, h.colon_notMem, h.trim_eq, h.isLabelName, rfl⟩

end PlainName

section LiteralLine

variable {name : String} {s e trailing : List Char}

theorem trim_literalDirective (e : List Char) :
    Text.trim (literalDirective e) = literalDirective e := by
  have hshape : literalDirective e = '.' :: ("asciiz ".toList ++ '"' :: e) ++ ['"'] := by
    unfold literalDirective
    simp
  rw [hshape, Text.trim_append_cons _ _ (by decide) (by decide)]
  rfl

theorem toList_literalLine :
    (literalLine name e trailing).toList =
      name.toList ++ ": .asciiz ".toList ++ '"' :: (e ++ '"' :: trailing) := by
  simp [literalLine]

theorem withoutComment_literalLine (hname : PlainName name) (he : Escapes s e)
    (rest : List Char) :
    withoutComment (name.toList ++ ": .asciiz ".toList ++ '"' :: (e ++ '"' :: rest)) =
      name.toList ++ ": .asciiz ".toList ++ '"' :: (e ++ '"' :: withoutComment rest) := by
  rw [withoutComment_append]
  · exact congrArg (_ ++ '"' :: ·) (he.withoutCommentFrom rest)
  · intro c hc
    rcases List.mem_append.mp hc with hc | hc
    · exact (hname.chars c hc).2.2
    · have hdirective : ∀ c ∈ ": .asciiz ".toList, c ≠ '"' ∧ c ≠ '#' := by simp
      exact hdirective c hc

theorem stripped_literalLine (hname : PlainName name) (he : Escapes s e)
    (ht : Trailing trailing) :
    stripped (literalLine name e trailing) =
      name.toList ++ ':' :: ' ' :: literalDirective e := by
  obtain ⟨c, cs, hcs⟩ : ∃ c cs, name.toList = c :: cs :=
    List.exists_cons_of_ne_nil hname.toList_ne_nil
  have hshape : ∀ rest : List Char,
      name.toList ++ ": .asciiz ".toList ++ '"' :: (e ++ '"' :: rest) =
        c :: (cs ++ (": .asciiz ".toList ++ '"' :: e)) ++ '"' :: rest := by
    simp [hcs]
  have hc : Text.isBlank c = false := (hname.chars c (by simp [hcs])).1
  rw [stripped_eq (toList_literalLine.trans (hshape trailing)) hc (by decide) ht]
  · unfold literalDirective
    simp [hcs]
  · intro rest
    rw [← hshape, withoutComment_literalLine hname he, hshape]

theorem labelled_literalLine (hname : PlainName name) (he : Escapes s e)
    (ht : Trailing trailing) :
    startsSection (some (literalLine name e trailing)) = false ∧
      Labelled (some (literalLine name e trailing)) name
        (literalDirective e) := by
  have hlabelled := hname.labelled (stripped_literalLine hname he ht)
  rwa [Text.trim_cons_blank _ (by decide), trim_literalDirective] at hlabelled

theorem kept_literalLine (hname : PlainName name) (he : Escapes s e) (ht : Trailing trailing) :
    kept (some (literalLine name e trailing)) = "" := by
  obtain ⟨hsection, hlabelled⟩ := labelled_literalLine hname he ht
  have hdot : Text.startsWith (literalDirective e) "." = true := rfl
  have hother : Text.startsWith (literalDirective e) ".syscall" = false := rfl
  rw [kept, Line.ofText_eq_labelled.mpr ⟨hsection, by rwa [String.toList_ofList]⟩, Line.residue,
    Line.executable, String.toList_ofList, hdot, hother]
  rfl

theorem declares_literal (he : Escapes s e) :
    Declares (literalDirective e) (.string (String.ofList s)) := by
  have htrim : Text.trim (' ' :: '"' :: (e ++ ['"'])) = '"' :: e ++ ['"'] := by
    rw [Text.trim_cons_blank _ (by decide)]
    exact Text.trim_append_cons e [] (by decide) (by decide)
  exact .string (literal_of_escapes he htrim)

end LiteralLine

end Source

namespace Program

open Source

/-- A string that was written down comes back.  A line of the data section that has the
string as a literal behind a label, and behind the literal blanks and a comment at
most, gives the label that string, unless a later line gives it another; nothing is
noted about the line, and nothing of it is left to be executed. -/
theorem assemble_literal {source : Stream} (hreadable : source.failure = none)
    {i : Nat} {name s : String} {e trailing : List Char}
    (hline : source.lines[i]? = some (some (literalLine name e trailing)))
    (hwithin : sectionAfter (source.lines.take i) = .data) (hname : PlainName name)
    (he : Escapes s.toList e) (ht : Trailing trailing)
    (hlast : ∀ j rest text, i < j → LabelAt source.lines j .data name rest →
      ¬ Declares rest (.string text)) :
    ∃ p, (assemble source).1 = .ok p ∧ p.symbols.strings[name]? = some s ∧
      (∀ n ∈ (assemble source).2, n.line? ≠ some i) ∧ p.lines[i]? = some "" := by
  obtain ⟨hsection, hlabelled⟩ := labelled_literalLine hname he ht
  have hlabel : LabelAt source.lines i .data name (literalDirective e) :=
    ⟨hwithin, _, hline, hsection, hlabelled⟩
  have hdeclares := declares_literal he
  refine ⟨_, assemble_eq_ok.mpr ⟨hreadable, rfl⟩, ?_, ?_, ?_⟩
  · obtain ⟨ds, hds, -, -, hstring⟩ := Assembly.data_ofLines source.lines name
    rw [hstring]
    refine hds.getLast?_filterMap ((hds.mem_iff i _).mpr ⟨_, hlabel, hdeclares⟩) ?_ ?_
    · rw [Directive.string?, String.ofList_toList]
    · intro j d hmem hij
      obtain ⟨rest, hlater, hd⟩ := (hds.mem_iff j d).mp hmem
      cases d with
      | string text => exact absurd hd (hlast j rest text hij hlater)
      | space bytes => rfl
      | words values => rfl
  · have hnone := Assembly.notices_about_declares hlabel hdeclares
    intro n hn
    rw [assemble_notices hreadable, List.mem_append, List.mem_singleton] at hn
    rcases hn with hn | rfl
    · simpa using List.filter_eq_nil_iff.mp hnone n hn
    · exact (Option.some_ne_none i).symm
  · rw [← Array.getElem?_toList, Assembly.lines_ofLines, List.getElem?_map, hline,
      Option.map_some, kept_literalLine hname he ht]

/-- A literal that holds what could end it or start a comment, before a comment that
could start a literal. -/
theorem assemble_literal_hashes :
    let line := literalLine "m" "#\\\"\\\\:\\n'".toList "\t # \"".toList
    let source := Stream.ofString ("m: .space 4\n" ++ line ++ "\n")
    line = "m: .asciiz \"#\\\"\\\\:\\n'\"\t # \"" ∧
      ∃ p, (assemble source).1 = .ok p ∧ p.symbols.strings["m"]? = some "#\"\\:\n'" ∧
        (∀ n ∈ (assemble source).2, n.line? ≠ some 1) ∧ p.lines[1]? = some "" := by
  intro line source
  have hname : PlainName "m" := ⟨by simp, by simp [Text.isBlank], rfl, rfl⟩
  have he : Escapes "#\"\\:\n'".toList "#\\\"\\\\:\\n'".toList :=
    .plain (by decide) (by decide) (by decide) (.escape rfl (.escape rfl
      (.plain (by decide) (by decide) (by decide) (.escape rfl
        (.plain (by decide) (by decide) (by decide) .nil)))))
  have hblanks : ∀ b ∈ "\t ".toList, Text.isBlank b = true := by simp [Text.isBlank]
  have ht : Trailing "\t # \"".toList := .comment hblanks
  have hlength : source.lines.length = 2 := by decide +kernel
  refine ⟨by decide +kernel, assemble_literal rfl (by decide +kernel) (by decide +kernel) hname he
    ht fun j rest text hj hlabel => ?_⟩
  have hlt := hlabel.lt_length
  omega

end Program

end MipsText
