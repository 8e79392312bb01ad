/-
# `MipsText.Proofs.Machine.WordArrays` — an array is printed as it was declared

A label can be declared with a list of words, and a reference to it is printed as the words
between brackets.  This module follows a list through both: from the line that declares it to
the array of its label (`declares_words`, `program_arrayLines`), and from a program that
prints this array to what has been written when the program ends.  What is printed between
the brackets can be declared again, and is the same list.

The name of the label has to get past everything that looks at a line before it is looked up
as a label (`Referable`): it may not end the statement or the operand that it stands in, and
it may not be a section, a register or a number.
-/
import MipsText.Proofs.Machine.Constants
import MipsText.Proofs.Source.Loss
import MipsText.Proofs.Source.Transparency

namespace MipsText

open Source

/-- `Referable name`: a name that can be given to data and be an operand that refers to
them. -/
structure Referable (name : String) : Prop extends PlainName name where
  notComma : ',' ∉ name.toList
  notRegister : Token.namesRegister name = false
  notNumber : Token.immediate? name = none

/-- The lines of a program that declares words for a label and prints them. -/
def arrayLines (name : String) (values : List Char) : List String :=
  [name ++ ": .word " ++ String.ofList values, ".text", "la $a0, " ++ name, "li $v0, 1", "syscall"]

def arrayProgram (name : String) (words : Array Word) : Program where
  lines := #["", "", "la $a0, " ++ name, "li $v0, 1", "syscall"]
  entry := 2
  symbols := Symbols.appendWords {} name words

/-! ## Declaring words -/

namespace Source

theorem declares_words {ws : List Word} {pieces : List (List Char)} {body : List Char}
    (hws : ws ≠ []) (hpieces : List.Forall₂ Statement.Padded (ws.map Word.text) pieces)
    (hbody : Text.trim body = Text.trim ([','].intercalate pieces)) :
    Declares (".word".toList ++ body) (.words ws) := by
  have hsolid : ∀ token ∈ ws.map Word.text, Text.Solid token.toList := by
    intro token htoken
    obtain ⟨w, -, rfl⟩ := List.mem_map.mp htoken
    exact Text.solid_of_immediate? (Token.immediate?_text w)
  have hne : pieces ≠ [] := by
    rintro rfl
    exact hws (List.map_eq_nil_iff.mp (List.forall₂_nil_right_iff.mp hpieces))
  have hcomma := Statement.not_comma_of_padded (fun token h => (hsolid token h).not_comma) hpieces
  have htrim : pieces.map Text.trim = (ws.map Word.text).map String.toList :=
    Statement.map_trim_of_padded (fun token h => (hsolid token h).trim_eq) hpieces
  have hread : (Text.pieces (· == ',') body).map Text.trim = pieces.map Text.trim := by
    rw [← Text.map_trim_pieces_trim (fun _ => Statement.not_comma_of_isBlank), hbody,
      Text.map_trim_pieces_trim (fun _ => Statement.not_comma_of_isBlank),
      Text.pieces_intercalate (by rfl) hcomma hne]
  refine .words ?_
  calc (Text.pieces (· == ',') body).map (fun piece => Text.immediate? (Text.trim piece))
      = ((Text.pieces (· == ',') body).map Text.trim).map Text.immediate? := by
        rw [List.map_map]
        rfl
    _ = ws.map fun w => Token.immediate? (Word.text w) := by
        rw [hread, htrim, List.map_map, List.map_map]
        rfl
    _ = ws.map some := List.map_congr_left fun w _ => Token.immediate?_text w

theorem not_special_of_words {ws : List Word} {pieces : List (List Char)}
    (hpieces : List.Forall₂ Statement.Padded (ws.map Word.text) pieces) :
    ∀ c ∈ [','].intercalate pieces, c ≠ '"' ∧ c ≠ '#' := by
  have hnumeral : Text.numeralChars.all (fun c => c != '"' && c != '#') = true := by decide
  simp only [List.all_eq_true, Bool.and_eq_true, bne_iff_ne] at hnumeral
  refine Text.forall_mem_intercalate (by decide) (Statement.forall_mem_of_padded
    (fun _ => Trailing.not_special_of_blank) ?_ hpieces)
  intro token htoken c hc
  obtain ⟨w, -, rfl⟩ := List.mem_map.mp htoken
  exact hnumeral c (Text.mem_numeralChars_of_immediate? (Token.immediate?_text w) c hc)

/-! ## Lines -/

theorem stripped_of_not_special {text : String} (h : ∀ c ∈ text.toList, c ≠ '"' ∧ c ≠ '#') :
    stripped text = Text.trim text.toList := by
  have happend := withoutComment_append h []
  have hnil : withoutComment [] = [] := rfl
  rw [List.append_nil, hnil, List.append_nil] at happend
  rw [stripped_eq_trim, happend]

theorem Line.ofText_of_plain {text : String} (hstripped : stripped text = text.toList)
    (hsection : startsSection (some text) = false) (hcolon : ':' ∉ text.toList) :
    ofText text = .plain text := by
  cases hline : ofText text with
  | enter s =>
      cases s <;> simp [startsSection, begins_text_eq, begins_data_eq, hline] at hsection
  | labelled name rest =>
      obtain ⟨-, _, before, behind, htext, hcut, -⟩ := ofText_eq_labelled.mp hline
      obtain rfl := Option.some.inj htext
      rw [← hstripped, hcut] at hcolon
      simp at hcolon
  | plain rest =>
      rw [← String.toList_inj.mp ((toList_of_ofText_eq_plain hline).trans hstripped)]

theorem labelled_wordLine {name : String} {values : List Char} (hname : PlainName name)
    (hvalues : ∀ c ∈ values, c ≠ '"' ∧ c ≠ '#') :
    let line := name ++ ": .word " ++ String.ofList values
    startsSection (some line) = false ∧
      ∃ body, Labelled (some line) name (".word".toList ++ body) ∧
        Text.trim body = Text.trim values := by
  intro line
  have hline : line.toList = name.toList ++ ':' :: (" .word ".toList ++ values) := by
    simp [line]
  have hspecial : ∀ c ∈ line.toList, c ≠ '"' ∧ c ≠ '#' := by
    have hdirective : ∀ c ∈ ": .word ".toList, c ≠ '"' ∧ c ≠ '#' := by simp
    intro c hc
    rw [hline] at hc
    change c ∈ name.toList ++ (": .word ".toList ++ values) at hc
    rw [List.mem_append, List.mem_append] at hc
    rcases hc with hc | hc | hc
    · exact (hname.chars c hc).2.2
    · exact hdirective c hc
    · exact hvalues c hc
  obtain ⟨first, others, hfirst⟩ : ∃ c cs, name.toList = c :: cs :=
    List.exists_cons_of_ne_nil hname.toList_ne_nil
  have hstripped : stripped line =
      name.toList ++ ':' :: Text.trimEnd (" .word ".toList ++ values) := by
    have hblank : Text.isBlank first = false := (hname.chars first (by simp [hfirst])).1
    rw [stripped_of_not_special hspecial, hline, hfirst]
    exact Text.trim_append_cons _ _ hblank (by decide)
  obtain ⟨hsection, hlabelled⟩ := hname.labelled hstripped
  -- the blanks before the list stay with it, those behind it are gone with the line
  have hrest : Text.trim (" .word ".toList ++ values) =
      ".word".toList ++ Text.trimEnd (' ' :: values) :=
    (Text.trim_cons_blank _ (by decide)).trans
      (Text.trim_append_cons "wor".toList (' ' :: values) (by decide) (by decide))
  rw [Text.trim_trimEnd, hrest] at hlabelled
  refine ⟨hsection, _, hlabelled, ?_⟩
  rw [Text.trim_trimEnd, Text.trim_cons_blank _ (by decide)]

end Source

/-! ## The program -/

theorem Referable.solid {name : String} (hname : Referable name) : Text.Solid name.toList where
  ne_nil := hname.toList_ne_nil
  not_blank c hc := (hname.chars c hc).1
  not_comma := hname.notComma

theorem Referable.ofText_la {name : String} (hname : Referable name) :
    Line.ofText ("la $a0, " ++ name) = .plain ("la $a0, " ++ name) := by
  have hline : ("la $a0, " ++ name).toList = "la $a0, ".toList ++ name.toList :=
    String.toList_append ..
  have hchars : ∀ c ∈ ("la $a0, " ++ name).toList, c ≠ ':' ∧ c ≠ '"' ∧ c ≠ '#' := by
    have hfront : ∀ c ∈ "la $a0, ".toList, c ≠ ':' ∧ c ≠ '"' ∧ c ≠ '#' := by simp
    intro c hc
    rw [hline] at hc
    rcases List.mem_append.mp hc with hc | hc
    · exact hfront c hc
    · exact (hname.chars c hc).2
  have hstripped : stripped ("la $a0, " ++ name) = ("la $a0, " ++ name).toList := by
    obtain ⟨front, last, hlast⟩ : ∃ front last, name.toList = front ++ [last] :=
      (List.eq_nil_or_concat' name.toList).resolve_left hname.solid.ne_nil
    have hblank : Text.isBlank last = false := (hname.chars last (by simp [hlast])).1
    rw [stripped_of_not_special fun c hc => (hchars c hc).2, hline, hlast, ← List.append_assoc]
    exact Text.trim_append_cons ("a $a0, ".toList ++ front) [] (by decide) hblank
  refine Line.ofText_of_plain hstripped ?_ fun hcolon => (hchars ':' hcolon).1 rfl
  simp only [startsSection, begins, hstripped, hline]
  rfl

/-- The program has the words of the label, and three lines to be executed. -/
theorem Assembly.program_arrayLines {name : String} {ws : List Word} {pieces : List (List Char)}
    (hname : Referable name) (hws : ws ≠ [])
    (hpieces : List.Forall₂ Statement.Padded (ws.map Word.text) pieces) :
    (ofLines ((arrayLines name ([','].intercalate pieces)).map some)).program =
      arrayProgram name ws.toArray := by
  obtain ⟨hsection, body, hlabelled, hbody⟩ :=
    labelled_wordLine hname.toPlainName (not_special_of_words hpieces)
  have hdeclares := declares_words hws hpieces hbody
  have hkept :
      kept (some (name ++ ": .word " ++ String.ofList ([','].intercalate pieces))) = "" := by
    refine kept_of_isData ?_
    rw [statement_of_labelled hlabelled]
    rfl
  have hdata : Assembly.feed {} (some _) = _ := feed_of_data rfl hsection hlabelled
  have hrefers (a : Assembly) :
      a.feed (some ("la $a0, " ++ name)) = a.keep ("la $a0, " ++ name) := by
    rw [feed_some, hname.ofText_la, Line.residue, Line.executable, String.toList_append]
    rfl
  rw [ofLines, arrayLines]
  simp only [List.map_cons, List.map_nil, List.foldl_cons, List.foldl_nil]
  rw [hdata, addData_of_declares hdeclares, hkept, hrefers]
  rfl

/-! ## The run -/

theorem Statement.ofLine_la {name : String} (hname : Referable name) :
    ofLine ("la $a0, " ++ name) = .ok (.instruction .la ["$a0", name]) := by
  have hline : "la $a0, " ++ name = spaced .la ["$a0", name] := by
    rw [← String.toList_inj]
    simp [spaced, Mnemonic.name]
  have ha0 : Text.Solid "$a0".toList := ⟨by simp, by simp [Text.isBlank], by simp⟩
  rw [hline]
  refine ofLine_spaced .la (writable_of_solid (by simp) ?_)
  simpa using ⟨ha0, hname.solid⟩

open Register in
theorem Straight.printArray {c : Context} {name : String} (hname : Referable name) :
    Straight c ["la $a0, " ++ name, "li $v0, 1"]
      ((c.registers.set a0 (.ref name)).set v0 (.int 1)) := by
  have hnames : ofName? "$a0" = some a0 ∧ ofName? "$v0" = some v0 := by decide +kernel
  have hla : Mnemonic.la.Performs c ["$a0", name] (.set a0 (.ref name)) :=
    ⟨_, .label rfl rfl hnames.1 hname.notRegister hname.notNumber, .reference rfl rfl⟩
  have hone : Token.immediate? "1" = some 1 := rfl
  have hli : Mnemonic.li.Performs (c.changed (.set a0 (.ref name))) ["$v0", "1"]
      (.set v0 (.int 1)) :=
    Mnemonic.performs_constant (f := id) rfl rfl rfl hnames.2 hone
  exact .cons (Statement.ofLine_la hname) hla (.cons rfl hli .nil)

theorem Symbols.describe_words {s : Symbols} {label : String} {words : Array Word}
    (hlines : s.lines[label]? = none) (hwords : s.words[label]? = some words) :
    s.describe (.ref label) = .ok (bracketed words) := by
  rw [describe, hlines, hwords]

namespace Machine

open Register

/-- A machine that stands on the last three lines prints the array of the label and is at the
end of its program. -/
theorem after_printArray {m : Machine} {name : String} {words : Array Word}
    (hname : Referable name) (hm : m.status = .running) (hpc : m.pc + 3 = m.lines.size)
    (hholds : m.Holds ["la $a0, " ++ name, "li $v0, 1", "syscall"])
    (hlines : m.symbols.lines[name]? = none) (hwords : m.symbols.words[name]? = some words)
    (hfits : m.output.fits (Symbols.bracketed words) = true) :
    (∀ k < 3, (m.after k).step.fault = none) ∧
      (m.after 3).status = .stopped .endOfProgram ∧
      (m.after 3).output = m.output.append (Symbols.bracketed words) := by
  have hfirst : m.Holds ["la $a0, " ++ name, "li $v0, 1"] := by
    intro i line hline
    have hi := (List.getElem?_eq_some_iff.mp hline).1
    exact hholds i line ((List.getElem?_append_left hi).trans hline)
  obtain ⟨hfaults, hafter⟩ := after_straight (.printArray hname) hm (by omega) hfirst
  let f := (m.registers.set a0 (.ref name)).set v0 (.int 1)
  have hmachine : m.after 2 = { m.withRegisters f with pc := m.pc + 2 } :=
    hafter.trans (goTo_of_lt (show m.pc + 2 < m.lines.size by omega))
  have hcalls : (m.after 2).Calls .printInt := by
    rw [hmachine]
    refine ⟨⟨hm, statement?_eq_some.mpr ⟨"syscall", hholds 2 _ rfl, rfl⟩⟩, ?_⟩
    exact RegisterFile.get_set_self ..
  have hshown : (m.after 2).symbols.describe ((m.after 2).registers.get a0) =
      .ok (Symbols.bracketed words) := by
    have ha0 : f.get a0 = .ref name :=
      (RegisterFile.get_set_of_ne _ (by decide) _).trans (RegisterFile.get_set_self ..)
    rw [hmachine]
    show m.symbols.describe (f.get a0) = _
    rw [ha0, Symbols.describe_words hlines hwords]
  obtain ⟨hprinted, hfault⟩ := step_of_fits (Or.inl hcalls) hshown (by rw [hmachine]; exact hfits)
  have hend : m.after 3 = (m.after 2).apply (.print (Symbols.bracketed words)) := hprinted
  refine ⟨?_, ?_, ?_⟩
  · intro k hk
    rcases Nat.lt_succ_iff_lt_or_eq.mp hk with hk | rfl
    · exact hfaults k hk
    · exact hfault
  · rw [hend, hmachine]
    exact if_neg (show ¬m.pc + 2 + 1 < m.lines.size by omega)
  · rw [hend, hmachine]
    rfl

theorem holds_arrayProgram (name : String) (words : Array Word) (policy : ReferencePolicy)
    (input : Stream) (limit : Option Nat) :
    (start (arrayProgram name words) policy input limit).Holds
      ["la $a0, " ++ name, "li $v0, 1", "syscall"] := by
  intro i line hline
  match i, hline with
  | 0, hline => exact hline
  | 1, hline => exact hline
  | 2, hline => exact hline

/-- Word arrays survive being declared and printed.  A source declares a list of words for a
label, in decimal and with any blanks around them, and prints the array of the label.  Then
the label has this array, and the program runs to its end, having written the words between
brackets and nothing else, if there is room for that.  What it has written between the
brackets declares the same words again. -/
theorem run_words {source : Stream} {name : String} {ws : List Word} {pieces : List (List Char)}
    (hreadable : source.failure = none) (hname : Referable name) (hws : ws ≠ [])
    (hpieces : List.Forall₂ Statement.Padded (ws.map Word.text) pieces)
    (hsource : source.lines = (arrayLines name ([','].intercalate pieces)).map some) :
    let between := ", ".intercalate (ws.map Word.text)
    let shown := "[" ++ between ++ "]"
    (∃ p, (Program.assemble source).1 = .ok p ∧ p.symbols.words[name]? = some ws.toArray ∧
      ∀ (policy : ReferencePolicy) (input : Stream) (limit : Option Nat) (keep : Event → Bool)
        (fuel : Nat), (∀ n ∈ limit, shown.utf8ByteSize ≤ n) → 3 ≤ fuel →
        ∃ r, (start p policy input limit).run keep fuel = some r ∧
          r.result = .ok .endOfProgram ∧ r.machine.status = .stopped .endOfProgram ∧
          r.machine.output.text = shown) ∧
    Directive.ofChars (".word " ++ between).toList = .ok (.words ws) := by
  intro between shown
  have hprogram := Assembly.program_arrayLines hname hws hpieces
  rw [← hsource] at hprogram
  have hwords : (arrayProgram name ws.toArray).symbols.words[name]? = some ws.toArray := by
    rw [arrayProgram, Symbols.words_appendWords, if_pos rfl]
    simp
  refine ⟨⟨_, Program.assemble_eq_ok.mpr ⟨hreadable, hprogram⟩, hwords, ?_⟩, ?_⟩
  · intro policy input limit keep fuel hroom hfuel
    have hfits : ({ sink := .limited limit } : Console.Output).fits shown = true := by
      refine Console.Output.fits_of_room rfl fun n hn => ?_
      simpa [Console.Output.size] using hroom n hn
    have hlines : (arrayProgram name ws.toArray).symbols.lines[name]? = none := by
      simp [arrayProgram, Symbols.appendWords]
    have hholds := holds_arrayProgram name ws.toArray policy input limit
    obtain ⟨hfaults, hstopped, houtput⟩ :=
      after_printArray hname rfl rfl hholds hlines hwords hfits
    obtain ⟨events, hrun⟩ := runFrom_of_after hfuel hfaults hstopped
    refine ⟨_, hrun, rfl, hstopped, ?_⟩
    rw [houtput]
    exact String.empty_append
  · obtain ⟨pieces', htext, hpieces'⟩ := Statement.exists_pieces_spaced (ws.map Word.text)
    have hbody : Text.trim (' ' :: between.toList) = Text.trim ([','].intercalate pieces') := by
      rw [Text.trim_cons_blank _ (by decide), htext]
    have hdirective : (".word " ++ between).toList = ".word".toList ++ ' ' :: between.toList := by
      simp
    rw [hdirective]
    exact Directive.ofChars_eq_ok.mpr (declares_words hws hpieces' hbody)

/-- A label that is almost a number, blanks of several kinds, and just enough room. -/
theorem run_words_extreme :
    let source := Stream.ofString ("0xg: .word \t-2147483648 , -1,7\t \n.text\n" ++
      "la $a0, 0xg\nli $v0, 1\nsyscall\n")
    ∃ p, (Program.assemble source).1 = .ok p ∧
      p.symbols.words["0xg"]? = some #[BitVec.intMin 32, -1, 7] ∧
      ∃ r, (start p .strict (Stream.ofString "") (some 20)).run (fun _ => false) 3 = some r ∧
        r.result = .ok .endOfProgram ∧ r.machine.output.text = "[-2147483648, -1, 7]" := by
  intro source
  have hname : Referable "0xg" :=
    { nonempty := by simp
      chars := by simp [Text.isBlank]
      notData := rfl
      notText := rfl
      notComma := by simp
      notRegister := rfl
      notNumber := rfl }
  let pieces := ["\t-2147483648 ".toList, " -1".toList, "7\t ".toList]
  have hpieces : List.Forall₂ Statement.Padded ([BitVec.intMin 32, -1, 7].map Word.text) pieces :=
    .cons ⟨['\t'], [' '], rfl, by decide, by decide⟩
      (.cons ⟨[' '], [], rfl, by decide, by decide⟩
        (.cons ⟨[], ['\t', ' '], rfl, by decide, by decide⟩ .nil))
  have hsource : source.lines = (arrayLines "0xg" ([','].intercalate pieces)).map some := by
    decide +kernel
  obtain ⟨⟨p, hp, hwords, hrun⟩, -⟩ := run_words rfl hname (by simp) hpieces hsource
  obtain ⟨r, hr, hresult, -, htext⟩ :=
    hrun .strict (Stream.ofString "") (some 20) (fun _ => false) 3 (by decide +kernel) (by simp)
  exact ⟨p, hp, hwords, r, hr, hresult, htext⟩

end Machine

end MipsText
