/-
# `MipsText.Proofs.Machine.Layout` — how an instruction is laid out does not matter

`Statement.LaidOut m tokens cs` says that `cs` is one of the ways to write an instruction
down: blanks in front, the mnemonic in any mix of cases, at least one blank, the operands
between commas with blanks around them, and behind them commas with nothing but blanks
between.  `Statement.canonical` is the plainest of these lines.

All of them are read as the same statement (`ofLine_of_laidOut`), and a step sees no more
of a line than what it is about to do (`step_withLine_of_intent_eq`).
-/
import Mathlib.Data.List.Forall2
import MipsText.Proofs.Instruction.Spelling
import MipsText.Proofs.Machine.Control

namespace MipsText

/-! ## Names -/

namespace Mnemonic

theorem any_isBlank_name (m : Mnemonic) : m.name.toList.any Text.isBlank = false := by
  cases m <;> rfl

theorem map_toLower_name (m : Mnemonic) : m.name.toList.map Char.toLower = m.name.toList := by
  cases m <;> rfl

end Mnemonic

theorem Text.toLower_of_isBlank {c : Char} (h : isBlank c = true) : c.toLower = c := by
  refine dif_neg fun hupper : c.val ≥ 'A'.val ∧ c.val ≤ 'Z'.val => ?_
  have hlow : 65 ≤ c.toNat := UInt32.le_iff_toNat_le.mp hupper.1
  have hhigh : c.toNat ≤ 90 := UInt32.le_iff_toNat_le.mp hupper.2
  simp only [isBlank, Bool.or_eq_true, Bool.and_eq_true, decide_eq_true_eq, beq_iff_eq] at h
  omega

namespace Statement

/-! ## Layouts -/

/-- `LaidOut m tokens cs`: the text `cs` is the mnemonic `m` with the operands `tokens`, in
some layout. -/
inductive LaidOut (m : Mnemonic) (tokens : List String) : List Char → Prop
  | intro {front name gap : List Char} {pieces extra : List (List Char)} :
      Text.AllBlank front → name.map Char.toLower = m.name.toList → gap ≠ [] →
      Text.AllBlank gap → List.Forall₂ Padded tokens pieces →
      (∀ piece ∈ extra, Text.AllBlank piece) →
      LaidOut m tokens (front ++ (name ++ (gap ++ [','].intercalate (pieces ++ extra))))

/-- The mnemonic in lower case, a space, and the operands with a comma between each two. -/
def canonical (m : Mnemonic) (tokens : List String) : String :=
  m.name ++ " " ++ ",".intercalate tokens

/-- The same with a space behind each comma. -/
def spaced (m : Mnemonic) (tokens : List String) : String :=
  m.name ++ " " ++ ", ".intercalate tokens

/-- Operands that can be written down: one to three, without commas and outer blanks, of
which the last is not empty. -/
structure Writable (tokens : List String) : Prop where
  count : 1 ≤ tokens.length ∧ tokens.length ≤ 3
  comma : ∀ token ∈ tokens, ',' ∉ token.toList
  trimmed : ∀ token ∈ tokens, Text.trim token.toList = token.toList
  last : tokens.getLast? ≠ some ""

theorem laidOut_canonical (m : Mnemonic) (tokens : List String) :
    LaidOut m tokens (canonical m tokens).toList := by
  have htext : (canonical m tokens).toList =
      [] ++ (m.name.toList ++ ([' '] ++ [','].intercalate (tokens.map String.toList ++ []))) := by
    simp [canonical, String.toList_intercalate]
  have hpieces : List.Forall₂ Padded tokens (tokens.map String.toList) :=
    List.forall₂_map_right_iff.mpr (List.forall₂_same.mpr fun token _ => padded_self token)
  rw [htext]
  exact .intro (by decide) m.map_toLower_name (by decide) (by decide) hpieces nofun

/-- Texts with a comma and a space between each two are texts between commas, with a space in
front of each but the first. -/
theorem exists_pieces_spaced (texts : List String) :
    ∃ pieces, (", ".intercalate texts).toList = [','].intercalate pieces ∧
      List.Forall₂ Padded texts pieces := by
  rw [String.toList_intercalate]
  cases texts with
  | nil => exact ⟨[], rfl, .nil⟩
  | cons text texts =>
      -- the first piece is whatever the text before the first comma is
      have hpieces : ∀ (first : List Char) (texts : List String),
          ", ".toList.intercalate (first :: texts.map String.toList) =
            [','].intercalate (first :: texts.map fun text => ' ' :: text.toList) := by
        intro first texts
        induction texts generalizing first with
        | nil => rfl
        | cons text texts ih =>
            rw [List.map_cons, List.map_cons, List.intercalate_cons_cons,
              List.intercalate_cons_cons, ih text.toList]
            cases texts <;> simp [List.intercalate]
      refine ⟨_, hpieces text.toList texts, .cons (padded_self text) ?_⟩
      rw [List.forall₂_map_right_iff, List.forall₂_same]
      intro text _
      exact ⟨[' '], [], by simp, by decide, nofun⟩

/-! ## Operands between commas -/

section Tokens

variable {bs : List Char}

theorem not_comma_of_isBlank {b : Char} (h : Text.isBlank b = true) : (b == ',') = false := by
  rw [beq_eq_false_iff_ne]
  rintro rfl
  exact nomatch h

theorem tokens_blanks_append (h : Text.AllBlank bs) (cs : List Char) :
    tokens (bs ++ cs) = tokens cs := by
  rw [tokens, tokens, Text.map_trim_pieces_blanks_append (fun _ => not_comma_of_isBlank) h]

theorem tokens_append_blanks (h : Text.AllBlank bs) (cs : List Char) :
    tokens (cs ++ bs) = tokens cs := by
  rw [tokens, tokens, Text.map_trim_pieces_append_blanks (fun _ => not_comma_of_isBlank) h]

theorem tokens_trimEnd (cs : List Char) : tokens (Text.trimEnd cs) = tokens cs := by
  have hcs : Text.trimEnd cs ++ cs.rtakeWhile Text.isBlank = cs :=
    List.rdropWhile_append_rtakeWhile
  conv => rhs; rw [← hcs]
  exact (tokens_append_blanks (fun b hb => List.mem_rtakeWhile_imp hb) _).symm

theorem dropTrailingEmpty_append {ts es : List (List Char)} (hes : ∀ e ∈ es, e = [])
    (hlast : ts.getLast? ≠ some []) : dropTrailingEmpty (ts ++ es) = ts := by
  have hback : ∀ e ∈ es.reverse, e.isEmpty = true := by
    intro e he
    rw [hes e (List.mem_reverse.mp he)]
    rfl
  have hfront : ts.reverse.dropWhile List.isEmpty = ts.reverse := by
    cases hts : ts.reverse with
    | nil => rfl
    | cons t rest =>
        refine List.dropWhile_cons_of_neg fun hempty => hlast ?_
        rw [← List.head?_reverse, hts, List.isEmpty_iff.mp hempty]
        rfl
  rw [dropTrailingEmpty, List.reverse_append, List.dropWhile_append_of_pos hback, hfront,
    List.reverse_reverse]

end Tokens

/-! ## Pieces between commas -/

section Pieces

variable {ts : List String} {pieces extra : List (List Char)}

theorem map_trim_of_padded (hts : ∀ token ∈ ts, Text.trim token.toList = token.toList)
    (h : List.Forall₂ Padded ts pieces) : pieces.map Text.trim = ts.map String.toList := by
  induction h with
  | nil => rfl
  | cons hpadded _ ih =>
      rw [List.forall_mem_cons] at hts
      rw [List.map_cons, List.map_cons, hpadded.trim_eq hts.1, ih hts.2]

theorem forall_mem_of_padded {P : Char → Prop} (hP : ∀ b, Text.isBlank b = true → P b)
    (hts : ∀ token ∈ ts, ∀ c ∈ token.toList, P c) (h : List.Forall₂ Padded ts pieces) :
    ∀ piece ∈ pieces, ∀ c ∈ piece, P c := by
  induction h with
  | nil => simp
  | cons hpadded _ ih =>
      rw [List.forall_mem_cons] at hts ⊢
      exact ⟨hpadded.forall_mem hP hts.1, ih hts.2⟩

theorem not_comma_of_padded (hts : ∀ token ∈ ts, ',' ∉ token.toList)
    (h : List.Forall₂ Padded ts pieces) : ∀ piece ∈ pieces, ∀ c ∈ piece, (c == ',') = false := by
  refine forall_mem_of_padded (fun _ => not_comma_of_isBlank) ?_ h
  intro token htoken c hc
  rw [beq_eq_false_iff_ne]
  rintro rfl
  exact hts token htoken hc

theorem tokens_intercalate (hts : Writable ts) (hpieces : List.Forall₂ Padded ts pieces)
    (hextra : ∀ piece ∈ extra, Text.AllBlank piece) :
    tokens ([','].intercalate (pieces ++ extra)) = ts := by
  have hcomma : ∀ piece ∈ pieces ++ extra, ∀ c ∈ piece, (c == ',') = false := by
    intro piece hpiece c hc
    rcases List.mem_append.mp hpiece with hpiece | hpiece
    · exact not_comma_of_padded hts.comma hpieces piece hpiece c hc
    · exact not_comma_of_isBlank (hextra piece hpiece c hc)
  have hne : pieces ++ extra ≠ [] := by
    have hlength := hpieces.length_eq
    have hcount := hts.count.1
    intro hempty
    rw [(List.append_eq_nil_iff.mp hempty).1, List.length_nil] at hlength
    omega
  have hempty : ∀ e ∈ extra.map Text.trim, e = [] := by
    intro e he
    obtain ⟨piece, hpiece, rfl⟩ := List.mem_map.mp he
    exact Text.trim_blanks (hextra piece hpiece)
  have hlast : (ts.map String.toList).getLast? ≠ some [] := by
    rw [List.getLast?_map]
    intro hnil
    obtain ⟨token, htoken, htext⟩ := Option.map_eq_some_iff.mp hnil
    exact hts.last (htoken.trans (congrArg some (String.toList_inj.mp htext)))
  rw [tokens, Text.pieces_intercalate (by rfl) hcomma hne, List.map_append,
    map_trim_of_padded hts.trimmed hpieces, dropTrailingEmpty_append hempty hlast, List.map_map]
  exact List.map_id'' (fun token => String.ofList_toList) ts

end Pieces

/-! ## Whole lines -/

theorem not_blank_of_spelled {m : Mnemonic} {name : List Char}
    (h : name.map Char.toLower = m.name.toList) : ∀ c ∈ name, Text.isBlank c = false := by
  intro c hc
  rw [Bool.eq_false_iff]
  intro hblank
  have hmem : c ∈ m.name.toList := by
    rw [← h, ← Text.toLower_of_isBlank hblank]
    exact List.mem_map_of_mem hc
  exact List.any_eq_false.mp m.any_isBlank_name c hmem hblank

theorem trim_layout {m : Mnemonic} {front name gap operands : List Char}
    (hfront : Text.AllBlank front) (hname : name.map Char.toLower = m.name.toList)
    (hoperands : ∃ c ∈ operands, Text.isBlank c = false) :
    Text.trim (front ++ (name ++ (gap ++ operands))) =
      name ++ (gap ++ Text.trimEnd operands) := by
  rw [Text.trim_blanks_append hfront]
  cases name with
  | nil => cases m <;> exact nomatch hname
  | cons c cs =>
      have hc : Text.isBlank c = false := not_blank_of_spelled hname c List.mem_cons_self
      rw [Text.trim, Text.trimStart, List.cons_append, List.dropWhile_cons_of_neg (by simp [hc]),
        ← List.cons_append, ← List.append_assoc, Text.trimEnd_append hoperands, List.append_assoc]

/-- Every layout of an instruction is read as this instruction. -/
theorem ofLine_of_laidOut {m : Mnemonic} {ts : List String} {line : String} (hts : Writable ts)
    (h : LaidOut m ts line.toList) : ofLine line = .ok (.instruction m ts) := by
  generalize hline : line.toList = cs at h
  cases h with
  | @intro front name gap pieces extra hfront hname hne hgap hpieces hextra =>
      have htokens := tokens_intercalate hts hpieces hextra
      have hoperands : ∃ c ∈ [','].intercalate (pieces ++ extra), Text.isBlank c = false := by
        -- text that is all blanks has no operands
        by_contra hnone
        have hblank : Text.AllBlank ([','].intercalate (pieces ++ extra)) := by
          intro b hb
          by_contra hb'
          exact hnone ⟨b, hb, Bool.not_eq_true _ ▸ hb'⟩
        have hnil := tokens_blanks_append hblank []
        rw [List.append_nil, htokens] at hnil
        exact absurd hts.count.1 (by rw [hnil]; decide)
      obtain ⟨blank, rest, rfl⟩ := List.exists_cons_of_ne_nil hne
      obtain ⟨hblank, hrest⟩ := List.forall_mem_cons.mp hgap
      refine ofLine_eq_instruction.mpr ⟨⟨name, blank,
        rest ++ Text.trimEnd ([','].intercalate (pieces ++ extra)), ?_,
        not_blank_of_spelled hname, hblank, ?_, ?_⟩, hts.count⟩
      · rw [hline, trim_layout hfront hname hoperands, List.cons_append]
      · rw [Mnemonic.lowerCase, String.toList_ofList, hname, String.ofList_toList]
      · rw [tokens_blanks_append hrest, tokens_trimEnd, htokens]

theorem writable_of_solid {ts : List String} (hcount : 1 ≤ ts.length ∧ ts.length ≤ 3)
    (hts : ∀ token ∈ ts, Text.Solid token.toList) : Writable ts := by
  refine ⟨hcount, fun token htoken => (hts token htoken).not_comma,
    fun token htoken => (hts token htoken).trim_eq, ?_⟩
  intro hlast
  exact (hts "" (List.mem_of_getLast? hlast)).ne_nil rfl

theorem ofLine_spaced (m : Mnemonic) {ts : List String} (hts : Writable ts) :
    ofLine (spaced m ts) = .ok (.instruction m ts) := by
  obtain ⟨pieces, htext, hpieces⟩ := exists_pieces_spaced ts
  have hline : (spaced m ts).toList =
      [] ++ (m.name.toList ++ ([' '] ++ [','].intercalate (pieces ++ []))) := by
    simp [spaced, htext]
  refine ofLine_of_laidOut hts ?_
  rw [hline]
  exact .intro (by decide) m.map_toLower_name (by decide) (by decide) hpieces nofun

end Statement

/-! ## Steps -/

namespace Intent

theorem ofLine_congr {line line' : String} (h : Statement.ofLine line = Statement.ofLine line')
    (c : Context) : ofLine c line = ofLine c line' := by
  rw [ofLine, ofLine, h]

end Intent

namespace Machine

section Lines

variable (m : Machine) (lines : Array String)

def withLines : Machine :=
  { m with lines := lines }

/-- The machine with another line in the place of its current line. -/
def withLine (line : String) : Machine :=
  m.withLines (m.lines.setIfInBounds m.pc line)

theorem outcome_withLines (resolved : Except Stop Intent) :
    (m.withLines lines).outcome resolved = m.outcome resolved := by
  cases resolved with
  | error stop => rfl
  | ok intent => cases intent <;> rfl

variable {lines}

theorem goTo_withLines (h : lines.size = m.lines.size) (target : Nat) :
    (m.withLines lines).goTo target = (m.goTo target).withLines lines := by
  rw [goTo, goTo, withLines, h]
  rfl

theorem updated_withLines (change : Change) :
    (m.withLines lines).updated change = (m.updated change).withLines lines := by
  cases change <;> rfl

theorem apply_withLines (h : lines.size = m.lines.size) (change : Change) :
    (m.withLines lines).apply change = (m.apply change).withLines lines := by
  by_cases hexit : change = .exit
  · subst hexit
    rfl
  · rw [apply_eq_goTo _ hexit, apply_eq_goTo _ hexit, updated_withLines]
    exact goTo_withLines (m.updated change) (by rw [h, updated_lines]) _

theorem settle_withLines (h : lines.size = m.lines.size)
    (result : Except (Stop × Console) Change) :
    (m.withLines lines).settle result = (m.settle result).withLines lines := by
  match result with
  | .ok change => exact m.apply_withLines h change
  | .error (.halt reason, rest) => rfl
  | .error (.fault fault, rest) => rfl

end Lines

/-- A step sees no more of its line than what it is about to do, and of the other lines no
more than how many there are. -/
theorem step_of_intent_eq {m : Machine} {lines : Array String} {line line' : String}
    (hsize : lines.size = m.lines.size) (hline : m.line? = some line)
    (hline' : lines[m.pc]? = some line')
    (h : Intent.ofLine m.toContext line' = Intent.ofLine m.toContext line) :
    (m.withLines lines).step.machine = m.step.machine.withLines lines ∧
      (m.withLines lines).step.fault = m.step.fault := by
  cases hstatus : m.status with
  | stopped why =>
      rw [step_of_stopped (m := m.withLines lines) hstatus, step_of_stopped hstatus]
      exact ⟨rfl, rfl⟩
  | running =>
      have hresolved : Intent.ofLine (m.withLines lines).toContext line' =
          Intent.ofLine m.toContext line := h
      obtain ⟨hmachine, hfault⟩ := step_of_outcome hstatus hline rfl
      obtain ⟨hmachine', hfault'⟩ := step_of_outcome (m := m.withLines lines) hstatus hline' rfl
      rw [hmachine, hfault, hmachine', hfault', hresolved, outcome_withLines,
        settle_withLines m hsize]
      exact ⟨rfl, rfl⟩

theorem line?_withLine {m : Machine} (h : m.pc < m.lines.size) (line : String) :
    (m.withLine line).line? = some line :=
  Array.getElem?_setIfInBounds_self_of_lt h

/-- Lines that are about to do the same are stepped alike. -/
theorem step_withLine_of_intent_eq (m : Machine) {line line' : String}
    (h : Intent.ofLine m.toContext line' = Intent.ofLine m.toContext line) :
    (m.withLine line').step.fault = (m.withLine line).step.fault ∧
      (m.withLine line').step.machine =
        { (m.withLine line).step.machine with lines := (m.withLine line').lines } := by
  by_cases hpc : m.pc < m.lines.size
  · have hsize : (m.withLine line').lines.size = (m.withLine line).lines.size := by
      simp [withLine, withLines]
    obtain ⟨hmachine, hfault⟩ :=
      step_of_intent_eq hsize (line?_withLine hpc line) (line?_withLine hpc line') h
    exact ⟨hfault, hmachine⟩
  · -- there is no current line to replace
    have hnone : ∀ text, m.withLine text = m := by
      intro text
      rw [withLine, Array.setIfInBounds, dif_neg hpc]
      rfl
    have hlines : m.step.machine.lines = m.lines := (stepped m).lines_eq.1
    rw [hnone, hnone, ← hlines]
    exact ⟨rfl, rfl⟩

/-- The layout of an instruction does not matter.  From every machine, a step on a line that
has an instruction in some layout gives the same result as the step on the canonical line,
and leads to the same machine, up to the line itself. -/
theorem step_layout (m : Machine) {mnemonic : Mnemonic} {tokens : List String} {line : String}
    (htokens : Statement.Writable tokens) (h : Statement.LaidOut mnemonic tokens line.toList) :
    let laidOut := (m.withLine line).step
    let plain := (m.withLine (Statement.canonical mnemonic tokens)).step
    laidOut.fault = plain.fault ∧
      laidOut.machine = { plain.machine with lines := (m.withLine line).lines } := by
  intro laidOut plain
  refine step_withLine_of_intent_eq m (Intent.ofLine_congr ?_ m.toContext)
  rw [Statement.ofLine_of_laidOut htokens h,
    Statement.ofLine_of_laidOut htokens (Statement.laidOut_canonical mnemonic tokens)]

/-- Tabs, capitals and commas behind the operands. -/
theorem step_layout_tabbed :
    let m : Machine := { lines := #["", ""], pc := 1 }
    let line := "\t ADDI\t $t0 ,$zero,\t-7 , ,\t"
    let plain := (m.withLine "addi $t0,$zero,-7").step
    (m.withLine line).step.fault = plain.fault ∧
      (m.withLine line).step.machine = { plain.machine with lines := #["", line] } ∧
      (m.withLine line).step.machine.registers.get 8 = .int (-7) := by
  intro m line plain
  have hwritable : Statement.Writable ["$t0", "$zero", "-7"] :=
    ⟨by decide, by decide, by decide, by decide⟩
  have hline : line.toList = ['\t', ' '] ++ ("ADDI".toList ++ (['\t', ' '] ++ [','].intercalate
      (["$t0 ".toList, "$zero".toList, "\t-7 ".toList] ++ [[' '], ['\t']]))) := by
    decide
  have hlaid : Statement.LaidOut .addi ["$t0", "$zero", "-7"] line.toList := by
    rw [hline]
    refine .intro (by decide) (by decide) (by decide) (by decide) ?_ (by decide)
    exact .cons ⟨[], [' '], by decide, by decide, by decide⟩
      (.cons (Statement.padded_self _)
        (.cons ⟨['\t'], [' '], by decide, by decide, by decide⟩ .nil))
  obtain ⟨hfault, hmachine⟩ := step_layout m hwritable hlaid
  exact ⟨hfault, hmachine, by decide +kernel⟩

end Machine

end MipsText
