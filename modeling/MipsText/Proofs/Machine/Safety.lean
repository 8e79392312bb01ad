/-
# `MipsText.Proofs.Machine.Safety` — nothing is out of range

Whatever the source, the input and the number of steps, a machine asks for nothing that is
not there.  `Machine.WithinBounds` says it of one machine:

  * its step depends on no register, and writes none, but those that the line names and the
    few that the instruction or the service has on its own;
  * while it runs it stands on a line of the program, or right behind the last one, where it
    stops without looking for a line;
  * its line number and the number of the line to go on at stay below a bound that a machine
    with 64-bit addresses can count up from.

The bound is the reason for the check that a return makes: a label stands on a line of the
program, the next line stands right behind one, but `$ra` may hold any number.
-/
import MipsText.Proofs.Machine.Locality
import MipsText.Proofs.Source.Data

namespace MipsText

open Checked Source

/-! ## Divisions and reservations -/

theorem Mnemonic.Action.execute_divide_congr {f g : Word → Word → Word.Division}
    (h : ∀ a b, b ≠ 0 → f a b = g a b) (o : Operands Register) :
    (Action.divide f).execute o = (Action.divide g).execute o := by
  refine bind_congr fun rs => bind_congr fun a => bind_congr fun rt => bind_congr fun b => ?_
  by_cases hb : b = 0
  · rw [if_pos hb, if_pos hb]
    rfl
  · rw [h a b hb]

/-- How many words a label has so far. -/
def Assembly.wordCount (a : Assembly) (name : String) : Nat :=
  (a.program.symbols.words[name]?.getD #[]).size

theorem Assembly.wordCount_reserved {lines : List (Option String)} {i bytes : Nat} {name : String}
    {rest : List Char} (h : LabelAt lines i .data name rest)
    (hd : Declares rest (.space bytes)) :
    (ofLines (lines.take (i + 1))).wordCount name =
        (ofLines (lines.take i)).wordCount name + (bytes + 3) / 4 ∧
      (bytes + 3) / 4 ≤ 4194304 := by
  obtain ⟨line, hline, hs, hl⟩ := h.labelled
  have htake : lines.take (i + 1) = lines.take i ++ [line] := by
    rw [List.take_add_one, hline]
    rfl
  have hw : (ofLines (lines.take i)).within = .data := (within_ofLines _).trans h.within
  have hbytes : bytes ≤ 16777216 := by
    generalize hspace : Directive.space bytes = d at hd
    cases hd with
    | space _ hle =>
        cases hspace
        exact hle
    | _ => exact nomatch hspace
  refine ⟨?_, by omega⟩
  rw [htake, ofLines_concat, feed_of_data hw hs hl, addData_of_declares hd]
  show ((Symbols.appendWords _ name (zeros bytes)).words[name]?.getD #[]).size = _
  rw [Symbols.words_appendWords, if_pos rfl, Option.getD_some, Array.size_append, zeros,
    Array.size_replicate]
  rfl

/-- No line number of a run reaches this bound, so that each can be counted up to it: it is
above every line of the program and the line behind the last, and above every line that a
return accepts. -/
def Program.lineBound (p : Program) : Nat :=
  max (p.lines.size + 1) 0x80000000

namespace Machine

/-! ## Registers -/

/-- `m.Reads r`: the machine runs, and its current line may read `r`. -/
def Reads (m : Machine) (r : Register) : Prop :=
  ∃ statement, m.Executes statement ∧ statement.Reads r

section Registers

variable {m : Machine} {f : RegisterFile}

theorem settle_withRegisters_status (result : Except (Stop × Console) Change) :
    ((m.withRegisters f).settle result).status = (m.settle result).status := by
  match result with
  | .ok change => cases change <;> rfl
  | .error (.halt reason, rest) => rfl
  | .error (.fault fault, rest) => rfl

/-- The step makes the same change, reports the same fault and stops for the same reason,
whatever the registers hold that its line may not read. -/
theorem step_congr (h : ∀ r, m.Reads r → f.get r = m.registers.get r) :
    (m.withRegisters f).nextChange? = m.nextChange? ∧
      (m.withRegisters f).step.fault = m.step.fault ∧
      (m.withRegisters f).step.machine.status = m.step.machine.status := by
  have hstatus : (m.withRegisters f).status = m.status := rfl
  have hline : (m.withRegisters f).line? = m.line? := rfl
  rw [nextChange?, nextChange?, step, step, hstatus, hline]
  cases hrunning : m.status with
  | stopped why => exact ⟨rfl, rfl, hstatus⟩
  | running =>
      cases hsome : m.line? with
      | none => exact ⟨rfl, rfl, rfl⟩
      | some line =>
          have houtcome := outcome_congr (m := m) (f := f) fun statement r hstatement hr =>
            h r ⟨statement, ⟨hrunning, statement?_eq_some.mpr ⟨line, hsome, hstatement⟩⟩, hr⟩
          obtain ⟨hmachine, hfault⟩ := perform_eq hrunning line
          obtain ⟨hmachine', hfault'⟩ := perform_eq (m := m.withRegisters f) hrunning line
          dsimp only
          rw [hmachine, hfault, hmachine', hfault', houtcome]
          exact ⟨rfl, rfl, settle_withRegisters_status _⟩

end Registers

/-! ## Line numbers -/

theorem returnTarget_lt {address : Word} {target : Nat} (h : returnTarget address = .ok target) :
    target < 0x80000000 := by
  simp only [returnTarget] at h
  split at h
  · next hrange =>
      obtain rfl := Except.ok.inj h
      omega
  · simp at h

theorem nextChange?_eq_some {m : Machine} {change : Change} (h : m.nextChange? = some change) :
    ∃ line intent, m.line? = some line ∧ Intent.ofLine m.toContext line = .ok intent ∧
      Evaluates m intent change := by
  rw [nextChange?] at h
  split at h
  · next line _ hline =>
      cases houtcome : m.outcome (Intent.ofLine m.toContext line) with
      | error stop => simp [houtcome, Except.toOption] at h
      | ok found =>
          obtain rfl : found = change := by simpa [houtcome, Except.toOption] using h
          obtain ⟨intent, hintent, hchange⟩ := outcome_eq_ok houtcome
          exact ⟨line, intent, hline, hintent, hchange⟩
  · simp at h

section Bounds

variable {source : Stream} {p : Program} {m : Machine}

/-- Control goes on at a line of the program, right behind one, or at a line that a return
accepts. -/
theorem target_lt_lineBound (h : (Program.assemble source).1 = .ok p) (hlines : m.lines = p.lines)
    (hlabels : m.symbols.lines = p.symbols.lines) {line : String} {intent : Intent}
    {change : Change} (hline : m.line? = some line)
    (hintent : Intent.ofLine m.toContext line = .ok intent) (hchange : Evaluates m intent change) :
    change.target m.pc < p.lineBound := by
  have hpc : m.pc < p.lines.size := hlines ▸ pc_lt_of_line?_eq_some hline
  rw [Program.lineBound, lt_max_iff]
  rcases hchange.destination with ⟨-, -, hnext⟩ | htarget | ⟨rfl, -⟩
  · exact Or.inl (by omega)
  · obtain ⟨_, _, _, label, -, -, -, -, hlabel⟩ := (jumps_iff hlabels hline hintent).mpr htarget
    exact Or.inl (Nat.lt_succ_of_lt (Program.line?_lt_size h hlabel))
  · cases hchange with
    | ret _ htarget => exact Or.inr (returnTarget_lt htarget)

theorem Stepped.pc_lt_lineBound {m' : Machine} {fault : Option Fault} (hstep : Stepped m m' fault)
    (h : (Program.assemble source).1 = .ok p) (hlines : m.lines = p.lines)
    (hlabels : m.symbols.lines = p.symbols.lines) (hpc : m.pc < p.lineBound) :
    m'.pc < p.lineBound := by
  cases hstep with
  | @changed line intent change _ hline hintent hchange =>
      by_cases hexit : change = .exit
      · subst hexit
        exact hpc
      · rw [apply_pc m hexit]
        exact target_lt_lineBound h hlines hlabels hline hintent hchange
  | _ => exact hpc

theorem pc_lt_lineBound (h : (Program.assemble source).1 = .ok p) (policy : ReferencePolicy)
    (input : Stream) (limit : Option Nat) (n : Nat) :
    ((start p policy input limit).after n).pc < p.lineBound := by
  induction n with
  | zero =>
      have hentry := Program.entry_le_lines_size h
      exact lt_max_of_lt_left (Nat.lt_succ_of_le hentry)
  | succ n ih =>
      obtain ⟨hlines, hlabels⟩ := lines_after (start p policy input limit) n
      exact (stepped _).pc_lt_lineBound h hlines hlabels ih

theorem lineBound_lt (h : (Program.assemble source).1 = .ok p)
    (hbytes : source.bytes.length ≤ 0x7FFFFFFFFFFFFFFF) : p.lineBound < 0x10000000000000000 := by
  have hlines : p.lines.size ≤ source.bytes.length := by
    rw [Program.lines_size h]
    exact source.length_lines_le
  exact max_lt (by omega) (by decide)

/-! ## Runs -/

/-- `WithinBounds p m`: the next step of `m`, which executes `p`, asks for nothing that is not
there. -/
structure WithinBounds (p : Program) (m : Machine) : Prop where
  /-- No register matters to the step that its line may not read. -/
  reads : ∀ f : RegisterFile, (∀ r, m.Reads r → f.get r = m.registers.get r) →
    (m.withRegisters f).nextChange? = m.nextChange? ∧
      (m.withRegisters f).step.fault = m.step.fault ∧
      (m.withRegisters f).step.machine.status = m.step.machine.status
  /-- The step writes no register that its line may not write. -/
  writes : ∀ r, ¬ m.Writes r → m.step.machine.registers.get r = m.registers.get r
  /-- The step takes a line of the program, or stops behind the last line without one. -/
  line : m.status = .running →
    (∃ hpc : m.pc < p.lines.size, m.step = m.perform p.lines[m.pc]) ∨
      m.pc = p.lines.size ∧ m.step = { machine := m.stop .endOfProgram }
  /-- The current line can be counted up. -/
  pc : m.pc + 1 ≤ p.lineBound
  /-- So can the line to go on at. -/
  next : ∀ change, m.nextChange? = some change → change.target m.pc + 1 ≤ p.lineBound

/-- Every machine of a run is within bounds. -/
theorem withinBounds_after (h : (Program.assemble source).1 = .ok p) (policy : ReferencePolicy)
    (input : Stream) (limit : Option Nat) (n : Nat) :
    WithinBounds p ((start p policy input limit).after n) := by
  obtain ⟨hlines, hlabels⟩ := lines_after (start p policy input limit) n
  refine ⟨fun f hf => step_congr hf, fun r hr => (stepped _).get_eq hr, fun hm => ?_,
    pc_lt_lineBound h policy input limit n, fun change hchange => ?_⟩
  · rcases Nat.lt_or_ge ((start p policy input limit).after n).pc p.lines.size with hpc | hpc
    · have hline : ((start p policy input limit).after n).line? =
          some p.lines[((start p policy input limit).after n).pc] := by
        rw [line?, hlines]
        exact Array.getElem?_eq_getElem hpc
      exact Or.inl ⟨hpc, step_of_line hm hline⟩
    · obtain ⟨rfl, hentry⟩ := entry_eq_size_of_size_le_pc h hm hpc
      exact Or.inr ⟨hentry, step_of_end hm (Array.getElem?_eq_none hpc)⟩
  · obtain ⟨line, intent, hline, hintent, hevaluates⟩ := nextChange?_eq_some hchange
    exact target_lt_lineBound h hlines hlabels hline hintent hevaluates

/-- Nothing is out of range, whatever the source, the input and the number of steps.  Every
machine of a run is within bounds; registers are numbers below 34, by their type, and those
that a token names are below 32; a division is not evaluated for a divisor of zero; a
reservation adds at most 4194304 words to its label; and for a source that fits into memory,
the bound on line numbers is one of 64 bits. -/
theorem run_safe (h : (Program.assemble source).1 = .ok p) (policy : ReferencePolicy)
    (input : Stream) (limit : Option Nat) :
    (∀ n, WithinBounds p ((start p policy input limit).after n)) ∧
    (∀ token r, Token.Names token r → r.val < 32) ∧
    (∀ f g : Word → Word → Word.Division, (∀ a b, b ≠ 0 → f a b = g a b) → ∀ o,
      (Mnemonic.Action.divide f).execute o = (Mnemonic.Action.divide g).execute o) ∧
    (∀ i name rest bytes, LabelAt source.lines i .data name rest →
      Declares rest (.space bytes) →
        (Assembly.ofLines (source.lines.take (i + 1))).wordCount name ≤
          (Assembly.ofLines (source.lines.take i)).wordCount name + 4194304) ∧
    (source.bytes.length ≤ 0x7FFFFFFFFFFFFFFF → p.lineBound < 0x10000000000000000) := by
  refine ⟨withinBounds_after h policy input limit, fun token r hr => hr.lt,
    fun f g hfg o => Mnemonic.Action.execute_divide_congr hfg o, ?_, lineBound_lt h⟩
  intro i name rest bytes hlabel hd
  obtain ⟨hcount, hle⟩ := Assembly.wordCount_reserved hlabel hd
  omega

/-- A return as far as returns go, which leads right below the bound, and a reservation of
five bytes. -/
theorem run_safe_return :
    let source := Stream.ofString ".data\nx: .space 5\n.text\nli $ra, 0x7FFFFFFE\njr $31\n"
    let p := (Assembly.ofLines source.lines).program
    let m := (start p .strict (Stream.ofString "") none).after 2
    m.pc = 0x7FFFFFFF ∧ p.lineBound = 0x80000000 ∧ WithinBounds p m ∧
      p.lineBound < 0x10000000000000000 ∧
      (Assembly.ofLines (source.lines.take 2)).wordCount "x" ≤
        (Assembly.ofLines (source.lines.take 1)).wordCount "x" + 4194304 := by
  intro source p m
  have hp : (Program.assemble source).1 = .ok p := Program.assemble_eq_ok.mpr ⟨rfl, rfl⟩
  obtain ⟨hpc, hbound, hbytes, hwithin, hline⟩ : m.pc = 0x7FFFFFFF ∧ p.lineBound = 0x80000000 ∧
      source.bytes.length ≤ 0x7FFFFFFFFFFFFFFF ∧ sectionAfter (source.lines.take 1) = .data ∧
      source.lines[1]? = some (some "x: .space 5") := by
    decide +kernel
  obtain ⟨hs, hl⟩ : startsSection (some "x: .space 5") = false ∧
      Labelled (some "x: .space 5") "x" ".space 5".toList :=
    Line.ofText_eq_labelled.mp (by decide)
  have hd : Declares ".space 5".toList (.space 5) := Directive.ofChars_eq_ok.mp (by decide)
  obtain ⟨hruns, -, -, hspace, hfits⟩ := run_safe hp .strict (Stream.ofString "") none
  exact ⟨hpc, hbound, hruns 2, hfits hbytes,
    hspace 1 "x" _ 5 ⟨hwithin, _, hline, hs, hl⟩ hd⟩

end Bounds

end Machine

end MipsText
