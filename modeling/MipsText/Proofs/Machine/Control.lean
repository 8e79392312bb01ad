/-
# `MipsText.Proofs.Machine.Control` — status and current line agree

The status of a machine says something about where it stands: a running machine
stands on a line, one that halted or faulted stands on the line that it names, one
that left the program stands on the call that asked for it, and one that ran past
the end stands behind the last line.

The machine at the start is the one exception, since the entry of a program may
stand behind its last line while the machine still runs.  The first step mends that.
So the property that goes through a run is the weaker one, in which a running
machine may stand anywhere; and from it one step makes the full one.
-/
import MipsText.Proofs.Machine.Transition
import MipsText.Proofs.Source.Alignment

namespace MipsText

theorem Program.trim_of_mem_lines {source : Stream} {p : Program}
    (h : (assemble source).1 = .ok p) :
    ∀ line ∈ p.lines, Text.trim line.toList = line.toList := by
  obtain ⟨-, rfl⟩ := assemble_eq_ok.mp h
  intro line hline
  rw [← Array.mem_toList_iff, Assembly.lines_ofLines] at hline
  obtain ⟨raw, -, rfl⟩ := List.mem_map.mp hline
  exact Source.trim_kept raw

namespace Machine

/-- The status agrees with the current line. -/
def InPlace (m : Machine) : Prop :=
  match m.status with
  | .running => m.pc < m.lines.size
  | .stopped (.halted line _) => m.pc = line ∧ line < m.lines.size
  | .stopped (.faulted line) => m.pc = line ∧ line < m.lines.size
  | .stopped .exit =>
      m.pc < m.lines.size ∧ m.registers.get .v0 = .int 10 ∧
        ∃ line, m.line? = some line ∧ (Text.startsWith line.toList "syscall" = true ∨
          Text.startsWith line.toList ".syscall" = true)
  | .stopped .endOfProgram => m.lines.size ≤ m.pc

/-- `Coherent p m`: the machine `m` executes `p` and its status agrees with its
current line. -/
structure Coherent (p : Program) (m : Machine) : Prop where
  lines : m.lines = p.lines
  labels : m.symbols.lines = p.symbols.lines
  inPlace : m.InPlace

section Step

variable {m m' : Machine} {fault : Option Fault}

theorem pc_lt_of_line?_eq_some {line : String} (h : m.line? = some line) : m.pc < m.lines.size :=
  (Array.getElem?_eq_some_iff.mp h).1

theorem size_le_pc_of_line?_eq_none (h : m.line? = none) : m.lines.size ≤ m.pc :=
  Array.getElem?_eq_none_iff.mp h

theorem callsService_of_exit {line : String} {intent : Intent}
    (hintent : Intent.ofLine m.toContext line = .ok intent) (h : Evaluates m intent .exit) :
    Statement.callsService line = true ∧ m.registers.get .v0 = .int 10 := by
  obtain ⟨rfl, hserved⟩ := h.exit
  cases hserved with
  | exit hcode hservice =>
      obtain rfl := Service.ofCode?_eq_some.mp hservice
      exact ⟨Intent.callsService_of_ofLine hintent, Context.get_of_integer (by decide) hcode⟩

theorem Stepped.lines_eq (h : Stepped m m' fault) :
    m'.lines = m.lines ∧ m'.symbols.lines = m.symbols.lines := by
  cases h with
  | changed => exact ⟨apply_lines m _, apply_symbols_lines m _⟩
  | _ => exact ⟨rfl, rfl⟩

/-- Every step leads into place, wherever a running machine stood before. -/
theorem Stepped.inPlace (h : Stepped m m' fault)
    (htrim : ∀ line ∈ m.lines, Text.trim line.toList = line.toList)
    (hm : m.status ≠ .running → m.InPlace) : m'.InPlace := by
  cases h with
  | idle hstopped => exact hm (by simp [hstopped])
  | ended _ hline => exact size_le_pc_of_line?_eq_none hline
  | @changed line intent change hrunning hline hintent hchange =>
      by_cases hexit : change = .exit
      · subst hexit
        obtain ⟨hcalls, hv⟩ := callsService_of_exit hintent hchange
        have htrimmed := htrim line (Array.mem_of_getElem? hline)
        rw [Statement.callsService, htrimmed, Bool.or_eq_true] at hcalls
        exact ⟨pc_lt_of_line?_eq_some hline, hv, line, hline, hcalls⟩
      · rw [InPlace, apply_status m hexit, apply_pc m hexit, apply_lines, hrunning]
        by_cases htarget : change.target m.pc < m.lines.size
        · rw [if_pos htarget]
          exact htarget
        · rw [if_neg htarget]
          exact Nat.le_of_not_lt htarget
  | halted _ hline => exact ⟨rfl, pc_lt_of_line?_eq_some hline⟩
  | faulted _ hline => exact ⟨rfl, pc_lt_of_line?_eq_some hline⟩

theorem Stepped.fault_iff (h : Stepped m m' fault) :
    fault.isSome = true ↔ m.status = .running ∧ ∃ line, m'.status = .stopped (.faulted line) := by
  cases h with
  | idle hstopped => simp [hstopped]
  | ended => simp [stop]
  | @changed line intent change hrunning =>
      rcases apply_status_cases hrunning change with hs | hs | hs <;> simp [hs]
  | halted => simp [stop]
  | faulted hrunning => simp [hrunning, stop]

end Step

section Run

variable {m : Machine}

theorem lines_after (m : Machine) (n : Nat) :
    (m.after n).lines = m.lines ∧ (m.after n).symbols.lines = m.symbols.lines := by
  refine after_induction (P := fun m' => m'.lines = m.lines ∧
    m'.symbols.lines = m.symbols.lines) ⟨rfl, rfl⟩ ?_ n
  rintro m' ⟨hlines, hlabels⟩
  obtain ⟨hlines', hlabels'⟩ := (stepped m').lines_eq
  exact ⟨hlines'.trans hlines, hlabels'.trans hlabels⟩

/-- After at least one step the machine is in place.  The induction carries what is
true at the start as well: a machine that has stopped is in place. -/
theorem inPlace_after_succ (hrunning : m.status = .running)
    (htrim : ∀ line ∈ m.lines, Text.trim line.toList = line.toList) (n : Nat) :
    (m.after (n + 1)).InPlace := by
  have hstep : ∀ n, ((m.after n).status ≠ .running → (m.after n).InPlace) →
      (m.after (n + 1)).InPlace := by
    intro n hstopped
    refine (stepped (m.after n)).inPlace ?_ hstopped
    rwa [(lines_after m n).1]
  induction n with
  | zero => exact hstep 0 fun hstopped => absurd hrunning hstopped
  | succ n ih => exact hstep (n + 1) fun _ => ih

/-- Status and current line agree over whole runs.  After the first step a machine is
coherent with its program; a step reports a fault when it is the one that makes the
machine fault; and a machine that has stopped stays as it is, without a fault. -/
theorem run_coherent {source : Stream} {p : Program} (h : (Program.assemble source).1 = .ok p)
    (policy : ReferencePolicy) (input : Stream) (limit : Option Nat) (n : Nat) :
    let m := (start p policy input limit).after n
    (1 ≤ n → m.Coherent p) ∧
    (m.step.fault.isSome = true ↔
      m.status = .running ∧ ∃ line, m.step.machine.status = .stopped (.faulted line)) ∧
    ∀ why, m.status = .stopped why → ∀ k, m.after k = m ∧ (m.after k).step.fault = none := by
  intro m
  refine ⟨fun hn => ?_, (stepped m).fault_iff, fun why hwhy k => ?_⟩
  · obtain ⟨hlines, hlabels⟩ := lines_after (start p policy input limit) n
    refine ⟨hlines, hlabels, ?_⟩
    obtain ⟨k, rfl⟩ : ∃ k, n = k + 1 := ⟨n - 1, (Nat.sub_add_cancel hn).symm⟩
    exact inPlace_after_succ rfl (Program.trim_of_mem_lines h) k
  · have hk : m.after k = m := after_of_stopped hwhy k
    rw [hk, step_of_stopped hwhy]
    exact ⟨rfl, rfl⟩

/-- A labelled call that leaves the program: the machine stops on it and stays. -/
theorem run_coherent_exit :
    let source := Stream.ofString "li $v0, 10\n\tdone: syscall # leave\n"
    let p := (Assembly.ofLines source.lines).program
    let m := (start p .strict (Stream.ofString "") none).after 2
    m.status = .stopped .exit ∧ m.Coherent p ∧ m.after 3 = m := by
  intro source p m
  have hp : (Program.assemble source).1 = .ok p := Program.assemble_eq_ok.mpr ⟨rfl, rfl⟩
  have hexit : m.status = .stopped .exit := by decide +kernel
  obtain ⟨hcoherent, -, hstays⟩ := run_coherent hp .strict (Stream.ofString "") none 2
  exact ⟨hexit, hcoherent (by decide), (hstays .exit hexit 3).1⟩

end Run

end Machine

end MipsText
