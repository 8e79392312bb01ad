/-
# `MipsText.Proofs.Machine.Forward` — programs that only go forward stop

In a program without returns, control goes to the next line or to the line of a label that
the current line names (`Stepped.destination`).  If all these labels stand further down, the
current line grows with every step, so the number of lines that are left bounds the number
of steps.  The bound is exact, since the step that goes past the last line is the one that
stops the machine; only a program whose entry stands behind its last line takes one step
more, to find that out.
-/
import MipsText.Proofs.Machine.Destination
import MipsText.Proofs.Machine.Run

namespace MipsText

/-! ## Where a line may lead -/

/-- Can the instruction go on at the line of a label?  These are the jumps and branches. -/
def Mnemonic.leads : Mnemonic → Bool
  | .j | .jal | .beq | .bne | .beqz | .bnez | .bgez | .bgtz | .blez | .bltz => true
  | _ => false

theorem Mnemonic.Compares.leads {m : Mnemonic} {a b : Int} (h : m.Compares a b) :
    m.leads = true := by
  cases m <;> first | rfl | exact h.elim

/-- The last operand of a jump or a branch, which may be a label. -/
def Statement.lead? (line : String) : Option String :=
  match ofLine line with
  | .ok (.instruction m tokens) => if m.leads then tokens.getLast? else none
  | _ => none

namespace Program

/-- The line of the label that a jump or branch on line `i` names as its last operand. -/
def lead? (p : Program) (i : Nat) : Option Nat :=
  p.lines[i]?.bind fun line => (Statement.lead? line).bind p.symbols.line?

/-- A program without returns, in which every label that a jump or branch names stands
behind the line of that jump or branch. -/
structure ForwardOnly (p : Program) : Prop where
  noReturn : ∀ line ∈ p.lines, Statement.mnemonic? line ≠ some .jr
  forward : ∀ i target, p.lead? i = some target → i < target

theorem lt_size_of_lead? {p : Program} {i target : Nat} (h : p.lead? i = some target) :
    i < p.lines.size := by
  obtain ⟨line, hline, -⟩ := Option.bind_eq_some_iff.mp h
  exact (Array.getElem?_eq_some_iff.mp hline).1

instance (p : Program) : Decidable p.ForwardOnly :=
  decidable_of_iff ((∀ line ∈ p.lines, Statement.mnemonic? line ≠ some .jr) ∧
      ∀ i < p.lines.size, ∀ target ∈ p.lead? i, i < target)
    ⟨fun h => ⟨h.1, fun i target hi => h.2 i (lt_size_of_lead? hi) target hi⟩,
      fun h => ⟨h.noReturn, fun i _ target hi => h.forward i target hi⟩⟩

end Program

namespace Intent

theorem Taken.leads {c : Context} {m : Mnemonic} {tokens : List String} (h : Taken c m tokens) :
    m.leads = true := by
  cases h with
  | jump hm => rcases hm with rfl | rfl <;> rfl
  | pair _ _ _ _ _ hcompares => exact hcompares.leads
  | zero _ _ _ hcompares => exact hcompares.leads

end Intent

namespace Machine

/-! ## Steps and runs -/

section Step

variable {m : Machine} {p : Program}

theorem Jumps.lead?_eq {i : Nat} (h : m.Jumps p i) (hlines : m.lines = p.lines) :
    p.lead? m.pc = some i := by
  obtain ⟨line, mnemonic, tokens, label, hline, hstatement, htaken, hlast, hlabel⟩ := h
  have hline : p.lines[m.pc]? = some line := hlines ▸ hline
  rw [Program.lead?, hline, Option.bind_some, Statement.lead?, hstatement]
  dsimp only
  rw [if_pos htaken.leads, hlast, Option.bind_some, hlabel]

/-- A machine that still runs behind a step stands further down. -/
theorem Stepped.pc_lt {m' : Machine} {fault : Option Fault} (h : Stepped m m' fault)
    (hp : p.ForwardOnly) (hlines : m.lines = p.lines)
    (hlabels : m.symbols.lines = p.symbols.lines) (hm : m.status = .running)
    (hm' : m'.status = .running) : m.pc < m'.pc := by
  have hpc : m.pc < m.lines.size := by
    cases h with
    | idle hstopped => exact absurd (hm.symm.trans hstopped) (by simp)
    | ended => exact nomatch hm'
    | changed _ hline => exact pc_lt_of_line?_eq_some hline
    | halted => exact nomatch hm'
    | faulted => exact nomatch hm'
  rcases h.destination hm hpc hlabels (Or.inl hm') with ⟨hnext, -⟩ | hjumps | hreturns
  · omega
  · exact hp.forward m.pc m'.pc (hjumps.lead?_eq hlines)
  · obtain ⟨line, token, _, hline, hjr, -⟩ := hreturns
    have hmem : line ∈ p.lines := hlines ▸ Array.mem_of_getElem? hline
    exact absurd (Statement.mnemonic?_of_instruction hjr) (hp.noReturn line hmem)

end Step

section Run

variable {p : Program}

/-- As long as a machine runs, it stands at least one line further down for every step. -/
theorem entry_add_le_pc (hp : p.ForwardOnly) {policy : ReferencePolicy} {input : Stream}
    {limit : Option Nat} {n : Nat} (h : ((start p policy input limit).after n).status = .running) :
    p.entry + n ≤ ((start p policy input limit).after n).pc := by
  induction n with
  | zero => exact Nat.le_refl _
  | succ n ih =>
      -- a machine that runs after a step ran before it
      have hrunning : ((start p policy input limit).after n).status = .running := by
        cases hstatus : ((start p policy input limit).after n).status with
        | running => rfl
        | stopped why =>
            have hstays : (start p policy input limit).after (n + 1) =
                (start p policy input limit).after n := by
              rw [after_add, after_of_stopped hstatus]
            exact absurd (hstatus.symm.trans (hstays ▸ h)) (by simp)
      obtain ⟨hlines, hlabels⟩ := lines_after (start p policy input limit) n
      have hlt := (stepped _).pc_lt hp hlines hlabels hrunning h
      have hle := ih hrunning
      show p.entry + (n + 1) ≤ ((start p policy input limit).after n).step.machine.pc
      omega

/-- Programs that only go forward stop.  In a program without returns, in which the labels
that jumps and branches name stand further down, every run has stopped once it has made as
many steps as there are lines from the entry on, or one step if there are none.  So a run
that may take as many steps has a result. -/
theorem run_forward {source : Stream} (h : (Program.assemble source).1 = .ok p)
    (hp : p.ForwardOnly) (policy : ReferencePolicy) (input : Stream) (limit : Option Nat) :
    let m := start p policy input limit
    let bound := max 1 (p.lines.size - p.entry)
    (∀ n, bound ≤ n → ∃ why, (m.after n).status = .stopped why) ∧
      ∀ keep, ∃ r, m.run keep bound = some r ∧ r.machine = m.after bound := by
  intro m bound
  have hstops : ∀ n, bound ≤ n → ∃ why, (m.after n).status = .stopped why := by
    intro n hn
    cases hstatus : (m.after n).status with
    | stopped why => exact ⟨why, rfl⟩
    | running =>
        have hpc : p.entry + n ≤ (m.after n).pc := entry_add_le_pc hp hstatus
        rcases Nat.lt_or_ge (m.after n).pc p.lines.size with hlt | hge
        · omega
        · have hzero := (entry_eq_size_of_size_le_pc h hstatus hge).1
          omega
  refine ⟨hstops, fun keep => ?_⟩
  obtain ⟨why, hwhy⟩ := hstops bound (Nat.le_refl _)
  have hrun : (m.runFrom keep #[] bound).map (·.machine) = some (m.after bound) :=
    runFrom_of_stopped_after hwhy
  exact Option.map_eq_some_iff.mp hrun

/-- A branch over a line, and a jump to the last line: the run ends by leaving. -/
theorem run_forward_skipping :
    let source := Stream.ofString
      ".text\nli $v0, 10\nbnez $v0, on\nli $v0, 1\non: j out\nsyscall\nout: syscall\n"
    let p := (Assembly.ofLines source.lines).program
    let m := start p .strict (Stream.ofString "") none
    p.ForwardOnly ∧ p.lines.size - p.entry = 6 ∧ (m.after 3).status = .running ∧
      (∃ why, (m.after 6).status = .stopped why) ∧
      ∃ r, m.run (fun _ => true) 6 = some r ∧ r.machine = m.after 6 := by
  intro source p m
  have hp : (Program.assemble source).1 = .ok p := Program.assemble_eq_ok.mpr ⟨rfl, rfl⟩
  obtain ⟨hforward, hsize, hrunning⟩ : p.ForwardOnly ∧ p.lines.size - p.entry = 6 ∧
      (m.after 3).status = .running := by
    decide +kernel
  obtain ⟨hstops, hrun⟩ := run_forward hp hforward .strict (Stream.ofString "") none
  have hbound : max 1 (p.lines.size - p.entry) = 6 := by omega
  rw [hbound] at hstops hrun
  exact ⟨hforward, hsize, hrunning, hstops 6 (Nat.le_refl 6), hrun fun _ => true⟩

end Run

end Machine

end MipsText
