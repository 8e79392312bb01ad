/-
# `MipsText.Proofs.Machine.Straight` — lines that compute with registers

An instruction that acts on the registers changes nothing else, and control goes on with the
next line.  `Mnemonic.Performs` says what such an instruction comes to in a context, and
`step_performs` is the step that it makes.

`Straight c lines f` says that some lines in a row are such instructions, and that from the
context `c` they lead to the registers `f`.  A machine that stands on the first of the lines
stands behind the last of them as many steps later, with these registers and otherwise
unchanged, and none of the steps faults (`after_straight`).
-/
import MipsText.Proofs.Machine.Locality
import MipsText.Proofs.Machine.Run

namespace MipsText

def RegisterFile.changed (f : RegisterFile) : Change → RegisterFile
  | .set r cell => f.set r cell
  | .setResults hi lo => (f.set .hi (.int hi)).set .lo (.int lo)
  | _ => f

def Context.changed (c : Context) (change : Change) : Context :=
  c.withRegisters (c.registers.changed change)

/-- `m.Performs c tokens change`: in the context `c` the instruction with these operands acts
on the registers, and comes to `change`. -/
def Mnemonic.Performs (m : Mnemonic) (c : Context) (tokens : List String) (change : Change) :
    Prop :=
  ∃ o, Intent.Resolves c m tokens (.act m o) ∧ Acts c o m.action change

/-- `Straight c lines f`: the lines are instructions that act on registers, and executed one
after the other they lead from the context `c` to the registers `f`. -/
inductive Straight : Context → List String → RegisterFile → Prop
  | nil {c : Context} : Straight c [] c.registers
  | cons {c : Context} {line : String} {lines : List String} {m : Mnemonic}
      {tokens : List String} {change : Change} {f : RegisterFile} :
      Statement.ofLine line = .ok (.instruction m tokens) → m.Performs c tokens change →
      Straight (c.changed change) lines f →
      Straight c (line :: lines) f

/-! ## Reading registers after a change -/

namespace Context

variable (c : Context)

theorem integer_changed_set (r : Register) (value : Word) :
    (c.changed (.set r (.int value))).integer r = .ok value :=
  RegisterFile.integer_eq_ok.mpr (Or.inl (RegisterFile.get_set_self ..))

theorem integer_changed_set_of_ne {r q : Register} (h : q ≠ r) (cell : Cell) :
    (c.changed (.set r cell)).integer q = c.integer q :=
  integer_congr (c.registers.get_set_of_ne h cell)

variable (hi lo : Word)

theorem integer_changed_hi : (c.changed (.setResults hi lo)).integer .hi = .ok hi := by
  refine RegisterFile.integer_eq_ok.mpr (Or.inl ?_)
  exact (RegisterFile.get_set_of_ne _ (by decide) _).trans (RegisterFile.get_set_self ..)

theorem integer_changed_lo : (c.changed (.setResults hi lo)).integer .lo = .ok lo :=
  RegisterFile.integer_eq_ok.mpr (Or.inl (RegisterFile.get_set_self ..))

theorem integer_changed_results_of_ne {q : Register} (hhi : q ≠ .hi) (hlo : q ≠ .lo) :
    (c.changed (.setResults hi lo)).integer q = c.integer q :=
  integer_congr ((RegisterFile.get_set_of_ne _ hlo _).trans (RegisterFile.get_set_of_ne _ hhi _))

end Context

namespace Machine

variable {m : Machine}

/-- `m.Holds lines`: the program has these lines from the current line on. -/
def Holds (m : Machine) (lines : List String) : Prop :=
  ∀ i line, lines[i]? = some line → m.lines[m.pc + i]? = some line

/-! ## One line -/

theorem apply_of_performs {mnemonic : Mnemonic} {tokens : List String} {change : Change}
    (h : mnemonic.Performs m.toContext tokens change) :
    m.apply change = (m.withRegisters (m.registers.changed change)).next := by
  obtain ⟨o, -, hacts⟩ := h
  rcases Mnemonic.Action.evaluate_shape hacts.eq_ok with rfl | ⟨r, cell, rfl⟩ | ⟨hi, lo, rfl⟩
  · rfl
  · rfl
  · rfl

theorem step_performs {mnemonic : Mnemonic} {tokens : List String} {change : Change}
    (hline : m.Executes (.instruction mnemonic tokens))
    (h : mnemonic.Performs m.toContext tokens change) :
    m.step.machine = (m.withRegisters (m.registers.changed change)).next ∧
      m.step.fault = none := by
  obtain ⟨hm, hstatement⟩ := hline
  obtain ⟨line, hline, hinstruction⟩ := statement?_eq_some.mp hstatement
  obtain ⟨o, hresolves, hacts⟩ := id h
  have hintent : Intent.ofLine m.toContext line = .ok (.act mnemonic o) :=
    (Intent.ofLine_of_instruction hinstruction).trans hresolves.eq_ok
  have hchange : m.evaluate (.act mnemonic o) = .ok change := by
    rw [evaluate_eq_local m (by simp), evaluateLocal, hacts.eq_ok]
    rfl
  rw [← apply_of_performs h]
  exact step_of_evaluate hm hline hintent hchange

/-! ## Lines in a row -/

theorem goTo_of_lt {target : Nat} (h : target < m.lines.size) :
    m.goTo target = { m with pc := target } := by
  rw [goTo, if_pos h]

theorem goTo_self (hpc : m.pc < m.lines.size) : m.goTo m.pc = m :=
  goTo_of_lt hpc

theorem next_of_lt (hpc : m.pc + 1 < m.lines.size) : m.next = { m with pc := m.pc + 1 } :=
  goTo_of_lt hpc

theorem Holds.executes {line : String} {lines : List String} {statement : Statement}
    (h : m.Holds (line :: lines)) (hm : m.status = .running)
    (hstatement : Statement.ofLine line = .ok statement) : m.Executes statement :=
  ⟨hm, statement?_eq_some.mpr ⟨line, h 0 line rfl, hstatement⟩⟩

/-- A machine on the first of some lines that compute with registers comes to stand behind
the last of them, without a fault. -/
theorem after_straight {lines : List String} {f : RegisterFile}
    (h : Straight m.toContext lines f) (hm : m.status = .running) (hpc : m.pc < m.lines.size)
    (hlines : m.Holds lines) :
    (∀ k < lines.length, (m.after k).step.fault = none) ∧
      m.after lines.length = (m.withRegisters f).goTo (m.pc + lines.length) := by
  generalize hc : m.toContext = c at h
  induction h generalizing m with
  | nil =>
      subst hc
      exact ⟨nofun, (goTo_self hpc).symm⟩
  | @cons c line rest mnemonic tokens change f hline hperforms hrest ih =>
      subst hc
      obtain ⟨hstep, hfault⟩ := step_performs (hlines.executes hm hline) hperforms
      by_cases hnext : m.pc + 1 < m.lines.size
      · -- the machine runs on, at the first of the other lines
        have hmachine : m.step.machine =
            { m.withRegisters (m.registers.changed change) with pc := m.pc + 1 } :=
          hstep.trans (next_of_lt hnext)
        have hholds : m.step.machine.Holds rest := by
          intro i text htext
          rw [hmachine]
          show m.lines[m.pc + 1 + i]? = some text
          rw [Nat.add_right_comm]
          exact hlines (i + 1) text htext
        obtain ⟨hfaults, hafter⟩ := ih (by rw [hmachine]; exact hm) (by rw [hmachine]; exact hnext)
          hholds (by rw [hmachine]; rfl)
        refine ⟨?_, ?_⟩
        · intro k hk
          cases k with
          | zero => exact hfault
          | succ k =>
              rw [after_succ_eq]
              exact hfaults k (Nat.lt_of_succ_lt_succ hk)
        · rw [List.length_cons, after_succ_eq, hafter, hmachine, Nat.add_comm rest.length,
            ← Nat.add_assoc]
          rfl
      · -- there is no other line
        obtain rfl : rest = [] := by
          cases rest with
          | nil => rfl
          | cons text rest =>
              have hfound := hlines 1 text rfl
              exact absurd (Array.getElem?_eq_some_iff.mp hfound).1 hnext
        cases hrest
        refine ⟨?_, hstep⟩
        intro k hk
        obtain rfl : k = 0 := Nat.lt_one_iff.mp hk
        exact hfault

end Machine

end MipsText
