/-
# `MipsText.Proofs.Machine.Calling` — a call returns to the line behind it

A call leaves the number of its line in `$ra`, and a return goes on behind the line that
`$ra` has.  So a return goes back to the call if `$ra` was not written in between.

What happens in between is restricted only in its lines: none of them is a call, and none
has an operand that names `$ra`.  That is enough, since `Statement.Writes` has no other way
to write this register (`Writes.names_ra`).

The number of the line has to be below `0x7FFFFFFF`, the largest signed word: the line behind
the call is computed from what `$ra` holds, and a return accepts it only if it is a signed
word as well.
-/
import MipsText.Proofs.Machine.Control
import MipsText.Proofs.Machine.Footprint

namespace MipsText

/-! ## Calls and returns as lines -/

namespace Intent

variable {c : Context} {line : String}

theorem ofLine_call {label : String} {target : Nat}
    (h : Statement.ofLine line = .ok (.instruction .jal [label]))
    (hlabel : c.symbols.line? label = some target) : ofLine c line = .ok (.call target) :=
  (ofLine_of_instruction h).trans (Resolves.call rfl hlabel).eq_ok

theorem ofLine_return {token : String}
    (h : Statement.ofLine line = .ok (.instruction .jr [token]))
    (htoken : Register.ofName? token = some .ra) : ofLine c line = .ok .ret :=
  (ofLine_of_instruction h).trans (Resolves.ret rfl htoken).eq_ok

end Intent

theorem Statement.Writes.names_ra {statement : Statement} (h : statement.Writes .ra) :
    ∃ m tokens, statement = .instruction m tokens ∧
      (m = .jal ∨ ∃ token ∈ tokens, Register.ofName? token = some .ra) := by
  generalize hra : Register.ra = r at h
  cases h with
  | operand htoken hname => exact ⟨_, _, rfl, Or.inr ⟨_, htoken, hra ▸ hname⟩⟩
  | result hresult =>
      subst hra
      rcases Mnemonic.mem_results hresult with h | h
      · exact absurd h (by decide)
      · exact absurd h (by decide)
  | link => exact ⟨_, _, rfl, Or.inl rfl⟩
  | service => exact absurd hra (by decide)

namespace Machine

/-! ## The two steps -/

section Step

variable {m : Machine}

/-- The call: control goes to the label, and `$ra` has the line of the call. -/
theorem step_call {label : String} {target : Nat} (h : m.Executes (.instruction .jal [label]))
    (hlabel : m.symbols.line? label = some target) :
    m.step.machine = m.apply (.call target) ∧ m.step.fault = none := by
  obtain ⟨hm, hstatement⟩ := h
  obtain ⟨line, hline, hjal⟩ := statement?_eq_some.mp hstatement
  exact step_of_evaluate hm hline (Intent.ofLine_call hjal hlabel) rfl

theorem returnTarget_ofNat {pc : Nat} (h : pc < 0x7FFFFFFF) :
    returnTarget (BitVec.ofNat 32 pc) = .ok (pc + 1) := by
  have hnat : (BitVec.ofNat 32 pc).toNat = pc := by
    rw [BitVec.toNat_ofNat]
    exact Nat.mod_eq_of_lt (by omega)
  have hint : (BitVec.ofNat 32 pc).toInt = pc := by
    rw [BitVec.toInt_eq_toNat_of_lt (by omega), hnat]
  rw [returnTarget, hint]
  rw [if_pos (by omega)]
  rfl

/-- The return: with the line of a call in `$ra`, control goes to the line behind it. -/
theorem step_return {token : String} {pc : Nat} (h : m.Executes (.instruction .jr [token]))
    (htoken : Register.ofName? token = some .ra) (hpc : pc < 0x7FFFFFFF)
    (hra : m.registers.get .ra = .int (BitVec.ofNat 32 pc)) :
    m.step.machine = m.apply (.jump (pc + 1)) ∧ m.step.fault = none := by
  obtain ⟨hm, hstatement⟩ := h
  obtain ⟨line, hline, hjr⟩ := statement?_eq_some.mp hstatement
  have hread : m.integer .ra = .ok (BitVec.ofNat 32 pc) :=
    RegisterFile.integer_eq_ok.mpr (Or.inl hra)
  have hreturn : evaluateReturn m.toContext = .ok (.jump (pc + 1)) := by
    rw [evaluateReturn, hread]
    show (returnTarget (BitVec.ofNat 32 pc)).bind _ = _
    rw [returnTarget_ofNat hpc]
    rfl
  refine step_of_evaluate hm hline (Intent.ofLine_return hjr htoken) ?_
  rw [evaluate_eq_local m (by simp)]
  show ((evaluateReturn m.toContext : Except Fault Change) : Except Stop Change).mapError _ = _
  rw [hreturn]
  rfl

end Step

/-! ## From the call to the return -/

theorem not_writes_ra {m : Machine}
    (h : ∀ mnemonic tokens, m.Executes (.instruction mnemonic tokens) →
      mnemonic ≠ .jal ∧ ∀ token ∈ tokens, Register.ofName? token ≠ some .ra) :
    ¬ m.Writes .ra := by
  rintro ⟨statement, hstatement, hwrites⟩
  obtain ⟨mnemonic, tokens, rfl, hnames⟩ := hwrites.names_ra
  obtain ⟨hjal, hnone⟩ := h mnemonic tokens hstatement
  rcases hnames with hcall | ⟨token, htoken, hname⟩
  · exact hjal hcall
  · exact hnone token htoken hname

/-- The line of a call stays in `$ra` until `$ra` is written again. -/
theorem get_ra_after_call {m : Machine} {label : String} {target k : Nat}
    (hcall : m.Executes (.instruction .jal [label]))
    (hlabel : m.symbols.line? label = some target)
    (hbetween : ∀ j, 1 ≤ j → j ≤ k → ¬ (m.after j).Writes .ra) :
    (m.after (k + 1)).registers.get .ra = .int (BitVec.ofNat 32 m.pc) := by
  have hlinked : (m.after 1).registers.get .ra = .int (BitVec.ofNat 32 m.pc) := by
    show m.step.machine.registers.get .ra = _
    rw [(step_call hcall hlabel).1]
    exact RegisterFile.get_set_self _ _ _
  rw [Nat.add_comm, after_add, ← hlinked]
  refine get_after ?_
  intro j hj
  rw [← after_add, Nat.add_comm]
  exact hbetween (j + 1) (by omega) (by omega)

/-- A call returns to the line behind it.  A machine executes a call of a label, and some
steps later it executes a return.  If no line in between is a call or has an operand that
names `$ra`, the return goes to the line behind the call, without a fault; the run ends there
if the call was on the last line. -/
theorem run_call_return {m : Machine} {label token : String} {target k : Nat}
    (hcall : m.Executes (.instruction .jal [label]))
    (hlabel : m.symbols.line? label = some target) (hpc : m.pc < 0x7FFFFFFF)
    (hreturn : (m.after (k + 1)).Executes (.instruction .jr [token]))
    (htoken : Register.ofName? token = some .ra)
    (hbetween : ∀ j, 1 ≤ j → j ≤ k → ∀ mnemonic tokens,
      (m.after j).Executes (.instruction mnemonic tokens) →
        mnemonic ≠ .jal ∧ ∀ token ∈ tokens, Register.ofName? token ≠ some .ra) :
    let last := (m.after (k + 1)).step
    last.fault = none ∧ last.machine.pc = m.pc + 1 ∧
      last.machine.status =
        if m.pc + 1 < m.lines.size then .running else .stopped .endOfProgram := by
  intro last
  have hlink : (m.after (k + 1)).registers.get .ra = .int (BitVec.ofNat 32 m.pc) :=
    get_ra_after_call hcall hlabel fun j hj hk => not_writes_ra (hbetween j hj hk)
  obtain ⟨hmachine, hfault⟩ := step_return hreturn htoken hpc hlink
  have hlines : (m.after (k + 1)).lines = m.lines := (lines_after m (k + 1)).1
  refine ⟨hfault, ?_, ?_⟩
  · rw [hmachine, apply_pc _ (by simp)]
    rfl
  · rw [hmachine, apply_status _ (by simp), hlines, hreturn.1]
    rfl

/-- A call of a procedure with two lines before its return. -/
theorem run_call_return_two :
    let source := Stream.ofString
      ".text\nJAL f\nli $v0, 10\nsyscall\nf: li $t0, 1\nmove $t1, $t0\njr $31\n"
    let p := (Assembly.ofLines source.lines).program
    let m := (start p .strict (Stream.ofString "") none).after
    (m 0).Executes (.instruction .jal ["f"]) ∧ (m 3).Executes (.instruction .jr ["$31"]) ∧
      (m 3).step.fault = none ∧ (m 4).pc = (m 0).pc + 1 ∧ (m 4).status = .running := by
  intro source p m
  obtain ⟨hcall, hfirst, hsecond, hreturn⟩ : (m 0).Executes (.instruction .jal ["f"]) ∧
      (m 1).Executes (.instruction .li ["$t0", "1"]) ∧
      (m 2).Executes (.instruction .move ["$t1", "$t0"]) ∧
      (m 3).Executes (.instruction .jr ["$31"]) := by
    decide +kernel
  obtain ⟨hlabel, hpc, hsize⟩ : (m 0).symbols.line? "f" = some 4 ∧ (m 0).pc = 1 ∧
      (m 0).lines.size = 7 := by
    decide +kernel
  have hafter : ∀ j, (m 0).after j = m j := fun _ => rfl
  have hstep : (m 3).step.machine = m 4 := rfl
  -- from here on the runs are not to be evaluated again
  clear_value m
  have hbetween : ∀ j, 1 ≤ j → j ≤ 2 → ∀ mnemonic tokens,
      ((m 0).after j).Executes (.instruction mnemonic tokens) →
        mnemonic ≠ .jal ∧ ∀ token ∈ tokens, Register.ofName? token ≠ some .ra := by
    intro j hj hk mnemonic tokens hline
    rw [hafter] at hline
    obtain rfl | rfl : j = 1 ∨ j = 2 := by omega
    · obtain ⟨rfl, rfl⟩ :=
        Statement.instruction.inj (Option.some.inj (hline.2.symm.trans hfirst.2))
      exact ⟨by decide, by decide +kernel⟩
    · obtain ⟨rfl, rfl⟩ :=
        Statement.instruction.inj (Option.some.inj (hline.2.symm.trans hsecond.2))
      exact ⟨by decide, by decide +kernel⟩
  have hlast := run_call_return hcall hlabel (by omega) (hafter 3 ▸ hreturn) (by decide +kernel)
    hbetween
  simp only [hafter, hstep] at hlast
  rw [if_pos (by omega)] at hlast
  exact ⟨hcall, hreturn, hlast⟩

end Machine

end MipsText
