/-
# `MipsText.Proofs.Machine.Run` — runs with a bound on their steps

A run looks at the machine before every step and gives up at a fault.  The lemmas here say
what one more step of a run is, and relate a run to the machine after a number of steps: a
run that may take as many steps as the machine needs to stop has a result, and the machine
of this result is the one that has stopped.
-/
import MipsText.Proofs.Machine.Control

namespace MipsText.Machine

section Run

variable {keep : Event → Bool} {seen : Array Event} {m : Machine}

theorem runFrom_of_stopped {why : Ending} (h : m.status = .stopped why) (fuel : Nat) :
    m.runFrom keep seen fuel = some ⟨m, .ok why, seen⟩ := by
  rw [runFrom.eq_def, h]

theorem runFrom_zero (h : m.status = .running) : m.runFrom keep seen 0 = none := by
  rw [runFrom.eq_def, h]

theorem isRunning_iff : m.isRunning = true ↔ m.status = .running :=
  beq_iff_eq

theorem isRunning_eq_false {why : Ending} (h : m.status = .stopped why) : m.isRunning = false := by
  rw [isRunning, h]
  rfl

theorem runFrom_of_fault {fault : Fault} (hm : m.status = .running) (h : m.step.fault = some fault)
    (fuel : Nat) : m.runFrom keep seen (fuel + 1) =
      some ⟨m.step.machine, .error fault, seen ++ m.step.events.filter keep⟩ := by
  rw [runFrom.eq_def, hm]
  dsimp only
  rw [h]

theorem runFrom_of_step (hm : m.status = .running) (h : m.step.fault = none) (fuel : Nat) :
    m.runFrom keep seen (fuel + 1) =
      m.step.machine.runFrom keep (seen ++ m.step.events.filter keep) fuel := by
  rw [runFrom.eq_def, hm]
  dsimp only
  rw [h]

/-- One more step of a run, and no more when the machine does not run behind it.  This
holds of a machine that has stopped, too: its step does nothing. -/
theorem runFrom_succ_machine (fuel : Nat) :
    (m.runFrom keep seen (fuel + 1)).map (·.machine) =
      if m.step.machine.isRunning then
        (m.step.machine.runFrom keep (seen ++ m.step.events.filter keep) fuel).map (·.machine)
      else some m.step.machine := by
  cases hstatus : m.status with
  | stopped why =>
      rw [runFrom_of_stopped hstatus, step_of_stopped hstatus, isRunning_eq_false hstatus]
      rfl
  | running =>
      cases hfault : m.step.fault with
      | some fault =>
          obtain ⟨-, line, hline⟩ := (stepped m).fault_iff.mp (by simp [hfault])
          rw [runFrom_of_fault hstatus hfault, isRunning_eq_false hline]
          rfl
      | none =>
          rw [runFrom_of_step hstatus hfault]
          cases hnext : m.step.machine.status with
          | running => rw [if_pos (isRunning_iff.mpr hnext)]
          | stopped why =>
              rw [isRunning_eq_false hnext, runFrom_of_stopped hnext]
              rfl

theorem after_succ_eq (m : Machine) (n : Nat) : m.after (n + 1) = m.step.machine.after n := by
  rw [Nat.add_comm, after_add]
  rfl

/-- A run that may take as many steps as the machine needs to stop has a result, with the
machine that has stopped. -/
theorem runFrom_of_stopped_after {why : Ending} {fuel : Nat}
    (h : (m.after fuel).status = .stopped why) :
    (m.runFrom keep seen fuel).map (·.machine) = some (m.after fuel) := by
  induction fuel generalizing m seen with
  | zero =>
      rw [runFrom_of_stopped (m := m) h]
      rfl
  | succ fuel ih =>
      rw [after_succ_eq] at h ⊢
      rw [runFrom_succ_machine]
      cases hnext : m.step.machine.status with
      | running =>
          rw [if_pos (isRunning_iff.mpr hnext)]
          exact ih h
      | stopped why =>
          rw [isRunning_eq_false hnext, after_of_stopped hnext]
          rfl

theorem runFrom_of_after {why : Ending} {n fuel : Nat} (hn : n ≤ fuel)
    (hfaults : ∀ k < n, (m.after k).step.fault = none)
    (hstopped : (m.after n).status = .stopped why) :
    ∃ events, m.runFrom keep seen fuel = some ⟨m.after n, .ok why, events⟩ := by
  induction n generalizing m seen fuel with
  | zero => exact ⟨seen, runFrom_of_stopped hstopped fuel⟩
  | succ n ih =>
      cases hm : m.status with
      | stopped other =>
          rw [after_of_stopped hm] at hstopped ⊢
          exact ⟨seen, runFrom_of_stopped hstopped fuel⟩
      | running =>
          obtain ⟨fuel, rfl⟩ := Nat.exists_eq_add_of_le' hn
          rw [after_succ_eq] at hstopped ⊢
          rw [← Nat.add_assoc, runFrom_of_step hm (hfaults 0 (Nat.succ_pos n))]
          refine ih (Nat.le_add_left n fuel) ?_ hstopped
          intro k hk
          rw [← after_succ_eq]
          exact hfaults (k + 1) (Nat.succ_lt_succ hk)

/-- A run that may take enough steps has a result in `P`, whatever was seen before. -/
def EndsIn (keep : Event → Bool) (P : Run → Prop) (m : Machine) : Prop :=
  ∀ seen, ∃ fuel r, m.runFrom keep seen fuel = some r ∧ P r

theorem EndsIn.of_step {P : Run → Prop} (hm : m.status = .running) (hfault : m.step.fault = none)
    (h : EndsIn keep P m.step.machine) : EndsIn keep P m := by
  intro seen
  obtain ⟨fuel, r, hrun, hr⟩ := h (seen ++ m.step.events.filter keep)
  exact ⟨fuel + 1, r, (runFrom_of_step hm hfault fuel).trans hrun, hr⟩

end Run

end MipsText.Machine
