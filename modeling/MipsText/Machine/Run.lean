/-
# `MipsText.Machine.Run` — executing until the end

A run takes steps until the machine has stopped or a step faults.  Not every
program stops, so a run has a bound on its steps; one that needs more has no
result.
-/
import MipsText.Machine.Step

namespace MipsText

/-- How a run ended. -/
structure Run where
  machine : Machine
  /-- Why the machine stopped, or the fault that a step of this run ended in. -/
  result : Except Fault Ending
  /-- The events of the run that were asked for. -/
  events : Array Event

namespace Machine

/-- Steps until the end, after the events seen so far. -/
def runFrom (keep : Event → Bool) (seen : Array Event) (fuel : Nat) (m : Machine) : Option Run :=
  match m.status, fuel with
  | .stopped why, _ => some ⟨m, .ok why, seen⟩
  | .running, 0 => none
  | .running, fuel + 1 =>
      let progress := m.step
      let seen := seen ++ progress.events.filter keep
      match progress.fault with
      | some fault => some ⟨progress.machine, .error fault, seen⟩
      | none => runFrom keep seen fuel progress.machine

/-- Runs the machine for at most `fuel` steps, and keeps the events that are asked
for. -/
def run (keep : Event → Bool) (fuel : Nat) (m : Machine) : Option Run :=
  runFrom keep #[] fuel m

end Machine

end MipsText
