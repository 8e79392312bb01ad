/-
# `MipsText.Machine.Step` — executing one line

A step executes the current line.  Unless the line stops the program, control goes on
behind it or where it says.  A machine that has stopped stays as it is.
-/
import MipsText.Machine.Execute

namespace MipsText

/-- What came of a step. -/
structure Progress where
  machine : Machine
  /-- The fault that the step ended in. -/
  fault : Option Fault := none
  events : List Event := []

/-- The machine after a line that was executed to its end. -/
def Execution.proceed (x : Execution) : Machine :=
  if x.machine.isRunning then x.machine.goTo x.next else x.machine

/-- What came of executing the line with the given number. -/
def Execution.conclude (number : Nat) : EStateM.Result Stop Execution Unit → Progress
  | .ok _ x => { machine := x.proceed, events := x.events }
  | .error (.halt reason) x =>
      { machine := x.machine.stop (.halted number reason)
        events := x.events ++ [.halt number reason] }
  | .error (.fault fault) x =>
      { machine := x.machine.stop (.faulted number)
        fault := some fault
        events := x.events ++ [.fault number fault] }

namespace Machine

def perform (m : Machine) (line : String) : Progress :=
  let number := m.pc
  Execution.conclude number ((Executing.line line).run { machine := m, next := number + 1 })

/-- Executes the current line. -/
def step (m : Machine) : Progress :=
  match m.status with
  | .stopped _ => { machine := m }
  | .running =>
      match m.line? with
      | some line => m.perform line
      | none => { machine := m.stop .endOfProgram }

end Machine

end MipsText
