/-
# `MipsText.Machine.Execution` — a line under execution

A line is executed in place, one thing after the other: a register is read, a word is
checked, a cell is replaced, a text is written.  Where the line stops, what was done
before stays done, so `Executing` keeps its state in a failure too.  That nothing has
been done by then is no matter of types but of the order in which a line does things.
-/
import MipsText.Machine.Basic
import MipsText.Machine.Event

namespace MipsText

/-- A line under execution. -/
structure Execution where
  /-- The machine, as far as the line has changed it. -/
  machine : Machine
  /-- The line to go on at. -/
  next : Nat
  /-- What the log was told. -/
  events : List Event := []

/-- Something that a line does. -/
abbrev Executing := EStateM Stop Execution

namespace Executing

variable {α : Type}

/-- Looks at the machine, and may find a reason to stop. -/
def check (f : Machine → Except Stop α) : Executing α := fun x =>
  match f x.machine with
  | .ok a => .ok a x
  | .error stop => .error stop x

/-- An operand that the line has to have. -/
def operand (given : Except Defect α) : Executing α :=
  check fun _ => given

def cell (r : Register) : Executing Cell := do
  let x ← get
  return x.machine.registers.get r

def integer (r : Register) : Executing Word :=
  check fun m => m.integer r

def change (f : Machine → Machine) : Executing Unit :=
  modify fun x => { x with machine := f x.machine }

def setCell (r : Register) (c : Cell) : Executing Unit :=
  change fun m => m.set r c

def setInteger (r : Register) (value : Word) : Executing Unit :=
  setCell r (.int value)

def note (event : Machine → Event) : Executing Unit :=
  modify fun x => { x with events := x.events ++ [event x.machine] }

/-- Lets control go on at a line. -/
def jumpTo (target : Nat) : Executing Unit := do
  note fun m => .jump m.pc target
  modify fun x => { x with next := target }

/-- Reads from the input; what a read takes is gone, also when it fails. -/
def takeInput (f : Console.Input → Except Fault α × Console.Input) : Executing α := fun x =>
  match f x.machine.input with
  | (.ok a, rest) => .ok a { x with machine := { x.machine with input := rest } }
  | (.error fault, rest) =>
      .error (.fault fault) { x with machine := { x.machine with input := rest } }

/-- Does something to the output, which may be done in part when it fails. -/
def onOutput (f : Console.Output → Except StreamFailure α × Console.Output) : Executing α :=
  fun x =>
    match f x.machine.output with
    | (.ok a, output) => .ok a { x with machine := { x.machine with output := output } }
    | (.error failure, output) =>
        .error (.fault (.stream failure)) { x with machine := { x.machine with output := output } }

def print (text : String) : Executing Unit := do
  onOutput fun o => o.write text
  onOutput fun o => o.flush

end Executing

end MipsText
