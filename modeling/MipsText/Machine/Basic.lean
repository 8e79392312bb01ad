/-
# `MipsText.Machine.Basic` — the state of a run

A machine is a program under execution: the context that its operands are resolved
against, the number of the current line, whether it still runs, and its console.
-/
import MipsText.Console.Input
import MipsText.Console.Output
import MipsText.Instruction.Intent
import MipsText.Program

namespace MipsText

/-- Why a machine stopped. -/
inductive Ending where
  /-- Control went past the last line. -/
  | endOfProgram
  /-- The program asked for it. -/
  | exit
  /-- The line is malformed. -/
  | halted (line : Nat) (reason : Defect)
  /-- The line faulted. -/
  | faulted (line : Nat)
deriving DecidableEq

namespace Ending

def kind : Ending → String
  | .endOfProgram => "EndOfProgram"
  | .exit => "Exit"
  | .halted .. => "Halted"
  | .faulted _ => "Faulted"

def diagnostic (e : Ending) : String :=
  match e with
  | .endOfProgram | .exit => e.kind
  | .halted line reason =>
      Text.record e.kind [("line", line.repr), ("reason", reason.diagnostic)]
  | .faulted line => Text.record e.kind [("line", line.repr)]

end Ending

/-- Whether a machine can go on. -/
inductive Status where
  | running
  | stopped (why : Ending)
deriving DecidableEq

/-- What a program reads from and writes to. -/
structure Console where
  input : Console.Input := {}
  output : Console.Output := {}

/-- A program under execution. -/
structure Machine extends Context, Console where
  lines : Array String
  /-- The current line. -/
  pc : Nat
  status : Status := .running

namespace Machine

/-- A machine at the entry of a program. -/
def start (p : Program) (policy : ReferencePolicy) (input : Stream)
    (limit : Option Nat) : Machine where
  symbols := p.symbols
  policy := policy
  lines := p.lines
  pc := p.entry
  input := { unread := input }
  output := { sink := .limited limit }

def isRunning (m : Machine) : Bool :=
  m.status == .running

def line? (m : Machine) : Option String :=
  m.lines[m.pc]?

/-- Goes on at a line; past the last one the run ends. -/
def goTo (m : Machine) (target : Nat) : Machine :=
  { m with
    pc := target
    status := if target < m.lines.size then m.status else .stopped .endOfProgram }

def set (m : Machine) (r : Register) (c : Cell) : Machine :=
  { m with registers := m.registers.set r c }

def stop (m : Machine) (why : Ending) : Machine :=
  { m with status := .stopped why }

end Machine

end MipsText
