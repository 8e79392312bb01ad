/-
# `MipsText.Debugger` — stepping through a program by commands

A debugger holds a machine and whether lines are shown before they are executed.
It obeys one command at a time and answers with a `Reply`: what it has to say, in
order with what the machine logs, and whether the conversation goes on.
-/
import MipsText.Machine.Run

namespace MipsText

/-- What a debugger can be told. -/
inductive Command where
  | trace (on : Bool)
  | step
  /-- Step until the program stops. -/
  | proceed
  | registers
  | exit
  | nothing
  | unknown
deriving DecidableEq

def Command.ofText (text : String) : Command :=
  match (Text.words text.toList).map String.ofList with
  | ["trace", "on"] => .trace true
  | ["trace", "off"] => .trace false
  | ["step"] | ["s"] => .step
  | ["continue"] | ["c"] => .proceed
  | ["regs"] => .registers
  | ["exit"] => .exit
  | [] => .nothing
  | _ => .unknown

/-- A machine under observation. -/
structure Debugger where
  machine : Machine
  /-- Are lines shown before they are executed? -/
  trace : Bool := false

/-- Something that a debugger says, or that the machine logs meanwhile. -/
inductive Remark where
  | said (text : String)
  | logged (event : Event)
deriving DecidableEq

/-- The answer to a command. -/
structure Reply where
  debugger : Debugger
  /-- Does the conversation go on? -/
  goOn : Bool
  remarks : List Remark := []
  /-- The fault that the command ended in. -/
  fault : Option Fault := none

namespace Debugger

def say (text : String) : Remark :=
  .said (text ++ "\n")

/-- The line about to be executed, if lines are shown. -/
def announce (d : Debugger) : List Remark :=
  match d.trace, d.machine.line? with
  | true, some line => [say (Event.numbered d.machine.pc line)]
  | _, _ => []

/-- What there is to say when a step ends the run. -/
def farewell (p : Progress) : List Remark :=
  match p.fault, p.machine.status with
  | some fault, _ => [say ("Fault: " ++ fault.message)]
  | none, .stopped why => [say ("Program stopped: " ++ why.diagnostic)]
  | none, .running => []

/-- Executes one line, after what was said about it. -/
@[noinline] def stepAfter (announced : List Remark) (trace : Bool) (m : Machine) : Reply :=
  let progress := m.step
  { debugger := { machine := progress.machine, trace := trace }
    goOn := progress.fault.isNone && progress.machine.isRunning
    remarks := announced ++ progress.events.map .logged ++ farewell progress
    fault := progress.fault }

def step (d : Debugger) : Reply :=
  stepAfter d.announce d.trace d.machine

def registerEntry (r : Register) (c : Cell) : String :=
  Text.alignRight 5 r.name ++ " = " ++ Text.alignLeft 12 c.text

/-- All registers, four to a line. -/
def registerTable (f : RegisterFile) : String :=
  let entry := fun (r, c) => registerEntry r c ++ if r.val % 4 = 3 then "\n" else ""
  String.join (f.toList.map entry) ++ "\n"

/-- Obeys a command as far as one step goes. -/
def respond (d : Debugger) : Command → Reply
  | .trace on =>
      { debugger := { d with trace := on }
        goOn := d.machine.isRunning
        remarks := [say ("Instruction tracing is " ++ if on then "ON" else "OFF")] }
  | .step | .proceed => d.step
  | .registers =>
      { debugger := d
        goOn := d.machine.isRunning
        remarks := [.said (registerTable d.machine.registers)] }
  | .exit => { debugger := d, goOn := false }
  | .nothing => { debugger := d, goOn := d.machine.isRunning }
  | .unknown =>
      { debugger := d, goOn := d.machine.isRunning, remarks := [say "Unknown input"] }

/-- Which remarks of a long run are kept: all that is said, and the events that are
asked for. -/
def keeps (keep : Event → Bool) : Remark → Bool
  | .said _ => true
  | .logged event => keep event

/-- Steps until the program stops, after the remarks made so far. -/
def proceedFrom (keep : Event → Bool) (seen : Array Remark) (fuel : Nat) (d : Debugger) :
    Option Reply :=
  match fuel with
  | 0 => none
  | fuel + 1 =>
      let reply := d.step
      let seen := seen ++ reply.remarks.filter (keeps keep)
      if reply.goOn then proceedFrom keep seen fuel reply.debugger
      else some { reply with remarks := seen.toList }

/-- Obeys a command; a run that does not end within `fuel` steps has no reply. -/
def obey (keep : Event → Bool) (fuel : Nat) (d : Debugger) (command : Command) : Option Reply :=
  match command with
  | .proceed => proceedFrom keep #[] fuel d
  | _ =>
      let reply := d.respond command
      some { reply with remarks := reply.remarks.filter (keeps keep) }

end Debugger

end MipsText
