/-
# `MipsText.Session` — a front end on standard streams

A session is what happens between the start of the program and its exit code.  It
is advanced a little at a time: `tick` executes one line, or prints a prompt, or
obeys one command.  What goes to standard output is the output of the machine;
everything else, log lines included, goes to standard error.

The plain front end runs a program to its end.  The debugger reads its commands
from the same standard input as the program reads its data, line by line.
-/
import MipsText.Transcript

namespace MipsText

/-- The two ways to run a program. -/
inductive FrontEnd where
  | interpreter
  | debugger
deriving DecidableEq

namespace Session

/-- How far a session is. -/
inductive Phase where
  /-- The program runs to its end. -/
  | running (machine : Machine)
  /-- The debugger is about to ask for a command. -/
  | prompting (debugger : Debugger)
  /-- The debugger waits for a command. -/
  | listening (debugger : Debugger)
  /-- The debugger lets the program run on. -/
  | continuing (debugger : Debugger)
  /-- There is nothing more to do; without a program there is no machine. -/
  | ended (code : Nat) (machine : Option Machine)

namespace Phase

def machine? : Phase → Option Machine
  | .running m => some m
  | .prompting d | .listening d | .continuing d => some d.machine
  | .ended _ m => m

def mapMachine (f : Machine → Machine) : Phase → Phase
  | .running m => .running (f m)
  | .prompting d => .prompting { d with machine := f d.machine }
  | .listening d => .listening { d with machine := f d.machine }
  | .continuing d => .continuing { d with machine := f d.machine }
  | .ended code m => .ended code (m.map f)

end Phase

end Session

/-- A session so far. -/
structure Session where
  transcript : Transcript
  phase : Session.Phase
  /-- Did the last tick meet the end of standard input? -/
  starved : Bool := false

namespace Session

/-! ## Starting -/

def firstPhase (m : Machine) : FrontEnd → Phase
  | .interpreter => .running m
  | .debugger => .prompting { machine := m }

/-- Starts a session on a file, which may not have been opened. -/
def start (frontEnd : FrontEnd) (verbosity : Log.Verbosity) (policy : ReferencePolicy)
    (path : String) (contents : Except StreamFailure Stream) (input : Stream) : Session :=
  let (loaded, notices) := Program.assembleFile path contents
  let t := notices.foldl Transcript.logNotice { verbosity := verbosity }
  match loaded with
  | .error e => { transcript := t.error e.diagnostic, phase := .ended 1 none }
  | .ok program =>
      { transcript := t.log ⟨.info, "Loaded " ++ path⟩
        phase := firstPhase (Machine.start program policy input none) frontEnd }

/-! ## Ticking -/

/-- The closing log line of a run. -/
def closing : Ending → Log.Line
  | .halted line reason => ⟨.debug, "Stopped at line " ++ line.repr ++ ": " ++ reason.message⟩
  | why => ⟨.debug, "Finished: " ++ why.diagnostic⟩

/-- Executes one line of a program that runs to its end. -/
def advance (t : Transcript) (m : Machine) : Session :=
  let progress := m.step
  let t := progress.events.foldl Transcript.logEvent t
  match progress.fault, progress.machine.status with
  | some fault, _ =>
      { transcript := t.error fault.diagnostic
        phase := .ended 1 progress.machine
        starved := fault = .endOfInput }
  | none, .running => { transcript := t, phase := .running progress.machine }
  | none, .stopped why => { transcript := t.log (closing why), phase := .ended 0 progress.machine }

/-- Goes on after a reply of the debugger, in the given phase unless it was the last. -/
def settle (t : Transcript) (reply : Reply) (next : Debugger → Phase) : Session where
  transcript := reply.remarks.foldl Transcript.remark t
  phase := if reply.goOn then next reply.debugger else .ended 0 reply.debugger.machine
  starved := reply.fault = some .endOfInput

/-- Where the debugger is after a command that goes on. -/
def afterCommand : Command → Debugger → Phase
  | .proceed => .continuing
  | _ => .prompting

def withUnread (d : Debugger) (rest : Stream) : Debugger :=
  { d with machine := { d.machine with input := { d.machine.input with unread := rest } } }

/-- Takes a line of standard input as a command. -/
def listen (t : Transcript) (d : Debugger) : Session :=
  match d.machine.input.unread.takeLine with
  | (.ok (some text), rest) =>
      let command := Command.ofText text
      settle t ((withUnread d rest).respond command) (afterCommand command)
  | (.ok none, _) => { transcript := t, phase := .ended 0 d.machine, starved := true }
  | (.error failure, rest) =>
      { transcript := t.error failure.diagnostic, phase := .ended 1 (withUnread d rest).machine }

/-- Does the next bit of work. -/
def tick (s : Session) : Session :=
  let t := s.transcript
  match s.phase with
  | .running m => advance t m
  | .prompting d => { transcript := t.write "> ", phase := .listening d }
  | .listening d => listen t d
  | .continuing d => settle t d.step .continuing
  | .ended code m => { transcript := t, phase := .ended code m }

/-! ## Results -/

def code? (s : Session) : Option Nat :=
  match s.phase with
  | .ended code _ => some code
  | _ => none

def outputText (s : Session) : String :=
  match s.phase.machine? with
  | some m => m.output.text
  | none => ""

/-- Ticks until the session has ended; one that needs more than `fuel` ticks has
no result. -/
def run (fuel : Nat) (s : Session) : Option Session :=
  match s.code?, fuel with
  | some _, _ => some s
  | none, 0 => none
  | none, fuel + 1 => run fuel s.tick

/-! ## Incremental input and output -/

/-- The session with more standard input to read. -/
def feed (s : Session) (bytes : List UInt8) : Session :=
  { s with phase := s.phase.mapMachine fun m =>
      { m with input := { m.input with
          unread := { m.input.unread with bytes := m.input.unread.bytes ++ bytes } } } }

/-- The session once all it has written so far is delivered. -/
def delivered (s : Session) : Session :=
  { s with
    transcript := { s.transcript with text := "" }
    phase := s.phase.mapMachine fun m => { m with output := { m.output with text := "" } } }

end Session

end MipsText
