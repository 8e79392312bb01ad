/-
# `MipsText.Machine.Event` — what the log tells about a run

Each step notes the line it is at, what it did with memory and control, and why
it stopped.  Events never influence the machine.
-/
import MipsText.Failure.Fault
import MipsText.Log
import MipsText.Machine.Service
import MipsText.Text.Blank
import MipsText.Text.Column

namespace MipsText

/-- Something that happened in a step. -/
inductive Event where
  | line (number : Nat) (text : String)
  | service (s : Service)
  | unknownService (code : Word)
  | load (label : String) (offset value : Word)
  | store (label : String) (offset value : Word)
  | jump (source target : Nat)
  | halt (number : Nat) (reason : Defect)
  | fault (number : Nat) (cause : Fault)
deriving DecidableEq

namespace Event

def numbered (number : Nat) (text : String) : String :=
  Text.alignRight 4 number.repr ++ ": " ++ text

/-- A word of an array, by its offset. -/
def element (label : String) (offset value : Word) : String :=
  label ++ "[" ++ Word.text offset ++ "] = " ++ Word.text value

def log : Event → Log.Line
  | .line number text => ⟨.trace, numbered number (String.ofList (Text.trim text.toList))⟩
  | .service s => ⟨.trace, s.name⟩
  | .unknownService code => ⟨.warn, "Unknown syscall operation " ++ Word.text code⟩
  | .load label offset value => ⟨.trace, "Load " ++ element label offset value⟩
  | .store label offset value => ⟨.trace, "Store " ++ element label offset value⟩
  | .jump source target =>
      ⟨.debug, "Jump from line " ++ source.repr ++ " to " ++ target.repr⟩
  | .halt number reason =>
      ⟨.debug, "Halted at line " ++ number.repr ++ ": " ++ reason.message⟩
  | .fault number cause =>
      ⟨.debug, "Fault at line " ++ number.repr ++ ": " ++ cause.message⟩

/-- The level of the log line, without its text. -/
def level : Event → Log.Level
  | .line .. | .service _ | .load .. | .store .. => .trace
  | .unknownService _ => .warn
  | .jump .. | .halt .. | .fault .. => .debug

theorem level_log (e : Event) : e.log.level = e.level := by
  cases e <;> rfl

end Event

end MipsText
