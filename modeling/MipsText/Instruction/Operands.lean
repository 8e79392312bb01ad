/-
# `MipsText.Instruction.Operands` — the operands an instruction was given

Which operands are there depends on how many tokens the line had and of what
kind; an instruction asks for those it needs, and a missing one makes the line
malformed.
-/
import MipsText.Failure.Defect
import MipsText.Word

namespace MipsText

/-- The operands that were given, for registers of type `ρ`. -/
structure Operands (ρ : Type) where
  rd : Option ρ := none
  rs : Option ρ := none
  rt : Option ρ := none
  immediate : Option Word := none
  label : Option String := none
deriving DecidableEq

namespace Operands

variable {ρ : Type}

/-- An operand that has to be there. -/
def require {α : Type} (role : OperandRole) : Option α → Except Defect α
  | some a => .ok a
  | none => .error (.missingOperand role)

def destination (o : Operands ρ) : Except Defect ρ :=
  require .destination o.rd

def firstSource (o : Operands ρ) : Except Defect ρ :=
  require .firstSource o.rs

def secondSource (o : Operands ρ) : Except Defect ρ :=
  require .secondSource o.rt

def immediateValue (o : Operands ρ) : Except Defect Word :=
  require .immediate o.immediate

def labelName (o : Operands ρ) : Except Defect String :=
  require .label o.label

end Operands

end MipsText
