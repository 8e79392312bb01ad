/-
# `MipsText.Failure.Defect` — lines that are not instructions

A malformed line halts the program quietly: the line is not executed and the
reason is kept.  Each reason has a message and a diagnostic.
-/
import MipsText.Register
import MipsText.Text.Quoted

namespace MipsText

/-- The part that an operand plays in an instruction. -/
inductive OperandRole where
  | destination
  | firstSource
  | secondSource
  | immediate
  | label
deriving DecidableEq

def OperandRole.text : OperandRole → String
  | .destination => "destination"
  | .firstSource => "first source"
  | .secondSource => "second source"
  | .immediate => "immediate"
  | .label => "label"

/-- Why a line is not an instruction. -/
inductive Defect where
  | missingOperands
  | unknownMnemonic (name : String)
  | operandCount (count : Nat)
  | invalidRegister (token : String)
  | invalidImmediate (token : String)
  | unknownLabel (token : String)
  | invalidMemoryOperand (token : String)
  | baseNotReference (register : Register)
  | missingOperand (role : OperandRole)
deriving DecidableEq

namespace Defect

def kind : Defect → String
  | .missingOperands => "MissingOperands"
  | .unknownMnemonic _ => "UnknownMnemonic"
  | .operandCount _ => "OperandCount"
  | .invalidRegister _ => "InvalidRegister"
  | .invalidImmediate _ => "InvalidImmediate"
  | .unknownLabel _ => "UnknownLabel"
  | .invalidMemoryOperand _ => "InvalidMemoryOperand"
  | .baseNotReference _ => "BaseNotReference"
  | .missingOperand _ => "MissingOperand"

def message : Defect → String
  | .missingOperands => "no operands after the mnemonic"
  | .unknownMnemonic name => "unknown mnemonic `" ++ name ++ "`"
  | .operandCount count => "expected 1 to 3 operands, found " ++ count.repr
  | .invalidRegister token => "invalid register `" ++ token ++ "`"
  | .invalidImmediate token => "invalid immediate `" ++ token ++ "`"
  | .unknownLabel token => "unknown label `" ++ token ++ "`"
  | .invalidMemoryOperand token => "invalid memory operand `" ++ token ++ "`"
  | .baseNotReference register => "base register " ++ register.name ++ " does not hold a reference"
  | .missingOperand role => "missing " ++ role.text ++ " operand"

/-- The parts of the reason, as a diagnostic shows them. -/
def parts : Defect → List String
  | .missingOperands => []
  | .operandCount count => [count.repr]
  | .unknownMnemonic token | .invalidRegister token | .invalidImmediate token
  | .unknownLabel token | .invalidMemoryOperand token => [Text.quote token]
  | .baseNotReference register => [Text.quote register.name]
  | .missingOperand role => [Text.quote role.text]

def diagnostic (d : Defect) : String :=
  Text.tuple d.kind d.parts

end Defect

end MipsText
