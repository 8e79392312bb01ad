/-
# `MipsText.Instruction.Statement` — what a program line says

A line is empty, or a call of a service, or a mnemonic with one to three
operands.  Blanks around the parts, the case of the mnemonic and commas at the
end of the line do not matter.
-/
import MipsText.Failure.Defect
import MipsText.Instruction.Mnemonic
import MipsText.Text.Blank

namespace MipsText

/-- What a program line says. -/
inductive Statement where
  | blank
  | syscall
  | instruction (mnemonic : Mnemonic) (tokens : List String)
deriving DecidableEq

namespace Statement

def dropTrailingEmpty (tokens : List (List Char)) : List (List Char) :=
  (tokens.reverse.dropWhile List.isEmpty).reverse

def tokens (cs : List Char) : List String :=
  (dropTrailingEmpty ((Text.pieces (· == ',') cs).map Text.trim)).map String.ofList

/-- Reads a mnemonic and its operands.  The number of operands is checked before
the mnemonic. -/
def ofParts (name operands : List Char) : Except Defect Statement :=
  let tokens := tokens operands
  if 1 ≤ tokens.length ∧ tokens.length ≤ 3 then
    match Mnemonic.ofName? (String.ofList name) with
    | some mnemonic => .ok (.instruction mnemonic tokens)
    | none => .error (.unknownMnemonic (String.ofList name))
  else .error (.operandCount tokens.length)

def ofLine (line : String) : Except Defect Statement :=
  let cs := Text.trim line.toList
  if cs.isEmpty then .ok .blank
  else if Text.startsWith cs "syscall" || Text.startsWith cs ".syscall" then .ok .syscall
  else
    match Text.cut? Text.isBlank cs with
    | some (name, operands) => ofParts name operands
    | none => .error .missingOperands

end Statement

end MipsText
