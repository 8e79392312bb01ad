/-
# `MipsText.Instruction.Token` — reading one operand

An operand is a token without commas and outer blanks.  A token that starts with
`$` is meant to be a register, whether there is such a register or not.
-/
import MipsText.Failure.Defect
import MipsText.Text.Blank

namespace MipsText.Token

/-- Is the token meant to be a register? -/
def namesRegister (token : String) : Bool :=
  Text.startsWith token.toList "$"

def register (token : String) : Except Defect Register :=
  match Register.ofName? token with
  | some r => .ok r
  | none => .error (.invalidRegister token)

def immediate? (token : String) : Option Word :=
  Text.immediate? token.toList

def immediate (token : String) : Except Defect Word :=
  match immediate? token with
  | some value => .ok value
  | none => .error (.invalidImmediate token)

/-- Splits `offset(base)` at its first opening parenthesis; the closing one has to
be the last character. -/
def splitLocation? (cs : List Char) : Option (List Char × List Char) :=
  match Text.cut? (· == '(') cs with
  | some (offset, rest) =>
      if rest.getLast? = some ')' then some (Text.trim offset, Text.trim rest.dropLast) else none
  | none => none

/-- Reads the offset of a place in memory; none written is zero. -/
def offset? : List Char → Option Word
  | [] => some 0
  | cs => Text.immediate? cs

/-- Reads `offset(base)`, a place in memory: an offset in bytes and the register
that refers to the array. -/
def location (token : String) : Except Defect (Word × Register) :=
  match splitLocation? token.toList with
  | none => .error (.invalidMemoryOperand token)
  | some (before, base) =>
      match offset? before with
      | none => .error (.invalidMemoryOperand token)
      | some offset => (register (String.ofList base)).map fun r => (offset, r)

end MipsText.Token
