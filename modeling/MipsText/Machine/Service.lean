/-
# `MipsText.Machine.Service` — printing, reading and leaving

The services that a program can call, by their numbers, and how their arguments are
taken.
-/
import MipsText.Word

namespace MipsText

/-- The services a program can call. -/
inductive Service where
  | printInt
  | printString
  | readInt
  | readString
  | exit
  | printChar
deriving DecidableEq

namespace Service

def ofCode? (code : Word) : Option Service :=
  match code.toNat with
  | 1 => some .printInt
  | 4 => some .printString
  | 5 => some .readInt
  | 8 => some .readString
  | 10 => some .exit
  | 11 => some .printChar
  | _ => none

def name : Service → String
  | .printInt => "PRINT_INT"
  | .printString => "PRINT_STR"
  | .readInt => "READ_INT"
  | .readString => "READ_STR"
  | .exit => "EXIT"
  | .printChar => "PRINT_CHAR"

end Service

namespace Machine

/-- The character with a given code, if there is one. -/
def character? (code : Word) : Option Char :=
  if h : code.toNat.isValidChar then some (Char.ofNatAux code.toNat h) else none

/-- The most characters that a string read takes; a negative number stands for none. -/
def readLimit (n : Word) : Nat :=
  n.toInt.toNat

end Machine

end MipsText
