/-
# `MipsText.Instruction.Mnemonic` — the instructions that are known

A mnemonic is known by its name, in any mix of upper and lower case.  Three
tables say what it is: its `format`, which operands it takes; its `action` on the
registers; and, for a branch, the condition it tests.
-/
import MipsText.Register
import MipsText.Word

namespace MipsText

/-- The known instructions. -/
inductive Mnemonic where
  | noop | move
  | add | addu | sub | subu | and | or | xor | nor | slt | sltu | sllv | srlv | srav
  | mfhi | mflo | mthi | mtlo | mult | multu | div | divu
  | beq | bne
  | lw | lb | sw | sb
  | jr
  | sll | srl | sra | addi | addiu | slti | sltiu | andi | ori | xori
  | li | la | lui
  | beqz | bnez | bgez | bgtz | blez | bltz
  | j | jal
deriving DecidableEq

namespace Mnemonic

def all : List Mnemonic := [
  .noop, .move,
  .add, .addu, .sub, .subu, .and, .or, .xor, .nor, .slt, .sltu, .sllv, .srlv, .srav,
  .mfhi, .mflo, .mthi, .mtlo, .mult, .multu, .div, .divu,
  .beq, .bne,
  .lw, .lb, .sw, .sb,
  .jr,
  .sll, .srl, .sra, .addi, .addiu, .slti, .sltiu, .andi, .ori, .xori,
  .li, .la, .lui,
  .beqz, .bnez, .bgez, .bgtz, .blez, .bltz,
  .j, .jal]

def name : Mnemonic → String
  | .noop => "noop"
  | .move => "move"
  | .add => "add"
  | .addu => "addu"
  | .sub => "sub"
  | .subu => "subu"
  | .and => "and"
  | .or => "or"
  | .xor => "xor"
  | .nor => "nor"
  | .slt => "slt"
  | .sltu => "sltu"
  | .sllv => "sllv"
  | .srlv => "srlv"
  | .srav => "srav"
  | .mfhi => "mfhi"
  | .mflo => "mflo"
  | .mthi => "mthi"
  | .mtlo => "mtlo"
  | .mult => "mult"
  | .multu => "multu"
  | .div => "div"
  | .divu => "divu"
  | .beq => "beq"
  | .bne => "bne"
  | .lw => "lw"
  | .lb => "lb"
  | .sw => "sw"
  | .sb => "sb"
  | .jr => "jr"
  | .sll => "sll"
  | .srl => "srl"
  | .sra => "sra"
  | .addi => "addi"
  | .addiu => "addiu"
  | .slti => "slti"
  | .sltiu => "sltiu"
  | .andi => "andi"
  | .ori => "ori"
  | .xori => "xori"
  | .li => "li"
  | .la => "la"
  | .lui => "lui"
  | .beqz => "beqz"
  | .bnez => "bnez"
  | .bgez => "bgez"
  | .bgtz => "bgtz"
  | .blez => "blez"
  | .bltz => "bltz"
  | .j => "j"
  | .jal => "jal"

def lowerCase (s : String) : String :=
  String.ofList (s.toList.map Char.toLower)

def ofName? (s : String) : Option Mnemonic :=
  let wanted := lowerCase s
  all.find? fun m => m.name == wanted

/-- Which operands an instruction takes. -/
inductive Format where
  /-- Registers only, or a place in memory, or two values to compare. -/
  | register
  /-- A register with an immediate or a label. -/
  | immediate
  /-- One label of a line. -/
  | jump
deriving DecidableEq

def Format.letter : Format → String
  | .register => "R"
  | .immediate => "I"
  | .jump => "J"

def format : Mnemonic → Format
  | .sll | .srl | .sra | .addi | .addiu | .slti | .sltiu | .andi | .ori | .xori
  | .li | .la | .lui
  | .beqz | .bnez | .bgez | .bgtz | .blez | .bltz => .immediate
  | .j | .jal => .jump
  | _ => .register

def loads : Mnemonic → Bool
  | .lw | .lb => true
  | _ => false

def stores : Mnemonic → Bool
  | .sw | .sb => true
  | _ => false

/-- The condition of a branch on one value, as a signed number. -/
def zeroTest? : Mnemonic → Option (Word → Bool)
  | .beqz => some fun a => a.toInt == 0
  | .bnez => some fun a => a.toInt != 0
  | .bgez => some fun a => decide (a.toInt ≥ 0)
  | .bgtz => some fun a => decide (a.toInt > 0)
  | .blez => some fun a => decide (a.toInt ≤ 0)
  | .bltz => some fun a => decide (a.toInt < 0)
  | _ => none

/-- The condition of a branch on two values. -/
def pairTest? : Mnemonic → Option (Word → Word → Bool)
  | .beq => some fun a b => a == b
  | .bne => some fun a b => a != b
  | _ => none

/-- What an instruction does to the registers once its operands are known. -/
inductive Action where
  /-- Nothing. -/
  | idle
  /-- Copies a cell, integer or reference. -/
  | copy
  /-- Combines two registers. -/
  | combine (f : Word → Word → Word)
  /-- Combines a register and an immediate. -/
  | combineImmediate (f : Word → Word → Word)
  /-- Copies an integer out of `hi` or `lo`. -/
  | copyFrom (r : Register)
  /-- Copies an integer into `hi` or `lo`. -/
  | copyTo (r : Register)
  /-- Leaves the low word of a product in `lo` and zero in `hi`. -/
  | multiply
  /-- Leaves a quotient in `hi` and the remainder in `lo`. -/
  | divide (f : Word → Word → Word.Division)
  /-- Puts an immediate into a register. -/
  | constant (f : Word → Word)
  /-- Puts a reference to a label into a register. -/
  | reference

/-- What the instruction does to the registers.  Branches, jumps and memory
accesses do nothing here, whatever operands they have. -/
def action : Mnemonic → Action
  | .move => .copy
  | .add | .addu => .combine (· + ·)
  | .sub | .subu => .combine (· - ·)
  | .and => .combine (· &&& ·)
  | .or => .combine (· ||| ·)
  | .xor => .combine (· ^^^ ·)
  | .nor => .combine Word.nor
  | .slt => .combine Word.lessSigned
  | .sltu => .combine Word.lessUnsigned
  | .sllv => .combine Word.shiftLeft
  | .srlv => .combine Word.shiftRight
  | .srav => .combine Word.shiftRightSigned
  | .mfhi => .copyFrom .hi
  | .mflo => .copyFrom .lo
  | .mthi => .copyTo .hi
  | .mtlo => .copyTo .lo
  | .mult | .multu => .multiply
  | .div => .divide Word.divideSigned
  | .divu => .divide Word.divideUnsigned
  | .sll => .combineImmediate Word.shiftLeft
  | .srl => .combineImmediate Word.shiftRight
  | .sra => .combineImmediate Word.shiftRightSigned
  | .addi | .addiu => .combineImmediate (· + ·)
  | .slti => .combineImmediate Word.lessSigned
  | .sltiu => .combineImmediate Word.lessUnsigned
  | .andi => .combineImmediate (· &&& ·)
  | .ori => .combineImmediate (· ||| ·)
  | .xori => .combineImmediate (· ^^^ ·)
  | .li => .constant id
  | .lui => .constant fun a => a <<< 16
  | .la => .reference
  | .noop | .beq | .bne | .lw | .lb | .sw | .sb | .jr
  | .beqz | .bnez | .bgez | .bgtz | .blez | .bltz | .j | .jal => .idle

end Mnemonic

end MipsText
