/-
# `MipsText.Instruction.Intent` — what an instruction is about to do

The operands of an instruction are resolved against the registers and the tables
of labels.  The result is an `Intent`: where control goes, which word is loaded or
stored, or which action runs on which registers.  Nothing is changed here.

The order in which operands are looked at decides which complaint a line with
several faults gives:

  * a branch on two values needs its label before it reads a register;
  * a branch on one value reads its register before it looks for the label.
-/
import MipsText.Instruction.Operands
import MipsText.Instruction.Statement
import MipsText.Instruction.Token
import MipsText.RegisterFile
import MipsText.Symbols

namespace MipsText

/-- What operands are resolved against. -/
structure Context where
  registers : RegisterFile := .initial
  symbols : Symbols := {}
  policy : ReferencePolicy := .strict

namespace Context

def integer (c : Context) (r : Register) : Except Fault Word :=
  c.registers.integer c.policy r

end Context

/-- What a line is about to do. -/
inductive Intent where
  /-- Go on with the next line. -/
  | nothing
  /-- Run the action of a mnemonic. -/
  | act (mnemonic : Mnemonic) (operands : Operands Register)
  /-- Go on at a line. -/
  | jump (target : Nat)
  /-- Go on at a line and keep the current line in `$ra`. -/
  | call (target : Nat)
  /-- Go on behind the line kept in `$ra`. -/
  | ret
  /-- Load a word into a register. -/
  | load (register : Register) (label : String) (offset : Word)
  /-- Store the word of a register. -/
  | store (register : Register) (label : String) (offset : Word)
  /-- Call the service that `$v0` asks for. -/
  | service
deriving DecidableEq

namespace Intent

/-- Goes on at the target if the condition holds. -/
def conditional (taken : Bool) (target : Nat) : Intent :=
  if taken then .jump target else .nothing

/-- The line that a label stands for, when there has to be one. -/
def lineOf (c : Context) (token : String) : Except Defect Nat :=
  match c.symbols.line? token with
  | some line => .ok line
  | none => .error (.unknownLabel token)

/-- The second value of a branch: an integer in a register, or a number. -/
def comparand (c : Context) (token : String) : Except Stop Word := do
  if Token.namesRegister token then
    let r ← Token.register token
    c.integer r
  else
    Token.immediate token

/-- A load or store through a register that holds a reference. -/
def access (c : Context) (m : Mnemonic) (register : Register) (token : String) :
    Except Defect Intent := do
  let (offset, base) ← Token.location token
  match c.registers.get base with
  | .ref label =>
      if m.loads then .ok (.load register label offset) else .ok (.store register label offset)
  | .int _ => .error (.baseNotReference base)

def ofPair (c : Context) (m : Mnemonic) (first second : String) : Except Defect Intent := do
  let rs ← Token.register first
  if Token.namesRegister second then
    let rt ← Token.register second
    return .act m { rs := some rs, rt := some rt }
  else if m.loads || m.stores then
    access c m rs second
  else
    throw (.invalidRegister second)

/-- Three operands, the last of which is not meant to be a register. -/
def ofTripleImmediate (c : Context) (m : Mnemonic) (rd : Register) (second third : String) :
    Except Stop Intent := do
  match m.pairTest? with
  | some condition =>
      let target ← lineOf c third
      let a ← c.integer rd
      let b ← comparand c second
      return conditional (condition a b) target
  | none =>
      let rs ← Token.register second
      let value ← Token.immediate third
      return .act m { rd := some rd, rs := some rs, immediate := some value }

def ofTriple (c : Context) (m : Mnemonic) (first second third : String) : Except Stop Intent := do
  let rd ← Token.register first
  if Token.namesRegister third then
    let rs ← Token.register second
    let rt ← Token.register third
    return .act m { rd := some rd, rs := some rs, rt := some rt }
  else
    ofTripleImmediate c m rd second third

/-- One operand of an instruction on registers.  There is no jump through a
register other than `$ra`. -/
def ofSingle (m : Mnemonic) (token : String) : Except Defect Intent :=
  if m = .jr then
    .ok (if Register.ofName? token = some .ra then .ret else .nothing)
  else do
    let rd ← Token.register token
    return .act m { rd := some rd }

def ofRegisterFormat (c : Context) (m : Mnemonic) : List String → Except Stop Intent
  | [first] => ofSingle m first
  | [first, second] => ofPair c m first second
  | [first, second, third] => ofTriple c m first second third
  | tokens => throw (.halt (.operandCount tokens.length))

def ofZeroBranch (c : Context) (condition : Word → Bool) : List String → Except Stop Intent
  | [first, second] => do
      let r ← Token.register first
      let value ← c.integer r
      let target ← lineOf c second
      return conditional (condition value) target
  | tokens => throw (.halt (.operandCount tokens.length))

/-- A register with a number, or with anything else that is not meant to be a
register, which then is a label. -/
def ofConstant (m : Mnemonic) (first second : String) : Except Defect Intent := do
  let rd ← Token.register first
  if Token.namesRegister second then throw (.invalidImmediate second)
  match Token.immediate? second with
  | some value => return .act m { rd := some rd, immediate := some value }
  | none => return .act m { rd := some rd, label := some second }

def ofCombination (m : Mnemonic) (first second third : String) : Except Defect Intent := do
  let rd ← Token.register first
  let rs ← Token.register second
  let value ← Token.immediate third
  return .act m { rd := some rd, rs := some rs, immediate := some value }

def ofImmediateFormat (c : Context) (m : Mnemonic) (tokens : List String) : Except Stop Intent :=
  match m.zeroTest? with
  | some condition => ofZeroBranch c condition tokens
  | none =>
      match tokens with
      | [first, second] => ofConstant m first second
      | [first, second, third] => ofCombination m first second third
      | _ => throw (.halt (.operandCount tokens.length))

def ofJumpFormat (c : Context) (m : Mnemonic) : List String → Except Defect Intent
  | [token] => do
      let target ← lineOf c token
      return if m = .jal then .call target else .jump target
  | tokens => throw (.operandCount tokens.length)

def ofInstruction (c : Context) (m : Mnemonic) (tokens : List String) : Except Stop Intent :=
  match m.format with
  | .register => ofRegisterFormat c m tokens
  | .immediate => ofImmediateFormat c m tokens
  | .jump => ofJumpFormat c m tokens

def ofLine (c : Context) (line : String) : Except Stop Intent := do
  match ← Statement.ofLine line with
  | .blank => return .nothing
  | .syscall => return .service
  | .instruction m tokens => ofInstruction c m tokens

end Intent

end MipsText
