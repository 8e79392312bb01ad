/-
# `MipsText.Machine.Execute` — executing an intent

What each kind of line does, in the order in which it does it.  Sources are read one
after the other, each as soon as it is known which register it is, and the destination
is asked for last.

A service call looks at `$v0` for the number of the service and at `$a0` and `$a1` for
its arguments.  A number that no service has is passed over.
-/
import MipsText.Machine.Execution

namespace MipsText

open Executing

/-! ## Registers -/

def Mnemonic.Action.execute (o : Operands Register) : Action → Executing Unit
  | .idle => return
  | .copy => do
      let source ← operand o.secondSource
      let value ← cell source
      let target ← operand o.firstSource
      setCell target value
  | .combine f => do
      let rs ← operand o.firstSource
      let a ← integer rs
      let rt ← operand o.secondSource
      let b ← integer rt
      let rd ← operand o.destination
      setInteger rd (f a b)
  | .combineImmediate f => do
      let rs ← operand o.firstSource
      let a ← integer rs
      let rd ← operand o.destination
      let value ← operand o.immediateValue
      setInteger rd (f a value)
  | .copyFrom r => do
      let value ← integer r
      let rd ← operand o.destination
      setInteger rd value
  | .copyTo r => do
      let rd ← operand o.destination
      let value ← integer rd
      setInteger r value
  | .multiply => do
      let rs ← operand o.firstSource
      let a ← integer rs
      let rt ← operand o.secondSource
      let b ← integer rt
      setInteger .hi 0
      setInteger .lo (a * b)
  | .divide f => do
      let rs ← operand o.firstSource
      let a ← integer rs
      let rt ← operand o.secondSource
      let b ← integer rt
      if b = 0 then throw (.fault .divisionByZero)
      setInteger .hi (f a b).quotient
      setInteger .lo (f a b).remainder
  | .constant f => do
      let rd ← operand o.destination
      let value ← operand o.immediateValue
      setInteger rd (f value)
  | .reference => do
      let label ← operand o.labelName
      let rd ← operand o.destination
      setCell rd (.ref label)

/-! ## Memory and control -/

/-- The line behind the one kept in `$ra`, as long as it is a line number. -/
def Machine.returnTarget (address : Word) : Except Fault Nat :=
  let target := address.toInt + 1
  if 0 ≤ target ∧ target < 0x80000000 then .ok target.toNat
  else .error (.invalidJumpTarget address)

namespace Intent

def executeReturn : Executing Unit := do
  let address ← integer .ra
  let target ← check fun _ => Machine.returnTarget address
  jumpTo target

def executeLoad (r : Register) (label : String) (offset : Word) : Executing Unit := do
  let value ← check fun m => m.symbols.load label offset
  note fun _ => .load label offset value
  setInteger r value

def executeStore (r : Register) (label : String) (offset : Word) : Executing Unit := do
  let value ← integer r
  note fun _ => .store label offset value
  let i ← check fun m => m.symbols.storeIndex label offset
  change fun m => { m with symbols := m.symbols.setWord label i value }

/-- Keeps the current line in `$ra` and goes on at another one. -/
def executeCall (target : Nat) : Executing Unit := do
  change fun m => m.set .ra (.int (BitVec.ofNat 32 m.pc))
  jumpTo target

end Intent

/-! ## Services -/

namespace Service

def printCell : Executing Unit := do
  let text ← check fun m => m.symbols.describe (m.registers.get .a0)
  print text

def printCode : Executing Unit := do
  let code ← integer .a0
  match Machine.character? code with
  | some c => print c.toString
  | none => throw (.fault (.invalidCharacter code))

def takeInteger : Executing Unit := do
  let value ← takeInput Console.Input.takeInteger
  setInteger .v0 value

/-- Reads a line for the label in `$a0`, and keeps as many characters of it as `$a1` says. -/
def takeText : Executing Unit := do
  let label ← check fun m => m.registers.reference .a0
  let limit ← integer .a1
  let line ← takeInput Console.Input.takeLine
  let text := String.ofList (line.toList.take (Machine.readLimit limit))
  change fun m => { m with symbols := m.symbols.turnIntoString label text }

def execute : Service → Executing Unit
  | .printInt | .printString => printCell
  | .readInt => takeInteger
  | .readString => takeText
  | .exit => change fun m => m.stop .exit
  | .printChar => printCode

/-- Calls the service that `$v0` asks for. -/
def call : Executing Unit := do
  let code ← integer .v0
  match ofCode? code with
  | some service =>
      note fun _ => .service service
      service.execute
  | none => note fun _ => .unknownService code

end Service

/-! ## Lines -/

def Intent.execute : Intent → Executing Unit
  | .nothing => return
  | .act mnemonic operands => mnemonic.action.execute operands
  | .jump target => jumpTo target
  | .call target => executeCall target
  | .ret => executeReturn
  | .load r label offset => executeLoad r label offset
  | .store r label offset => executeStore r label offset
  | .service => Service.call

/-- Resolves a line and does what it says. -/
def Executing.line (text : String) : Executing Unit := do
  note fun m => .line m.pc text
  let intent ← check fun m => Intent.ofLine m.toContext text
  intent.execute

end MipsText
