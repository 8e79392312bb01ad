/-
# `MipsText.Proofs.Machine.Change` — a line as one change

A line that is neither malformed nor at fault comes down to one `Change`.  Here a line is
evaluated the other way round from how it is executed: everything that can be wrong is
checked first, and nothing is changed before the whole change is known.  `evaluate` gives the
change that an intent comes to, or the reason to stop together with the console as the line
leaves it; `settle` is the machine after that.

That a line executed in place comes to the same is said in `Proofs.Machine.Execution`.
-/
import MipsText.Machine.Step

namespace MipsText

/-- What a line changes. -/
inductive Change where
  | nothing
  /-- A new cell for a register. -/
  | set (register : Register) (cell : Cell)
  /-- New integers for `hi` and `lo`. -/
  | setResults (hi lo : Word)
  /-- A line to go on at. -/
  | jump (target : Nat)
  /-- A line to go on at, with the current line kept in `$ra`. -/
  | call (target : Nat)
  /-- A word of an array, or one more. -/
  | store (label : String) (index : Nat) (value : Word)
  /-- A text to write. -/
  | print (text : String)
  /-- An integer that was read, for `$v0`, and what is left of the input. -/
  | tookInteger (value : Word) (rest : Console.Input)
  /-- A string that was read, for a label, and what is left of the input. -/
  | tookString (label text : String) (rest : Console.Input)
  /-- The end of the run. -/
  | exit
deriving DecidableEq

/-- The label whose storage changes. -/
def Change.label? : Change → Option String
  | .store label .. | .tookString label .. => some label
  | _ => none

namespace Machine

def next (m : Machine) : Machine :=
  m.goTo (m.pc + 1)

def apply (m : Machine) : Change → Machine
  | .nothing => m.next
  | .set r c => (m.set r c).next
  | .setResults hi lo => ((m.set .hi (.int hi)).set .lo (.int lo)).next
  | .jump target => m.goTo target
  | .call target => (m.set .ra (.int (BitVec.ofNat 32 m.pc))).goTo target
  | .store label i value => { m with symbols := m.symbols.setWord label i value }.next
  | .print text => { m with output := m.output.append text }.next
  | .tookInteger value rest => { m.set .v0 (.int value) with input := rest }.next
  | .tookString label text rest =>
      { m with symbols := m.symbols.turnIntoString label text, input := rest }.next
  | .exit => m.stop .exit

end Machine

/-! ## Actions -/

def Mnemonic.Action.evaluate (c : Context) (o : Operands Register) : Action → Except Stop Change
  | .idle => return .nothing
  | .copy => do
      let source ← o.secondSource
      let target ← o.firstSource
      return .set target (c.registers.get source)
  | .combine f => do
      let rs ← o.firstSource
      let a ← c.integer rs
      let rt ← o.secondSource
      let b ← c.integer rt
      let rd ← o.destination
      return .set rd (.int (f a b))
  | .combineImmediate f => do
      let rs ← o.firstSource
      let a ← c.integer rs
      let rd ← o.destination
      let value ← o.immediateValue
      return .set rd (.int (f a value))
  | .copyFrom r => do
      let value ← c.integer r
      let rd ← o.destination
      return .set rd (.int value)
  | .copyTo r => do
      let rd ← o.destination
      let value ← c.integer rd
      return .set r (.int value)
  | .multiply => do
      let rs ← o.firstSource
      let a ← c.integer rs
      let rt ← o.secondSource
      let b ← c.integer rt
      return .setResults 0 (a * b)
  | .divide f => do
      let rs ← o.firstSource
      let a ← c.integer rs
      let rt ← o.secondSource
      let b ← c.integer rt
      if b = 0 then throw (.fault .divisionByZero)
      return .setResults (f a b).quotient (f a b).remainder
  | .constant f => do
      let rd ← o.destination
      let value ← o.immediateValue
      return .set rd (.int (f value))
  | .reference => do
      let label ← o.labelName
      let rd ← o.destination
      return .set rd (.ref label)

/-! ## Services -/

namespace Console.Output

def print (o : Output) (text : String) : Except StreamFailure Unit × Output :=
  match o.write text with
  | (.ok _, written) => written.flush
  | failed => failed

def fits (o : Output) (text : String) : Bool :=
  (o.print text).1.isOk

theorem write_ok {o written : Output} {text : String} {done : Unit}
    (h : o.write text = (.ok done, written)) : written = o.append text := by
  rw [write] at h
  split at h
  · exact (Prod.mk.inj h).2.symm
  · simp at h

theorem flush_eq (o : Output) : o.flush.2 = o := by
  rw [flush]
  split <;> rfl

theorem fits_of_room {o : Output} {limit : Option Nat} {text : String}
    (hs : o.sink = .limited limit) (h : ∀ n ∈ limit, o.size + text.utf8ByteSize ≤ n) :
    o.fits text = true := by
  have hrefusal : o.sink.refusal? o.text text = none := by
    rw [hs]
    cases limit with
    | none => rfl
    | some n => exact if_pos (h n rfl)
  have hflush : (o.append text).flush = (.ok (), o.append text) := by
    rw [flush, append, hs]
    rfl
  rw [fits, print, write, hrefusal]
  dsimp only
  rw [hflush]
  rfl

end Console.Output

namespace Machine

def emit (m : Machine) (text : String) : Except (Fault × Console) Change :=
  match m.output.print text with
  | (.ok _, _) => .ok (.print text)
  | (.error failure, output) => .error (.stream failure, { m.toConsole with output := output })

def printCell (m : Machine) : Except (Fault × Console) Change := do
  let text ← (m.symbols.describe (m.registers.get .a0)).mapError (·, m.toConsole)
  m.emit text

def printChar (m : Machine) : Except (Fault × Console) Change := do
  let code ← (m.integer .a0).mapError (·, m.toConsole)
  match character? code with
  | some c => m.emit c.toString
  | none => .error (.invalidCharacter code, m.toConsole)

/-- The label in `$a0` and the limit in `$a1` of a string read. -/
def readTarget (m : Machine) : Except Fault (String × Nat) := do
  let label ← m.registers.reference .a0
  let limit ← m.integer .a1
  return (label, readLimit limit)

def readInteger (m : Machine) : Except (Fault × Console) Change :=
  match m.input.takeInteger with
  | (.ok value, rest) => .ok (.tookInteger value rest)
  | (.error fault, rest) => .error (fault, { m.toConsole with input := rest })

def readText (m : Machine) : Except (Fault × Console) Change :=
  match m.readTarget with
  | .error fault => .error (fault, m.toConsole)
  | .ok (label, limit) =>
      match m.input.takeLine with
      | (.ok line, rest) => .ok (.tookString label (String.ofList (line.toList.take limit)) rest)
      | (.error fault, rest) => .error (fault, { m.toConsole with input := rest })

def serve (m : Machine) : Service → Except (Fault × Console) Change
  | .printInt | .printString => m.printCell
  | .printChar => m.printChar
  | .readInt => m.readInteger
  | .readString => m.readText
  | .exit => .ok .exit

def callService (m : Machine) : Except (Fault × Console) Change :=
  match m.integer .v0 with
  | .error fault => .error (fault, m.toConsole)
  | .ok code =>
      match Service.ofCode? code with
      | some service => m.serve service
      | none => .ok .nothing

/-! ## Lines -/

def evaluateLoad (c : Context) (r : Register) (label : String) (offset : Word) :
    Except Fault Change := do
  let value ← c.symbols.load label offset
  return .set r (.int value)

def evaluateStore (c : Context) (r : Register) (label : String) (offset : Word) :
    Except Fault Change := do
  let value ← c.integer r
  let i ← c.symbols.storeIndex label offset
  return .store label i value

def evaluateReturn (c : Context) : Except Fault Change := do
  let address ← c.integer .ra
  let target ← returnTarget address
  return .jump target

/-- What an intent changes, unless it is a service. -/
def evaluateLocal (c : Context) : Intent → Except Stop Change
  | .nothing | .service => return .nothing
  | .act mnemonic operands => mnemonic.action.evaluate c operands
  | .jump target => return .jump target
  | .call target => return .call target
  | .ret => evaluateReturn c
  | .load r label offset => evaluateLoad c r label offset
  | .store r label offset => evaluateStore c r label offset

def evaluate (m : Machine) : Intent → Except (Stop × Console) Change
  | .service => m.callService.mapError fun (fault, rest) => (.fault fault, rest)
  | intent => (evaluateLocal m.toContext intent).mapError (·, m.toConsole)

/-- The change that a resolved line makes, or why it stops the program. -/
def outcome (m : Machine) (resolved : Except Stop Intent) : Except (Stop × Console) Change :=
  match resolved with
  | .ok intent => m.evaluate intent
  | .error stop => .error (stop, m.toConsole)

/-- The change that the next step makes, if it makes any. -/
def nextChange? (m : Machine) : Option Change :=
  match m.status, m.line? with
  | .running, some line => (m.outcome (Intent.ofLine m.toContext line)).toOption
  | _, _ => none

/-- The machine after a line. -/
def settle (m : Machine) : Except (Stop × Console) Change → Machine
  | .ok change => m.apply change
  | .error (.halt reason, rest) => { m with toConsole := rest }.stop (.halted m.pc reason)
  | .error (.fault _, rest) => { m with toConsole := rest }.stop (.faulted m.pc)

/-- The fault that a line ends in. -/
def faultOf : Except (Stop × Console) Change → Option Fault
  | .error (.fault fault, _) => some fault
  | _ => none

end Machine

end MipsText
