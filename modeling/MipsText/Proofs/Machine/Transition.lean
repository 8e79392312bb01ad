/-
# `MipsText.Proofs.Machine.Transition` — what one step can do

Three relations list every way a step can go, so that a property of all steps is a
property of a few rules and no later proof opens `step`:

  * `Served m change`: the service that `$v0` asks for comes to `change`;
  * `Evaluates m intent change`: an intent comes to `change`;
  * `Stepped m m' fault`: a step takes `m` to `m'` and reports `fault`.

`served`, `evaluates` and `stepped` tie them to the machine.  `after` is the
machine after a number of steps, and `after_induction` carries what each step
preserves through a whole run.
-/
import MipsText.Machine.Run
import MipsText.Proofs.Instruction.Resolution
import MipsText.Proofs.Machine.Action
import MipsText.Proofs.Machine.Execution

namespace MipsText

open Checked

/-! ## Reading registers -/

theorem RegisterFile.integer_eq_ok {policy : ReferencePolicy} {f : RegisterFile} {r : Register}
    {value : Word} : f.integer policy r = .ok value ↔
      f.get r = .int value ∨ policy = .zero ∧ value = 0 ∧ ∃ label, f.get r = .ref label := by
  simp only [RegisterFile.integer]
  cases f.get r with
  | int found => simp
  | ref label =>
      cases policy with
      | strict => simp
      | zero => simpa using eq_comm

theorem RegisterFile.reference_eq_ok {f : RegisterFile} {r : Register} {label : String} :
    f.reference r = .ok label ↔ f.get r = .ref label := by
  rw [RegisterFile.reference]
  cases f.get r with
  | int value => simp
  | ref found => simp

theorem Context.get_of_integer {c : Context} {r : Register} {value : Word} (hv : value ≠ 0)
    (h : c.integer r = .ok value) : c.registers.get r = .int value := by
  rcases RegisterFile.integer_eq_ok.mp h with h | ⟨-, hzero, -⟩
  · exact h
  · exact absurd hzero hv

def Service.code : Service → Word
  | .printInt => 1
  | .printString => 4
  | .readInt => 5
  | .readString => 8
  | .exit => 10
  | .printChar => 11

theorem Service.ofCode?_eq_some {code : Word} {s : Service} :
    Service.ofCode? code = some s ↔ code = s.code := by
  constructor
  · intro h
    rw [Service.ofCode?] at h
    split at h
    case h_7 => exact nomatch h
    all_goals
      obtain rfl := Option.some.inj h
      exact BitVec.eq_of_toNat_eq ‹code.toNat = _›
  · rintro rfl
    cases s <;> rfl

/-- The line that a change goes on at, from line `pc`. -/
def Change.target (pc : Nat) : Change → Nat
  | .jump target | .call target => target
  | _ => pc + 1

namespace Machine

/-! ## Services -/

/-- `Served m change`: the service that `$v0` asks for comes to `change`. -/
inductive Served (m : Machine) : Change → Prop
  | printCell {code : Word} {text : String} : m.integer .v0 = .ok code →
      Service.ofCode? code = some .printInt ∨ Service.ofCode? code = some .printString →
      m.symbols.describe (m.registers.get .a0) = .ok text → m.output.fits text = true →
      Served m (.print text)
  | printChar {code value : Word} {c : Char} : m.integer .v0 = .ok code →
      Service.ofCode? code = some .printChar → m.integer .a0 = .ok value →
      character? value = some c → m.output.fits c.toString = true →
      Served m (.print c.toString)
  | readInt {code value : Word} {rest : Console.Input} : m.integer .v0 = .ok code →
      Service.ofCode? code = some .readInt → m.input.takeInteger = (.ok value, rest) →
      Served m (.tookInteger value rest)
  | readString {code limit : Word} {label line : String} {rest : Console.Input} :
      m.integer .v0 = .ok code → Service.ofCode? code = some .readString →
      m.registers.reference .a0 = .ok label → m.integer .a1 = .ok limit →
      m.input.takeLine = (.ok line, rest) →
      Served m (.tookString label (String.ofList (line.toList.take (readLimit limit))) rest)
  | exit {code : Word} : m.integer .v0 = .ok code → Service.ofCode? code = some .exit →
      Served m .exit
  | unknown {code : Word} : m.integer .v0 = .ok code → Service.ofCode? code = none →
      Served m .nothing

section Service

variable {m : Machine} {change : Change}

theorem emit_eq_ok {text : String} :
    m.emit text = .ok change ↔ m.output.fits text = true ∧ change = .print text := by
  rw [emit, Console.Output.fits]
  split
  · next written => simpa [written, Except.isOk, Except.toBool] using eq_comm
  · next failed => simp [failed, Except.isOk, Except.toBool]

theorem readTarget_eq_ok {label : String} {limit : Nat} :
    m.readTarget = .ok (label, limit) ↔ m.registers.reference .a0 = .ok label ∧
      ∃ n, m.integer .a1 = .ok n ∧ readLimit n = limit := by
  rw [readTarget]
  rw [bind_eq_ok]
  constructor
  · rintro ⟨found, hlabel, h⟩
    obtain ⟨n, hn, h⟩ := bind_eq_ok.mp h
    obtain ⟨rfl, rfl⟩ := Prod.mk.inj (pure_eq_ok.mp h)
    exact ⟨hlabel, n, hn, rfl⟩
  · rintro ⟨hlabel, n, hn, rfl⟩
    exact ⟨label, hlabel, bind_eq_ok.mpr ⟨n, hn, rfl⟩⟩

theorem served_printCell {code : Word} (hcode : m.integer .v0 = .ok code)
    (hservice : Service.ofCode? code = some .printInt ∨ Service.ofCode? code = some .printString)
    (h : m.printCell = .ok change) : Served m change := by
  obtain ⟨text, htext, h⟩ := bind_eq_ok.mp h
  obtain ⟨fits, rfl⟩ := emit_eq_ok.mp h
  exact .printCell hcode hservice (mapError_eq_ok.mp htext) fits

theorem served_printChar {code : Word} (hcode : m.integer .v0 = .ok code)
    (hservice : Service.ofCode? code = some .printChar) (h : m.printChar = .ok change) :
    Served m change := by
  obtain ⟨value, hvalue, h⟩ := bind_eq_ok.mp h
  split at h
  · next c hc =>
      obtain ⟨fits, rfl⟩ := emit_eq_ok.mp h
      exact .printChar hcode hservice (mapError_eq_ok.mp hvalue) hc fits
  · simp at h

theorem served_readInteger {code : Word} (hcode : m.integer .v0 = .ok code)
    (hservice : Service.ofCode? code = some .readInt) (h : m.readInteger = .ok change) :
    Served m change := by
  rw [readInteger] at h
  split at h
  · next value rest hread =>
      obtain rfl := Except.ok.inj h
      exact .readInt hcode hservice hread
  · simp at h

theorem served_readText {code : Word} (hcode : m.integer .v0 = .ok code)
    (hservice : Service.ofCode? code = some .readString) (h : m.readText = .ok change) :
    Served m change := by
  rw [readText] at h
  split at h
  · simp at h
  · next label limit htarget =>
      obtain ⟨hlabel, n, hn, rfl⟩ := readTarget_eq_ok.mp htarget
      split at h
      · next line rest hread =>
          obtain rfl := Except.ok.inj h
          exact .readString hcode hservice hlabel hn hread
      · simp at h

theorem served (h : m.callService = .ok change) : Served m change := by
  rw [callService] at h
  split at h
  · simp at h
  · next code hcode =>
      split at h
      · next service hservice =>
          cases service with
          | printInt => exact served_printCell hcode (Or.inl hservice) h
          | printString => exact served_printCell hcode (Or.inr hservice) h
          | printChar => exact served_printChar hcode hservice h
          | readInt => exact served_readInteger hcode hservice h
          | readString => exact served_readText hcode hservice h
          | exit =>
              obtain rfl := Except.ok.inj h
              exact .exit hcode hservice
      · next hservice =>
          obtain rfl := Except.ok.inj h
          exact .unknown hcode hservice

/-- What a service comes to depends on its number and its arguments, and on the console. -/
theorem callService_congr {m' : Machine} (hv0 : m'.integer .v0 = m.integer .v0)
    (hcell : m'.symbols.describe (m'.registers.get .a0) =
      m.symbols.describe (m.registers.get .a0))
    (ha0 : m'.integer .a0 = m.integer .a0)
    (hlabel : m'.registers.reference .a0 = m.registers.reference .a0)
    (ha1 : m'.integer .a1 = m.integer .a1) (hconsole : m'.toConsole = m.toConsole) :
    m'.callService = m.callService := by
  have hemit : ∀ text, m'.emit text = m.emit text := by
    intro text
    rw [emit, emit, hconsole]
  have hserve : ∀ service, m'.serve service = m.serve service := by
    intro service
    cases service with
    | printInt => rw [serve, serve, printCell, printCell, hcell, hconsole, funext hemit]
    | printString => rw [serve, serve, printCell, printCell, hcell, hconsole, funext hemit]
    | printChar => rw [serve, serve, printChar, printChar, ha0, hconsole, funext hemit]
    | readInt => rw [serve, serve, readInteger, readInteger, hconsole]
    | readString =>
        rw [serve, serve, readText, readText, readTarget, readTarget, hlabel, ha1, hconsole]
    | exit => rfl
  rw [callService, callService, hv0, hconsole, funext hserve]

end Service

/-! ## Intents -/

/-- `Evaluates m intent change`: the intent comes to `change`. -/
inductive Evaluates (m : Machine) : Intent → Change → Prop
  | nothing : Evaluates m .nothing .nothing
  | act {mnemonic : Mnemonic} {operands : Operands Register} {change : Change} :
      mnemonic.action.evaluate m.toContext operands = .ok change →
      Evaluates m (.act mnemonic operands) change
  | jump {target : Nat} : Evaluates m (.jump target) (.jump target)
  | call {target : Nat} : Evaluates m (.call target) (.call target)
  | ret {address : Word} {target : Nat} : m.integer .ra = .ok address →
      returnTarget address = .ok target → Evaluates m .ret (.jump target)
  | load {r : Register} {label : String} {offset value : Word} :
      m.symbols.load label offset = .ok value →
      Evaluates m (.load r label offset) (.set r (.int value))
  | store {r : Register} {label : String} {offset value : Word} {i : Nat} :
      m.integer r = .ok value → m.symbols.storeIndex label offset = .ok i →
      Evaluates m (.store r label offset) (.store label i value)
  | service {change : Change} : Served m change → Evaluates m .service change

/-- An intent other than a service leaves the console alone, also when it stops. -/
theorem evaluate_eq_local (m : Machine) {intent : Intent} (hs : intent ≠ .service) :
    m.evaluate intent = (evaluateLocal m.toContext intent).mapError (·, m.toConsole) := by
  cases intent with
  | service => exact absurd rfl hs
  | _ => rfl

theorem evaluates {m : Machine} {intent : Intent} {change : Change}
    (h : m.evaluate intent = .ok change) : Evaluates m intent change := by
  by_cases hs : intent = .service
  · subst hs
    exact .service (served (mapError_eq_ok.mp h))
  · rw [evaluate_eq_local m hs, mapError_eq_ok] at h
    cases intent with
    | nothing =>
        obtain rfl := pure_eq_ok.mp h
        exact .nothing
    | act mnemonic operands => exact .act h
    | jump target =>
        obtain rfl := pure_eq_ok.mp h
        exact .jump
    | call target =>
        obtain rfl := pure_eq_ok.mp h
        exact .call
    | ret =>
        obtain ⟨address, haddress, h⟩ := bind_eq_ok.mp (liftFault_eq_ok.mp h)
        obtain ⟨target, htarget, h⟩ := bind_eq_ok.mp h
        obtain rfl := pure_eq_ok.mp h
        exact .ret haddress htarget
    | load r label offset =>
        obtain ⟨value, hvalue, h⟩ := bind_eq_ok.mp (liftFault_eq_ok.mp h)
        obtain rfl := pure_eq_ok.mp h
        exact .load hvalue
    | store r label offset =>
        obtain ⟨value, hvalue, h⟩ := bind_eq_ok.mp (liftFault_eq_ok.mp h)
        obtain ⟨i, hi, h⟩ := bind_eq_ok.mp h
        obtain rfl := pure_eq_ok.mp h
        exact .store hvalue hi
    | service => exact absurd rfl hs

theorem Evaluates.exit {m : Machine} {intent : Intent} (h : Evaluates m intent .exit) :
    intent = .service ∧ Served m .exit := by
  cases h with
  | act h =>
      rcases Mnemonic.Action.evaluate_shape h with h | ⟨_, _, h⟩ | ⟨_, _, h⟩ <;> exact nomatch h
  | service h => exact ⟨rfl, h⟩

/-! ## Changes -/

section Apply

variable (m : Machine) (change : Change)

@[simp] theorem apply_lines : (m.apply change).lines = m.lines := by
  cases change <;> rfl

@[simp] theorem apply_symbols_lines : (m.apply change).symbols.lines = m.symbols.lines := by
  cases change <;> rfl

variable {change}

theorem apply_pc (h : change ≠ .exit) : (m.apply change).pc = change.target m.pc := by
  cases change with
  | exit => exact absurd rfl h
  | _ => rfl

theorem apply_status (h : change ≠ .exit) :
    (m.apply change).status =
      if change.target m.pc < m.lines.size then m.status else .stopped .endOfProgram := by
  cases change with
  | exit => exact absurd rfl h
  | _ => rfl

end Apply

/-- The machine with what a change brings, before control goes on. -/
def updated (m : Machine) : Change → Machine
  | .nothing | .jump _ | .exit => m
  | .set r c => m.set r c
  | .setResults hi lo => (m.set .hi (.int hi)).set .lo (.int lo)
  | .call _ => m.set .ra (.int (BitVec.ofNat 32 m.pc))
  | .store label i value => { m with symbols := m.symbols.setWord label i value }
  | .print text => { m with output := m.output.append text }
  | .tookInteger value rest => { m.set .v0 (.int value) with input := rest }
  | .tookString label text rest =>
      { m with symbols := m.symbols.turnIntoString label text, input := rest }

theorem updated_lines (m : Machine) (change : Change) : (m.updated change).lines = m.lines := by
  cases change <;> rfl

theorem updated_status (m : Machine) (change : Change) :
    (m.updated change).status = m.status := by
  cases change <;> rfl

theorem apply_eq_goTo (m : Machine) {change : Change} (h : change ≠ .exit) :
    m.apply change = (m.updated change).goTo (change.target m.pc) := by
  cases change with
  | exit => exact absurd rfl h
  | _ => rfl

theorem apply_status_cases {m : Machine} (hm : m.status = .running) (change : Change) :
    (m.apply change).status = .running ∨ (m.apply change).status = .stopped .endOfProgram ∨
      (m.apply change).status = .stopped .exit := by
  by_cases hexit : change = .exit
  · subst hexit
    exact Or.inr (Or.inr rfl)
  · rw [apply_status m hexit, hm]
    split
    · exact Or.inl rfl
    · exact Or.inr (Or.inl rfl)

/-! ## Steps -/

/-- `Stepped m m' fault`: a step takes `m` to `m'` and reports `fault`. -/
inductive Stepped (m : Machine) : Machine → Option Fault → Prop
  | idle {why : Ending} : m.status = .stopped why → Stepped m m none
  | ended : m.status = .running → m.line? = none → Stepped m (m.stop .endOfProgram) none
  | changed {line : String} {intent : Intent} {change : Change} : m.status = .running →
      m.line? = some line → Intent.ofLine m.toContext line = .ok intent →
      Evaluates m intent change → Stepped m (m.apply change) none
  | halted {line : String} {reason : Defect} : m.status = .running → m.line? = some line →
      m.outcome (Intent.ofLine m.toContext line) = .error (.halt reason, m.toConsole) →
      Stepped m (m.stop (.halted m.pc reason)) none
  | faulted {line : String} {fault : Fault} {rest : Console} : m.status = .running →
      m.line? = some line →
      m.outcome (Intent.ofLine m.toContext line) = .error (.fault fault, rest) →
      Stepped m ({ m with toConsole := rest }.stop (.faulted m.pc)) (some fault)

section Step

variable {m : Machine}

theorem step_of_stopped {why : Ending} (h : m.status = .stopped why) :
    m.step = { machine := m } := by
  rw [step]
  rw [h]

theorem step_of_line {line : String} (hm : m.status = .running) (h : m.line? = some line) :
    m.step = m.perform line := by
  rw [step]
  rw [hm, h]

theorem step_of_end (hm : m.status = .running) (h : m.line? = none) :
    m.step = { machine := m.stop .endOfProgram } := by
  rw [step]
  rw [hm, h]

theorem step_of_outcome {line : String} {result : Except (Stop × Console) Change}
    (hm : m.status = .running) (hline : m.line? = some line)
    (h : m.outcome (Intent.ofLine m.toContext line) = result) :
    m.step.machine = m.settle result ∧ m.step.fault = faultOf result := by
  rw [step_of_line hm hline, ← h]
  exact perform_eq hm line

theorem step_of_evaluate {line : String} {intent : Intent} {change : Change}
    (hm : m.status = .running) (hline : m.line? = some line)
    (hintent : Intent.ofLine m.toContext line = .ok intent)
    (hchange : m.evaluate intent = .ok change) :
    m.step.machine = m.apply change ∧ m.step.fault = none := by
  have houtcome : m.outcome (Intent.ofLine m.toContext line) = .ok change := by
    rw [hintent]
    exact hchange
  exact step_of_outcome hm hline houtcome

theorem outcome_eq_ok {resolved : Except Stop Intent} {change : Change}
    (h : m.outcome resolved = .ok change) :
    ∃ intent, resolved = .ok intent ∧ Evaluates m intent change := by
  cases resolved with
  | error stop => simp [outcome] at h
  | ok intent => exact ⟨intent, rfl, evaluates h⟩

/-- A line that halts leaves the console alone: services do not halt. -/
theorem outcome_halt {resolved : Except Stop Intent} {reason : Defect} {rest : Console}
    (h : m.outcome resolved = .error (.halt reason, rest)) : rest = m.toConsole := by
  cases resolved with
  | error stop => exact (Prod.mk.inj (Except.error.inj h)).2.symm
  | ok intent =>
      by_cases hs : intent = .service
      · subst hs
        obtain ⟨_, -, heq⟩ := mapError_eq_error.mp h
        exact nomatch (Prod.mk.inj heq).1
      · obtain ⟨_, -, heq⟩ := mapError_eq_error.mp ((evaluate_eq_local m hs).symm.trans h)
        exact (Prod.mk.inj heq).2.symm

theorem perform_stepped {line : String} (hm : m.status = .running) (h : m.line? = some line) :
    Stepped m (m.perform line).machine (m.perform line).fault := by
  rw [(perform_eq hm line).1, (perform_eq hm line).2]
  cases houtcome : m.outcome (Intent.ofLine m.toContext line) with
  | ok change =>
      obtain ⟨intent, hintent, hchange⟩ := outcome_eq_ok houtcome
      exact .changed hm h hintent hchange
  | error e =>
      obtain ⟨stop, rest⟩ := e
      cases stop with
      | halt reason =>
          obtain rfl := outcome_halt houtcome
          exact .halted hm h houtcome
      | fault fault => exact .faulted hm h houtcome

/-- A step goes by one of the rules. -/
theorem stepped (m : Machine) : Stepped m m.step.machine m.step.fault := by
  cases hm : m.status with
  | stopped why =>
      rw [step_of_stopped hm]
      exact .idle hm
  | running =>
      cases hline : m.line? with
      | none =>
          rw [step_of_end hm hline]
          exact .ended hm hline
      | some line =>
          rw [step_of_line hm hline]
          exact perform_stepped hm hline

end Step

/-! ## Runs -/

def after (m : Machine) : Nat → Machine
  | 0 => m
  | n + 1 => (m.after n).step.machine

theorem after_induction {P : Machine → Prop} {m : Machine} (start : P m)
    (step : ∀ m : Machine, P m → P m.step.machine) (n : Nat) : P (m.after n) := by
  induction n with
  | zero => exact start
  | succ n ih => exact step _ ih

theorem after_add (m : Machine) (j k : Nat) : m.after (j + k) = (m.after j).after k := by
  induction k with
  | zero => rfl
  | succ k ih =>
      show (m.after (j + k)).step.machine = ((m.after j).after k).step.machine
      rw [ih]

theorem after_of_stopped {m : Machine} {why : Ending} (h : m.status = .stopped why) (n : Nat) :
    m.after n = m := by
  refine after_induction (P := fun m' => m' = m) rfl ?_ n
  rintro _ rfl
  rw [step_of_stopped h]

end Machine

end MipsText
