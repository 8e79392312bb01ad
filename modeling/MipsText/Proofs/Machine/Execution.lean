/-
# `MipsText.Proofs.Machine.Execution` — executing in place comes to one change

Lines are executed in place, and what a line has done by the time it stops stays done.  Here
this is compared with `Machine.evaluate`, where all checks come first and a change is made as
a whole or not at all.  `ComesTo m run result` says that the two agree on `m`: if `result` is
a change then `run` gets to its end and the machine goes on as after the change, and if it is
a reason to stop then `run` stops for the same reason, with nothing changed but the console.

The rules say what may come in front of what.  A check may stand in front of anything
(`ComesTo.check`), since the machine is still as it was.  A write has no rule of this kind: it
has to come last, or to be followed by other writes only.  So every instruction, every access
to memory and every service is gone through once, in the order of what it does, and each of
its failing paths turns up as the place where a check or the console fails.
-/
import MipsText.Proofs.Checked
import MipsText.Proofs.Machine.Change

namespace MipsText

open Checked Executing

/-! ## Agreement -/

theorem Executing.check_bind {α : Type} (f : Machine → Except Stop α) (k : α → Executing Unit)
    (x : Execution) : (check f >>= k).run x =
      match f x.machine with
      | .ok a => (k a).run x
      | .error stop => .error stop x := by
  show EStateM.bind (check f) k x = _
  rw [EStateM.bind, check]
  cases f x.machine <;> rfl

theorem Executing.check_fault_bind {α : Type} (f : Machine → Except Fault α)
    (k : α → Executing Unit) (x : Execution) : (check (fun m => f m) >>= k).run x =
      match f x.machine with
      | .ok a => (k a).run x
      | .error fault => .error (.fault fault) x := by
  rw [check_bind]
  cases f x.machine <;> rfl

theorem Execution.proceed_of_running {x : Execution} (h : x.machine.status = .running) :
    x.proceed = x.machine.goTo x.next := by
  rw [proceed, if_pos (by rw [Machine.isRunning, h]; rfl)]

namespace Machine

/-- `m.Ends result final`: an execution that began on `m` has ended as `result` says. -/
def Ends (m : Machine) :
    Except (Stop × Console) Change → EStateM.Result Stop Execution Unit → Prop
  | .ok change, .ok _ x => x.proceed = m.apply change
  | .error (stop, rest), .error stop' x => stop' = stop ∧ x.machine = { m with toConsole := rest }
  | _, _ => False

/-- `m.ComesTo run result`: executed on `m`, with whatever in the log, `run` ends as `result`
says. -/
def ComesTo (m : Machine) (run : Executing Unit) (result : Except (Stop × Console) Change) :
    Prop :=
  ∀ events, m.Ends result (run.run { machine := m, next := m.pc + 1, events := events })

/-- A reason to stop that was found by looking at the machine. -/
def stopping (m : Machine) (result : Except Stop Change) : Except (Stop × Console) Change :=
  result.mapError (·, m.toConsole)

/-- A fault of a service. -/
def faulting (result : Except (Fault × Console) Change) : Except (Stop × Console) Change :=
  result.mapError fun (fault, rest) => (.fault fault, rest)

section Rules

variable {m : Machine} {α : Type} {k : α → Executing Unit}

theorem ComesTo.check {f : Machine → Except Stop α} {g : α → Except Stop Change}
    (h : ∀ a, m.ComesTo (k a) (m.stopping (g a))) :
    m.ComesTo (Executing.check f >>= k) (m.stopping (f m >>= g)) := by
  intro events
  rw [check_bind]
  dsimp only
  cases f m with
  | ok a => exact h a events
  | error stop => exact ⟨rfl, rfl⟩

theorem ComesTo.inquire {f : Machine → Except Fault α} {g : α → Except (Fault × Console) Change}
    (h : ∀ a, m.ComesTo (k a) (faulting (g a))) :
    m.ComesTo (Executing.check (fun m => f m) >>= k)
      (faulting ((f m).mapError (·, m.toConsole) >>= g)) := by
  intro events
  rw [check_fault_bind]
  dsimp only
  cases f m with
  | ok a => exact h a events
  | error fault => exact ⟨rfl, rfl⟩

theorem ComesTo.note {event : Machine → Event} {k : Unit → Executing Unit}
    {result : Except (Stop × Console) Change} (h : m.ComesTo (k ()) result) :
    m.ComesTo (Executing.note event >>= k) result :=
  fun _ => h _

theorem ComesTo.cell {r : Register} {k : Cell → Executing Unit}
    {result : Except (Stop × Console) Change} (h : m.ComesTo (k (m.registers.get r)) result) :
    m.ComesTo (Executing.cell r >>= k) result :=
  fun events => h events

end Rules

section Programs

variable {m : Machine} (hm : m.status = .running)

include hm

/-! ## Instructions -/

theorem comesTo_nothing : m.ComesTo (pure ()) (.ok .nothing) :=
  fun _ => Execution.proceed_of_running hm

theorem comesTo_setCell (r : Register) (c : Cell) : m.ComesTo (setCell r c) (.ok (.set r c)) :=
  fun _ => Execution.proceed_of_running hm

/-- Two writes in a row, and nothing behind them that could fail. -/
theorem comesTo_setResults (hi lo : Word) :
    m.ComesTo (setInteger .hi hi >>= fun _ => setInteger .lo lo) (.ok (.setResults hi lo)) :=
  fun _ => Execution.proceed_of_running hm

theorem comesTo_action (o : Operands Register) (action : Mnemonic.Action) :
    m.ComesTo (action.execute o) (m.stopping (action.evaluate m.toContext o)) := by
  cases action with
  | idle => exact comesTo_nothing hm
  | copy =>
      exact .check fun source => .cell (.check fun target => comesTo_setCell hm target _)
  | combine f =>
      exact .check fun rs => .check fun a => .check fun rt => .check fun b => .check fun rd =>
        comesTo_setCell hm rd _
  | combineImmediate f =>
      exact .check fun rs => .check fun a => .check fun rd => .check fun value =>
        comesTo_setCell hm rd _
  | copyFrom r => exact .check fun value => .check fun rd => comesTo_setCell hm rd _
  | copyTo r => exact .check fun rd => .check fun value => comesTo_setCell hm r _
  | multiply =>
      exact .check fun rs => .check fun a => .check fun rt => .check fun b =>
        comesTo_setResults hm 0 _
  | divide f =>
      refine .check fun rs => .check fun a => .check fun rt => .check fun b => ?_
      -- the divisor is looked at before `hi` is written
      by_cases hb : b = 0
      · rw [if_pos hb, if_pos hb]
        exact fun _ => ⟨rfl, rfl⟩
      · rw [if_neg hb, if_neg hb]
        exact comesTo_setResults hm _ _
  | constant f => exact .check fun rd => .check fun value => comesTo_setCell hm rd _
  | reference => exact .check fun label => .check fun rd => comesTo_setCell hm rd _

/-! ## Memory and control -/

theorem comesTo_jumpTo (target : Nat) : m.ComesTo (jumpTo target) (.ok (.jump target)) :=
  fun _ => Execution.proceed_of_running hm

theorem comesTo_call (target : Nat) :
    m.ComesTo (Intent.executeCall target) (.ok (.call target)) :=
  fun _ => Execution.proceed_of_running hm

theorem comesTo_return :
    m.ComesTo Intent.executeReturn (m.stopping (evaluateReturn m.toContext)) := by
  rw [evaluateReturn, liftFault_bind]
  refine .check fun address => ?_
  rw [liftFault_bind]
  exact .check fun target => comesTo_jumpTo hm target

theorem comesTo_load (r : Register) (label : String) (offset : Word) :
    m.ComesTo (Intent.executeLoad r label offset)
      (m.stopping (evaluateLoad m.toContext r label offset)) := by
  rw [evaluateLoad, liftFault_bind]
  exact .check fun value => .note (comesTo_setCell hm r _)

theorem comesTo_store (r : Register) (label : String) (offset : Word) :
    m.ComesTo (Intent.executeStore r label offset)
      (m.stopping (evaluateStore m.toContext r label offset)) := by
  rw [evaluateStore, liftFault_bind]
  refine .check fun value => .note ?_
  rw [liftFault_bind]
  exact .check fun i => fun _ => Execution.proceed_of_running hm

/-! ## Services -/

/-- A text that is written is flushed.  What a failure leaves of the output is in the console
that it comes with. -/
theorem comesTo_print (text : String) : m.ComesTo (print text) (faulting (m.emit text)) := by
  intro events
  show m.Ends _ (EStateM.bind (onOutput fun o => o.write text) (fun _ => onOutput fun o => o.flush)
    { machine := m, next := m.pc + 1, events := events })
  rw [EStateM.bind, onOutput, emit, Console.Output.print]
  dsimp only
  rcases hwrite : m.output.write text with ⟨failure | _, written⟩
  · exact ⟨rfl, rfl⟩
  · dsimp only
    rw [onOutput]
    dsimp only
    rcases hflush : written.flush with ⟨failure | _, output⟩
    · exact ⟨rfl, rfl⟩
    · obtain rfl : output = m.output.append text := by
        rw [← Console.Output.write_ok hwrite, ← written.flush_eq, hflush]
      exact Execution.proceed_of_running hm

theorem comesTo_printCell : m.ComesTo Service.printCell (faulting m.printCell) :=
  .inquire fun text => comesTo_print hm text

theorem comesTo_printCode : m.ComesTo Service.printCode (faulting m.printChar) := by
  refine .inquire fun code => ?_
  cases character? code with
  | some c => exact comesTo_print hm c.toString
  | none => exact fun _ => ⟨rfl, rfl⟩

theorem comesTo_takeInteger : m.ComesTo Service.takeInteger (faulting m.readInteger) := by
  intro events
  show m.Ends _ (EStateM.bind (takeInput Console.Input.takeInteger) _ _)
  rw [EStateM.bind, takeInput, readInteger]
  dsimp only
  rcases m.input.takeInteger with ⟨fault | value, rest⟩
  · exact ⟨rfl, rfl⟩
  · exact Execution.proceed_of_running hm

theorem comesTo_takeText : m.ComesTo Service.takeText (faulting m.readText) := by
  intro events
  rw [Service.takeText, check_fault_bind, readText, readTarget]
  dsimp only
  cases m.registers.reference .a0 with
  | error fault => exact ⟨rfl, rfl⟩
  | ok label =>
      dsimp only
      rw [integer, check_fault_bind, ok_bind]
      dsimp only
      cases m.integer .a1 with
      | error fault => exact ⟨rfl, rfl⟩
      | ok limit =>
          show m.Ends _ (EStateM.bind (takeInput Console.Input.takeLine) _ _)
          rw [EStateM.bind, takeInput]
          dsimp only [ok_bind]
          rcases m.input.takeLine with ⟨fault | line, rest⟩
          · exact ⟨rfl, rfl⟩
          · exact Execution.proceed_of_running hm

theorem comesTo_service (service : Service) :
    m.ComesTo service.execute (faulting (m.serve service)) := by
  cases service with
  | printInt => exact comesTo_printCell hm
  | printString => exact comesTo_printCell hm
  | readInt => exact comesTo_takeInteger hm
  | readString => exact comesTo_takeText hm
  | exit => exact fun _ => rfl
  | printChar => exact comesTo_printCode hm

theorem comesTo_callService : m.ComesTo Service.call (faulting m.callService) := by
  intro events
  rw [Service.call, integer, check_fault_bind, callService]
  dsimp only
  cases m.integer .v0 with
  | error fault => exact ⟨rfl, rfl⟩
  | ok code =>
      dsimp only
      cases Service.ofCode? code with
      | some service =>
          exact ComesTo.note (k := fun _ => service.execute) (comesTo_service hm service) events
      | none => exact Execution.proceed_of_running hm

/-! ## Lines -/

theorem comesTo_execute (intent : Intent) : m.ComesTo intent.execute (m.evaluate intent) := by
  cases intent with
  | nothing => exact comesTo_nothing hm
  | act mnemonic operands => exact comesTo_action hm operands mnemonic.action
  | jump target => exact comesTo_jumpTo hm target
  | call target => exact comesTo_call hm target
  | ret => exact comesTo_return hm
  | load r label offset => exact comesTo_load hm r label offset
  | store r label offset => exact comesTo_store hm r label offset
  | service => exact comesTo_callService hm

/-- A line comes to what is worked out for it. -/
theorem comesTo_line (line : String) :
    m.ComesTo (Executing.line line) (m.outcome (Intent.ofLine m.toContext line)) := by
  refine .note fun events => ?_
  rw [check_bind]
  dsimp only
  cases Intent.ofLine m.toContext line with
  | ok intent => exact comesTo_execute hm intent events
  | error stop => exact ⟨rfl, rfl⟩

end Programs

theorem Ends.conclude {m : Machine} {result : Except (Stop × Console) Change}
    {final : EStateM.Result Stop Execution Unit} (h : m.Ends result final) :
    (Execution.conclude m.pc final).machine = m.settle result ∧
      (Execution.conclude m.pc final).fault = faultOf result := by
  cases result with
  | ok change =>
      cases final with
      | ok _ x => exact ⟨h, rfl⟩
      | error stop x => exact h.elim
  | error failure =>
      obtain ⟨why, rest⟩ := failure
      cases final with
      | ok _ x => exact h.elim
      | error why' x =>
          obtain ⟨rfl, hx⟩ := h
          cases why' with
          | halt reason => exact ⟨congrArg (stop · _) hx, rfl⟩
          | fault fault => exact ⟨congrArg (stop · _) hx, rfl⟩

/-- So the machine after a line, and the fault that it ends in, are those of the change or the
reason to stop that the line comes to. -/
theorem perform_eq {m : Machine} (hm : m.status = .running) (line : String) :
    (m.perform line).machine = m.settle (m.outcome (Intent.ofLine m.toContext line)) ∧
      (m.perform line).fault = faultOf (m.outcome (Intent.ofLine m.toContext line)) :=
  (comesTo_line hm line []).conclude

end Machine

end MipsText
