/-
# `MipsText.Proofs.Debugger` — commands are steps and runs of the machine

A debugger has a loop of its own for letting the program run on, which shows lines
and looks at the machine after every step, while the machine's own run looks before
every step and gives up at a fault.  Both stop at the same place within the same
number of steps, so a script of commands does to the machine what its words say:
a step, a run, or nothing.  What is shown makes no difference.

A run that does not end within the bound on its steps has no result, on either side;
the bound is at least one, since a debugger that is told to go on takes one step even
when the program has stopped.
-/
import Mathlib.Data.List.Forall2
import MipsText.Debugger
import MipsText.Proofs.Machine.Run

namespace MipsText

/-! ## The words of a command -/

def commandWords (text : String) : List String :=
  (Text.words text.toList).map String.ofList

namespace Command

variable {text : String}

theorem ofText_eq_step :
    ofText text = .step ↔ commandWords text = ["step"] ∨ commandWords text = ["s"] := by
  rw [ofText, commandWords]
  generalize (Text.words text.toList).map String.ofList = words
  split <;> simp_all

theorem ofText_eq_proceed :
    ofText text = .proceed ↔ commandWords text = ["continue"] ∨ commandWords text = ["c"] := by
  rw [ofText, commandWords]
  generalize (Text.words text.toList).map String.ofList = words
  split <;> simp_all

theorem ofText_eq_trace {on : Bool} :
    ofText text = .trace on ↔ commandWords text = ["trace", if on then "on" else "off"] := by
  rw [ofText, commandWords]
  generalize (Text.words text.toList).map String.ofList = words
  cases on <;> split <;> simp_all

theorem ofText_eq_exit : ofText text = .exit ↔ commandWords text = ["exit"] := by
  rw [ofText, commandWords]
  generalize (Text.words text.toList).map String.ofList = words
  split <;> simp_all

end Command

/-- What the words of a command do to the machine. -/
def Machine.commanded (keep : Event → Bool) (fuel : Nat) (m : Machine) (text : String) :
    Option Machine :=
  if commandWords text = ["step"] ∨ commandWords text = ["s"] then some m.step.machine
  else if commandWords text = ["continue"] ∨ commandWords text = ["c"] then
    (m.run keep fuel).map (·.machine)
  else some m

/-- Whether a command asks for lines to be shown, or not to be. -/
def traceSetting? (text : String) : Option Bool :=
  if commandWords text = ["trace", "on"] then some true
  else if commandWords text = ["trace", "off"] then some false
  else none

namespace Debugger

/-! ## One step -/

section Step

variable (d : Debugger)

theorem step_machine : d.step.debugger.machine = d.machine.step.machine := rfl

theorem step_trace : d.step.debugger.trace = d.trace := rfl

/-- A machine that faulted does not run, so there is one thing to look at after a step. -/
theorem step_goOn : d.step.goOn = d.machine.step.machine.isRunning := by
  show (d.machine.step.fault.isNone && d.machine.step.machine.isRunning) = _
  cases hfault : d.machine.step.fault with
  | none => rfl
  | some fault =>
      obtain ⟨-, line, hline⟩ := (Machine.stepped d.machine).fault_iff.mp (by simp [hfault])
      exact (Machine.isRunning_eq_false hline).symm

end Step

/-! ## Letting the program run on -/

section Proceed

variable {keep keep' : Event → Bool} {seen : Array Remark} {seen' : Array Event}

theorem proceedFrom_succ (fuel : Nat) (d : Debugger) :
    proceedFrom keep seen (fuel + 1) d =
      if d.machine.step.machine.isRunning then
        proceedFrom keep (seen ++ d.step.remarks.filter (keeps keep)) fuel d.step.debugger
      else some { d.step with
        remarks := (seen ++ d.step.remarks.filter (keeps keep)).toList } := by
  rw [← step_goOn]
  rfl

/-- The loop of the debugger and the run of the machine end at the same machine, or
both need more steps. -/
theorem proceedFrom_machine (fuel : Nat) (d : Debugger) :
    (proceedFrom keep seen (fuel + 1) d).map (·.debugger.machine) =
      (d.machine.runFrom keep' seen' (fuel + 1)).map (·.machine) := by
  -- neither loop looks at what it has seen, which need not be the same
  induction fuel generalizing d seen seen' with
  | zero =>
      rw [proceedFrom_succ, Machine.runFrom_succ_machine]
      split
      · next running =>
          rw [Machine.runFrom_zero (Machine.isRunning_iff.mp running)]
          rfl
      · rfl
  | succ fuel ih =>
      rw [proceedFrom_succ, Machine.runFrom_succ_machine]
      split
      · exact ih d.step.debugger
      · rfl

theorem proceedFrom_trace {fuel : Nat} {d : Debugger} {reply : Reply}
    (h : proceedFrom keep seen fuel d = some reply) : reply.debugger.trace = d.trace := by
  induction fuel generalizing d seen with
  | zero => exact nomatch h
  | succ fuel ih =>
      rw [proceedFrom_succ] at h
      split at h
      · exact (ih h).trans d.step_trace
      · obtain rfl := Option.some.inj h
        rfl

theorem proceedFrom_goOn {fuel : Nat} {d : Debugger} {reply : Reply}
    (h : proceedFrom keep seen fuel d = some reply) :
    reply.goOn = reply.debugger.machine.isRunning := by
  induction fuel generalizing d seen with
  | zero => exact nomatch h
  | succ fuel ih =>
      rw [proceedFrom_succ] at h
      split at h
      · exact ih h
      · obtain rfl := Option.some.inj h
        exact d.step_goOn

end Proceed

/-! ## One command -/

section Obey

variable {keep keep' : Event → Bool} {fuel : Nat}

theorem obey_machine (keep : Event → Bool) (d : Debugger) (text : String) :
    (d.obey keep (fuel + 1) (.ofText text)).map (·.debugger.machine) =
      d.machine.commanded keep' (fuel + 1) text := by
  rw [Machine.commanded]
  simp only [← Command.ofText_eq_step, ← Command.ofText_eq_proceed]
  cases Command.ofText text with
  | step => rfl
  | proceed => exact proceedFrom_machine fuel d
  | _ => rfl

theorem obey_trace {d : Debugger} {text : String} {reply : Reply}
    (h : d.obey keep fuel (.ofText text) = some reply) :
    reply.debugger.trace = (traceSetting? text).getD d.trace := by
  have hon : Command.ofText text = .trace true ↔ commandWords text = ["trace", "on"] :=
    Command.ofText_eq_trace
  have hoff : Command.ofText text = .trace false ↔ commandWords text = ["trace", "off"] :=
    Command.ofText_eq_trace
  rw [traceSetting?]
  simp only [← hon, ← hoff]
  cases hcommand : Command.ofText text with
  | trace on =>
      rw [hcommand] at h
      obtain rfl := Option.some.inj h
      cases on <;> rfl
  | proceed =>
      rw [hcommand] at h
      exact proceedFrom_trace h
  | _ =>
      rw [hcommand] at h
      obtain rfl := Option.some.inj h
      rfl

theorem obey_goOn {d : Debugger} {text : String} {reply : Reply}
    (h : d.obey keep fuel (.ofText text) = some reply) :
    reply.goOn = true ↔
      commandWords text ≠ ["exit"] ∧ reply.debugger.machine.status = .running := by
  rw [← Machine.isRunning_iff, Ne, ← Command.ofText_eq_exit]
  cases hcommand : Command.ofText text with
  | exit =>
      rw [hcommand] at h
      obtain rfl := Option.some.inj h
      simp [respond]
  | step =>
      rw [hcommand] at h
      obtain rfl := Option.some.inj h
      simp [respond, step_goOn, step_machine]
  | proceed =>
      rw [hcommand] at h
      simp [proceedFrom_goOn h]
  | _ =>
      rw [hcommand] at h
      obtain rfl := Option.some.inj h
      simp [respond]

end Obey

/-! ## Scripts -/

/-- Obeys commands one after the other, also after a reply that ends the conversation. -/
def obeyAll (keep : Event → Bool) (fuel : Nat) (d : Debugger) : List String → Option (List Reply)
  | [] => some []
  | text :: texts => do
      let reply ← d.obey keep fuel (.ofText text)
      let replies ← reply.debugger.obeyAll keep fuel texts
      return reply :: replies

def following (d : Debugger) : List Reply → Debugger
  | [] => d
  | reply :: replies => reply.debugger.following replies

section Script

variable {keep keep' : Event → Bool} {fuel : Nat}

theorem obeyAll_cons_eq_some {d : Debugger} {text : String} {texts : List String}
    {replies : List Reply} :
    d.obeyAll keep fuel (text :: texts) = some replies ↔
      ∃ reply rest, d.obey keep fuel (.ofText text) = some reply ∧
        reply.debugger.obeyAll keep fuel texts = some rest ∧ replies = reply :: rest := by
  simp only [obeyAll, Option.bind_eq_bind, Option.bind_eq_some_iff, Option.pure_def,
    Option.some.injEq]
  constructor
  · rintro ⟨reply, hreply, rest, hrest, rfl⟩
    exact ⟨reply, rest, hreply, hrest, rfl⟩
  · rintro ⟨reply, rest, hreply, hrest, rfl⟩
    exact ⟨reply, hreply, rest, hrest, rfl⟩

theorem obeyAll_machine (d : Debugger) (texts : List String) :
    (d.obeyAll keep (fuel + 1) texts).map (fun replies => (d.following replies).machine) =
      texts.foldlM (Machine.commanded keep' (fuel + 1)) d.machine := by
  induction texts generalizing d with
  | nil => rfl
  | cons text texts ih =>
      rw [List.foldlM_cons, ← obey_machine keep d text, obeyAll]
      cases d.obey keep (fuel + 1) (.ofText text) with
      | none => rfl
      | some reply =>
          simp only [Option.map_some, Option.bind_eq_bind, Option.bind_some, ← ih reply.debugger]
          cases reply.debugger.obeyAll keep (fuel + 1) texts <;> rfl

/-- Lines are shown as the last command about it says. -/
theorem obeyAll_trace {d : Debugger} {texts : List String} {replies : List Reply}
    (h : d.obeyAll keep fuel texts = some replies) :
    (d.following replies).trace = (texts.filterMap traceSetting?).getLast?.getD d.trace := by
  induction texts generalizing d replies with
  | nil =>
      obtain rfl := Option.some.inj h
      rfl
  | cons text texts ih =>
      obtain ⟨reply, rest, hreply, hrest, rfl⟩ := obeyAll_cons_eq_some.mp h
      rw [following, ih hrest, obey_trace hreply, List.filterMap_cons]
      cases traceSetting? text with
      | none => rfl
      | some on => rw [List.getLast?_cons, Option.getD_some, Option.getD_some]

theorem obeyAll_goOn {d : Debugger} {texts : List String} {replies : List Reply}
    (h : d.obeyAll keep fuel texts = some replies) :
    List.Forall₂ (fun text reply => reply.goOn = true ↔
      commandWords text ≠ ["exit"] ∧ reply.debugger.machine.status = .running) texts replies := by
  induction texts generalizing d replies with
  | nil =>
      obtain rfl := Option.some.inj h
      exact .nil
  | cons text texts ih =>
      obtain ⟨reply, rest, hreply, hrest, rfl⟩ := obeyAll_cons_eq_some.mp h
      exact .cons (obey_goOn hreply) (ih hrest)

/-- A script does to the machine what its words say: one step for `step`, a run for
`continue`, and nothing for any other command, whether lines are shown or not.  Both
sides have a result when every run ends within the bound.  Lines are shown as the last
`trace` says, and each reply goes on when the words were not `exit` and the machine
runs after them. -/
theorem obeyAll_refines (keep keep' : Event → Bool) (fuel : Nat) (d : Debugger)
    (texts : List String) :
    (d.obeyAll keep (fuel + 1) texts).map (fun replies => (d.following replies).machine) =
      texts.foldlM (Machine.commanded keep' (fuel + 1)) d.machine ∧
    ∀ replies, d.obeyAll keep (fuel + 1) texts = some replies →
      (d.following replies).trace = (texts.filterMap traceSetting?).getLast?.getD d.trace ∧
      List.Forall₂ (fun text reply => reply.goOn = true ↔
        commandWords text ≠ ["exit"] ∧ reply.debugger.machine.status = .running)
        texts replies :=
  ⟨obeyAll_machine d texts, fun _ h => ⟨obeyAll_trace h, obeyAll_goOn h⟩⟩

/-- A run that faults, then a step of the stopped program, and a return to quiet. -/
theorem obeyAll_refines_fault :
    let p : Program := { lines := #["li $t0, 1", "div $t0, $t1"] }
    let d : Debugger := { machine := .start p .strict (Stream.ofString "") none }
    let texts := ["trace on", " c\n", "s", "trace off", "exit"]
    ∃ replies, d.obeyAll (fun _ => false) 2 texts = some replies ∧
      some (d.following replies).machine =
        texts.foldlM (Machine.commanded (fun _ => true) 2) d.machine ∧
      (d.following replies).machine.status = .stopped (.faulted 1) ∧
      (d.following replies).trace = false := by
  intro p d texts
  obtain ⟨hmachine, hreplies⟩ := obeyAll_refines (fun _ => false) (fun _ => true) 1 d texts
  have hends : (texts.foldlM (Machine.commanded (fun _ => true) 2) d.machine).map (·.status) =
      some (.stopped (.faulted 1)) := by decide +kernel
  cases hscript : d.obeyAll (fun _ => false) 2 texts with
  | none =>
      rw [← hmachine, hscript] at hends
      exact nomatch hends
  | some replies =>
      rw [hscript, Option.map_some] at hmachine
      rw [← hmachine] at hends
      have htrace := (hreplies replies hscript).1
      exact ⟨replies, rfl, hmachine, Option.some.inj hends, htrace.trans (by decide +kernel)⟩

end Script

end Debugger

end MipsText
