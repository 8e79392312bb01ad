/-
# `MipsText.Proofs.Machine.Unresolved` — branches to labels that stand for no line

A branch whose label stands for no line cannot be carried out, and halts the machine with the
label as the reason.  A branch on two values always does, since it asks for its label before it
reads a register.

A branch on one value reads its register first.  So there is one way for it not to halt: the
register holds a reference where an integer is required, and the fault that this is hides the
label (`Intent.Shadowed`).  It is the only one (`step_unresolved`), and it does happen
(`step_unresolved_shadowed`).
-/
import MipsText.Proofs.Machine.Footprint

namespace MipsText

open Checked

namespace Mnemonic

theorem not_mem_zeroBranches {m : Mnemonic} (h : m ∈ pairBranches) : m ∉ zeroBranches := by
  cases m <;> simp_all [pairBranches, zeroBranches]

end Mnemonic

theorem RegisterFile.integer_eq_error {policy : ReferencePolicy} {f : RegisterFile} {r : Register}
    {fault : Fault} : f.integer policy r = .error fault ↔
      fault = .referenceNotInteger r ∧ policy = .strict ∧ ∃ label, f.get r = .ref label := by
  simp only [RegisterFile.integer]
  cases f.get r with
  | int value => simp
  | ref label =>
      cases policy with
      | strict => simpa using eq_comm
      | zero => simp

namespace Intent

/-- `Unresolved c m label tokens`: the instruction is a branch to `label`, which stands for no
line, and its other operands are good: a register, and for a branch on two values another one or
a number. -/
inductive Unresolved (c : Context) (m : Mnemonic) (label : String) : List String → Prop
  | pair {first second : String} {r : Register} (hm : m ∈ Mnemonic.pairBranches)
      (hr : Register.ofName? first = some r)
      (hsecond : (∃ q, Register.ofName? second = some q) ∨ ∃ b, Token.immediate? second = some b)
      (hlabel : Token.namesRegister label = false) (hnone : c.symbols.line? label = none) :
      Unresolved c m label [first, second, label]
  | zero {first : String} {r : Register} (hm : m ∈ Mnemonic.zeroBranches)
      (hr : Register.ofName? first = some r) (hlabel : Token.namesRegister label = false)
      (hnone : c.symbols.line? label = none) :
      Unresolved c m label [first, label]

/-- `Shadowed c m tokens r`: the instruction is a branch on the value of the register `r`, which
holds a reference where an integer is required. -/
structure Shadowed (c : Context) (m : Mnemonic) (tokens : List String) (r : Register) : Prop where
  branch : m ∈ Mnemonic.zeroBranches
  named : ∃ first, tokens.head? = some first ∧ Register.ofName? first = some r
  strict : c.policy = .strict
  reference : ∃ target, c.registers.get r = .ref target

variable {c : Context} {m : Mnemonic} {label : String} {tokens : List String}

theorem lineOf_eq_error (h : c.symbols.line? label = none) :
    lineOf c label = .error (.unknownLabel label) := by
  rw [lineOf, h]

/-- A branch on two values asks for its label before it reads a register. -/
theorem ofInstruction_pair_unresolved {first second : String} {r : Register}
    (hm : m ∈ Mnemonic.pairBranches) (hr : Register.ofName? first = some r)
    (hlabel : Token.namesRegister label = false) (hnone : c.symbols.line? label = none) :
    ofInstruction c m [first, second, label] = .error (.halt (.unknownLabel label)) := by
  obtain ⟨test, htest⟩ := Mnemonic.exists_pairTest hm
  rw [ofInstruction_of_register (format_of_pairTest? htest), ofRegisterFormat, ofTriple,
    Token.register_eq_ok.mpr hr, liftDefect_ok, ok_bind, if_neg (by simp [hlabel]),
    ofTripleImmediate, htest]
  dsimp only
  rw [lineOf_eq_error hnone]
  rfl

/-- A branch on one value reads its register before it asks for its label. -/
theorem ofInstruction_zero_unresolved {first : String} {r : Register}
    (hm : m ∈ Mnemonic.zeroBranches) (hr : Register.ofName? first = some r)
    (hnone : c.symbols.line? label = none) :
    ofInstruction c m [first, label] = (do
      let _ ← c.integer r
      throw (.halt (.unknownLabel label))) := by
  obtain ⟨test, htest⟩ := Mnemonic.exists_zeroTest hm
  rw [ofInstruction_of_immediate (format_of_zeroTest? htest), ofImmediateFormat, htest]
  dsimp only
  rw [ofZeroBranch, Token.register_eq_ok.mpr hr, liftDefect_ok, ok_bind, lineOf_eq_error hnone]
  rfl

/-- The label is what an unresolved branch complains about, unless a reference hides it. -/
theorem Unresolved.ofInstruction_eq (h : Unresolved c m label tokens) :
    (∀ r, ¬ Shadowed c m tokens r) ∧
        ofInstruction c m tokens = .error (.halt (.unknownLabel label)) ∨
      ∃ r, Shadowed c m tokens r ∧
        ofInstruction c m tokens = .error (.fault (.referenceNotInteger r)) := by
  cases h with
  | pair hm hr _ hlabel hnone =>
      refine Or.inl ⟨?_, ofInstruction_pair_unresolved hm hr hlabel hnone⟩
      intro r hshadowed
      exact Mnemonic.not_mem_zeroBranches hm hshadowed.branch
  | @zero first r hm hr _ hnone =>
      have hresolved := ofInstruction_zero_unresolved hm hr hnone
      cases hread : c.integer r with
      | ok a =>
          rw [hread] at hresolved
          refine Or.inl ⟨?_, hresolved⟩
          rintro q ⟨-, ⟨_, hhead, hq⟩, hstrict, href⟩
          obtain rfl := Option.some.inj hhead
          obtain rfl := Option.some.inj (hr.symm.trans hq)
          have herror := RegisterFile.integer_eq_error.mpr ⟨rfl, hstrict, href⟩
          exact nomatch hread.symm.trans herror
      | error fault =>
          rw [hread] at hresolved
          obtain ⟨rfl, hstrict, href⟩ := RegisterFile.integer_eq_error.mp hread
          exact Or.inr ⟨r, ⟨hm, ⟨first, rfl, hr⟩, hstrict, href⟩, hresolved⟩

theorem Shadowed.unique {r q : Register} (hr : Shadowed c m tokens r)
    (hq : Shadowed c m tokens q) : r = q := by
  obtain ⟨first, hfirst, hr⟩ := hr.named
  obtain ⟨_, hhead, hq⟩ := hq.named
  obtain rfl := Option.some.inj (hfirst.symm.trans hhead)
  exact Option.some.inj (hr.symm.trans hq)

end Intent

namespace Machine

variable {m : Machine}

theorem step_of_unresolved {mnemonic : Mnemonic} {tokens : List String} {stop : Stop}
    (hline : m.Executes (.instruction mnemonic tokens))
    (h : Intent.ofInstruction m.toContext mnemonic tokens = .error stop) :
    m.step.machine = m.settle (.error (stop, m.toConsole)) ∧
      m.step.fault = faultOf (.error (stop, m.toConsole)) := by
  obtain ⟨line, hfound, hread⟩ := statement?_eq_some.mp hline.2
  refine step_of_outcome hline.1 hfound ?_
  rw [Intent.ofLine_of_instruction hread, h]
  rfl

/-- An unresolved branch halts the machine with its label as the reason, whatever its registers
hold.  The one exception is a branch on one value whose register holds a reference where an
integer is required: this faults, and the label is not looked for. -/
theorem step_unresolved {mnemonic : Mnemonic} {label : String} {tokens : List String}
    (hline : m.Executes (.instruction mnemonic tokens))
    (hbranch : Intent.Unresolved m.toContext mnemonic label tokens) :
    ((∀ r, ¬ Intent.Shadowed m.toContext mnemonic tokens r) →
      m.step.machine = m.stop (.halted m.pc (.unknownLabel label)) ∧ m.step.fault = none) ∧
    ∀ r, Intent.Shadowed m.toContext mnemonic tokens r →
      m.step.machine = m.stop (.faulted m.pc) ∧
        m.step.fault = some (.referenceNotInteger r) := by
  rcases hbranch.ofInstruction_eq with ⟨hclear, hresolved⟩ | ⟨r, hshadowed, hresolved⟩
  · refine ⟨fun _ => step_of_unresolved hline hresolved, ?_⟩
    intro r hshadowed
    exact absurd hshadowed (hclear r)
  · constructor
    · intro hclear
      exact absurd hshadowed (hclear r)
    · intro q hq
      obtain rfl := hshadowed.unique hq
      exact step_of_unresolved hline hresolved

/-- A branch on two references, where integers are required and the label is unknown. -/
theorem step_unresolved_references :
    let source := Stream.ofString ".data\narr: .word 7\n.text\nla $t0, arr\nBEQ $t0, $t0, nowhere\n"
    let m := (start (Assembly.ofLines source.lines).program .strict (Stream.ofString "") none).after 1
    m.registers.get 8 = .ref "arr" ∧
      m.step.machine = m.stop (.halted 4 (.unknownLabel "nowhere")) ∧ m.step.fault = none := by
  intro source m
  obtain ⟨hcell, hexecutes, hpc, hnone⟩ : m.registers.get 8 = .ref "arr" ∧
      m.Executes (.instruction .beq ["$t0", "$t0", "nowhere"]) ∧ m.pc = 4 ∧
      m.symbols.line? "nowhere" = none := by
    decide +kernel
  -- from here on the run is not to be evaluated again
  clear_value m
  have hname : Register.ofName? "$t0" = some 8 := by decide +kernel
  obtain ⟨hhalts, -⟩ := step_unresolved hexecutes
    (.pair (by decide) hname (Or.inl ⟨8, hname⟩) (by decide) hnone)
  rw [← hpc]
  refine ⟨hcell, hhalts ?_⟩
  intro r hshadowed
  exact absurd hshadowed.branch (by decide)

/-- A branch on a reference, where an integer is required and the label is unknown. -/
theorem step_unresolved_shadowed :
    let source := Stream.ofString ".data\narr: .word 7\n.text\nla $t0, arr\nbeqz $t0, nowhere\n"
    let m := (start (Assembly.ofLines source.lines).program .strict (Stream.ofString "") none).after 1
    m.Executes (.instruction .beqz ["$t0", "nowhere"]) ∧
      Intent.Unresolved m.toContext .beqz "nowhere" ["$t0", "nowhere"] ∧
      m.step.machine.status = .stopped (.faulted 4) ∧
      m.step.fault = some (.referenceNotInteger 8) := by
  intro source m
  obtain ⟨hexecutes, hnone, hstatus, hfault⟩ :
      m.Executes (.instruction .beqz ["$t0", "nowhere"]) ∧ m.symbols.line? "nowhere" = none ∧
        m.step.machine.status = .stopped (.faulted 4) ∧
        m.step.fault = some (.referenceNotInteger 8) := by
    decide +kernel
  clear_value m
  have hname : Register.ofName? "$t0" = some 8 := by decide +kernel
  exact ⟨hexecutes, .zero (by decide) hname (by decide) hnone, hstatus, hfault⟩

end Machine

end MipsText
