/-
# `MipsText.Proofs.Machine.Locality` — the registers that a line can read

What comes of a line depends on few registers: those that its operands name, `hi` and `lo`
where a number is moved from there, `$ra` for a return, and `$v0`, `$a0` and `$a1` for a
service.  `Statement.Reads` lists them, as `Statement.Writes` lists the registers that a
line may write, and `outcome_congr` says that no other matters: with any other cells in
them, the line comes to the same change or stops for the same reason.

A line's checks are made in a fixed order, and a check that reads a register is reached only
behind the one that found it; so contexts that hold the same in these registers match for the
operands of the line.
-/
import MipsText.Proofs.Instruction.Comparison
import MipsText.Proofs.Machine.Destination
import MipsText.Proofs.Machine.Footprint

namespace MipsText

open Checked

/-! ## What may be read -/

/-- The registers that a line may read. -/
inductive Statement.Reads : Statement → Register → Prop
  | operand {m : Mnemonic} {tokens : List String} {token : String} {r : Register} :
      token ∈ tokens → Token.Names token r → Reads (.instruction m tokens) r
  | source {m : Mnemonic} {tokens : List String} {r : Register} :
      r ∈ m.action.sources → Reads (.instruction m tokens) r
  | link {tokens : List String} : Reads (.instruction .jr tokens) .ra
  | service {r : Register} : r = .v0 ∨ r = .a0 ∨ r = .a1 → Reads .syscall r

def Context.withRegisters (c : Context) (f : RegisterFile) : Context :=
  { c with registers := f }

def Machine.withRegisters (m : Machine) (f : RegisterFile) : Machine :=
  { m with registers := f }

theorem Context.integer_congr {c : Context} {f : RegisterFile} {r : Register}
    (h : f.get r = c.registers.get r) : (c.withRegisters f).integer r = c.integer r := by
  simp only [integer, RegisterFile.integer, withRegisters, h]

theorem Intent.ofInstruction_congr {c : Context} {f : RegisterFile} {m : Mnemonic}
    {tokens : List String}
    (h : ∀ token ∈ tokens, ∀ r, Token.Names token r → f.get r = c.registers.get r) :
    ofInstruction (c.withRegisters f) m tokens = ofInstruction c m tokens := by
  have hmatches : Context.Matches (fun _ => False) id tokens c (c.withRegisters f) := by
    refine ⟨fun _ => Option.map_id_apply.symm, fun token htoken r hr => ?_, h, fun _ => id⟩
    rw [Context.integer_congr (h token htoken r hr)]
    exact .refl fun _ _ => id
  have hmapped := (ofInstruction_relaxes hmatches m).mapped
  rw [moved_id] at hmapped
  exact hmapped.eq

/-! ## Actions -/

section Named

variable {c : Context} {m : Mnemonic} {tokens : List String} {r : Register}

theorem Intent.Resolves.named_rt {mnemonic : Mnemonic} {o : Operands Register}
    (h : Resolves c m tokens (.act mnemonic o)) (hr : o.rt = some r) :
    ∃ token ∈ tokens, Register.ofName? token = some r := by
  generalize hact : Intent.act mnemonic o = intent at h
  cases h with
  | two _ _ _ hsecond =>
      cases hact
      exact ⟨_, by simp, hsecond.trans hr⟩
  | three _ _ _ _ hthird =>
      cases hact
      exact ⟨_, by simp, hthird.trans hr⟩
  | pairBranch => exact absurd hact.symm (conditional_ne (by simp) (by simp))
  | zeroBranch => exact absurd hact.symm (conditional_ne (by simp) (by simp))
  | _ => cases hact <;> exact nomatch hr

theorem Intent.Resolves.named_store {label : String} {offset : Word}
    (h : Resolves c m tokens (.store r label offset)) :
    ∃ token ∈ tokens, Register.ofName? token = some r := by
  generalize hstore : Intent.store r label offset = intent at h
  cases h with
  | store _ hfirst =>
      cases hstore
      exact ⟨_, List.mem_cons_self, hfirst⟩
  | pairBranch => exact absurd hstore.symm (conditional_ne (by simp) (by simp))
  | zeroBranch => exact absurd hstore.symm (conditional_ne (by simp) (by simp))
  | _ => exact nomatch hstore

end Named

/-- An action comes to the same if the registers among its operands hold the same, and those
that it reads in any case. -/
theorem Mnemonic.Action.evaluate_congr {c : Context} {f : RegisterFile} {o : Operands Register}
    {action : Mnemonic.Action}
    (h : ∀ r, o.rd = some r ∨ o.rs = some r ∨ o.rt = some r ∨ r ∈ action.sources →
      f.get r = c.registers.get r) :
    action.evaluate (c.withRegisters f) o = action.evaluate c o := by
  refine Checked.Mapped.eq (Relaxes.mapped (evaluate_relaxes (fun _ => id) id (fun r hr => ?_) ?_))
  · rw [c.integer_congr (h r hr)]
    exact .refl fun _ _ => id
  · exact fun r hr => h r (Or.inr (Or.inr (Or.inl hr)))

/-! ## Services and lines -/

namespace Machine

variable {m : Machine} {f : RegisterFile}

theorem callService_withRegisters
    (h : ∀ r, r = .v0 ∨ r = .a0 ∨ r = .a1 → f.get r = m.registers.get r) :
    (m.withRegisters f).callService = m.callService := by
  have ha0 : (m.withRegisters f).registers.get .a0 = m.registers.get .a0 :=
    h .a0 (Or.inr (Or.inl rfl))
  have hlabel : (m.withRegisters f).registers.reference .a0 = m.registers.reference .a0 := by
    rw [RegisterFile.reference, RegisterFile.reference, ha0]
  exact callService_congr (Context.integer_congr (h .v0 (Or.inl rfl)))
    (congrArg m.symbols.describe ha0) (Context.integer_congr ha0) hlabel
    (Context.integer_congr (h .a1 (Or.inr (Or.inr rfl)))) rfl

theorem evaluate_congr {mnemonic : Mnemonic} {tokens : List String} {intent : Intent}
    (hresolves : Intent.Resolves m.toContext mnemonic tokens intent)
    (h : ∀ r, (Statement.instruction mnemonic tokens).Reads r → f.get r = m.registers.get r) :
    (m.withRegisters f).evaluate intent = m.evaluate intent := by
  have named {r : Register} (hr : ∃ token ∈ tokens, Register.ofName? token = some r) :
      f.get r = m.registers.get r := by
    obtain ⟨token, htoken, hname⟩ := hr
    exact h r (.operand htoken (.register hname))
  rw [evaluate_eq_local _ hresolves.ne_service, evaluate_eq_local _ hresolves.ne_service]
  refine congrArg (Except.mapError (·, m.toConsole)) ?_
  cases intent with
  | act mnemonic' o =>
      obtain rfl := hresolves.act_mnemonic
      refine Mnemonic.Action.evaluate_congr (c := m.toContext) fun r hr => ?_
      rcases hr with hr | hr | hr | hr
      · exact named (hresolves.named (Or.inl hr))
      · exact named (hresolves.named (Or.inr hr))
      · exact named (hresolves.named_rt hr)
      · exact h r (.source hr)
  | ret =>
      obtain ⟨rfl, -⟩ := hresolves.eq_ret.mp rfl
      have hra : (m.toContext.withRegisters f).integer .ra = m.integer .ra :=
        Context.integer_congr (h .ra .link)
      show (evaluateReturn (m.toContext.withRegisters f) : Except Stop Change) =
        evaluateReturn m.toContext
      rw [evaluateReturn, evaluateReturn, hra]
  | store r label offset =>
      have hr : (m.toContext.withRegisters f).integer r = m.integer r :=
        Context.integer_congr (named hresolves.named_store)
      show (evaluateStore (m.toContext.withRegisters f) r label offset : Except Stop Change) =
        evaluateStore m.toContext r label offset
      rw [evaluateStore, evaluateStore, hr]
      rfl
  | _ => rfl

/-- A line comes to the same if the registers that it may read hold the same. -/
theorem outcome_congr {line : String} (h : ∀ statement r, Statement.ofLine line = .ok statement →
      statement.Reads r → f.get r = m.registers.get r) :
    (m.withRegisters f).outcome (Intent.ofLine (m.withRegisters f).toContext line) =
      m.outcome (Intent.ofLine m.toContext line) := by
  cases hstatement : Statement.ofLine line with
  | error reason =>
      rw [Intent.ofLine, Intent.ofLine, hstatement]
      rfl
  | ok statement =>
      cases statement with
      | blank =>
          rw [Intent.ofLine, Intent.ofLine, hstatement]
          rfl
      | syscall =>
          rw [Intent.ofLine, Intent.ofLine, hstatement]
          refine congrArg (Except.mapError _) (callService_withRegisters fun r hr => ?_)
          exact h _ r hstatement (.service hr)
      | instruction mnemonic tokens =>
          have hresolved : Intent.ofInstruction (m.toContext.withRegisters f) mnemonic tokens =
              Intent.ofInstruction m.toContext mnemonic tokens :=
            Intent.ofInstruction_congr fun token htoken r hr =>
              h _ r hstatement (.operand htoken hr)
          rw [Intent.ofLine_of_instruction hstatement, Intent.ofLine_of_instruction hstatement]
          show outcome _ (Intent.ofInstruction (m.toContext.withRegisters f) mnemonic tokens) = _
          rw [hresolved]
          cases hintent : Intent.ofInstruction m.toContext mnemonic tokens with
          | error stop => rfl
          | ok intent =>
              exact evaluate_congr (Intent.resolves hintent) fun r hr => h _ r hstatement hr

end Machine

end MipsText
