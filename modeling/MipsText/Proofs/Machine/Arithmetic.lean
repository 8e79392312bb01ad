/-
# `MipsText.Proofs.Machine.Arithmetic` — instructions compute what their names say

`Operation.Computes` says what the result of an operation is, in terms of the numbers that
words stand for: sums and differences of the signed readings, cut down to 32 bits; each bit
of a logical operation from the two bits in its place; comparisons of the signed or of the
unsigned readings; and shifts as products and quotients by a power of two.  It does not
mention the operations of words, and it leaves no choice of the result (`computes_iff`).

An instruction with a destination, a source and a second source or a number puts this
result into its destination, whatever was there before and whichever registers are the same
(`step_arithmetic`).
-/
import Mathlib.Algebra.Order.Ring.Int
import MipsText.Proofs.Machine.Straight

namespace MipsText

inductive Operation where
  | add
  | sub
  | and
  | or
  | xor
  | nor
  | lessSigned
  | lessUnsigned
  | shiftLeft
  | shiftRight
  | shiftRightSigned
deriving DecidableEq

namespace Operation

/-- What a shift multiplies or divides by: it counts its amount modulo 32, a negative amount
too. -/
def scale (amount : Word) : Nat :=
  2 ^ (amount.toInt % 32).toNat

/-- `op.Computes a b r`: the operation on `a` and `b` has the result `r`. -/
def Computes (a b r : Word) : Operation → Prop
  | .add => r.toInt = (a.toInt + b.toInt).bmod 0x100000000
  | .sub => r.toInt = (a.toInt - b.toInt).bmod 0x100000000
  | .and => ∀ i < 32, r.getLsbD i = (a.getLsbD i && b.getLsbD i)
  | .or => ∀ i < 32, r.getLsbD i = (a.getLsbD i || b.getLsbD i)
  | .xor => ∀ i < 32, r.getLsbD i = (a.getLsbD i ^^ b.getLsbD i)
  | .nor => ∀ i < 32, r.getLsbD i = !(a.getLsbD i || b.getLsbD i)
  | .lessSigned => r = if a.toInt < b.toInt then 1 else 0
  | .lessUnsigned => r = if a.toNat < b.toNat then 1 else 0
  | .shiftLeft => r.toNat = a.toNat * scale b % 0x100000000
  | .shiftRight => r.toNat = a.toNat / scale b
  | .shiftRightSigned => r.toInt = a.toInt / scale b

/-- The operation as it is carried out on words. -/
def onWords : Operation → Word → Word → Word
  | .add => (· + ·)
  | .sub => (· - ·)
  | .and => (· &&& ·)
  | .or => (· ||| ·)
  | .xor => (· ^^^ ·)
  | .nor => Word.nor
  | .lessSigned => Word.lessSigned
  | .lessUnsigned => Word.lessUnsigned
  | .shiftLeft => Word.shiftLeft
  | .shiftRight => Word.shiftRight
  | .shiftRightSigned => Word.shiftRightSigned

/-- A shift goes as far modulo 32 whether its amount is read as signed or unsigned. -/
theorem scale_eq (amount : Word) : scale amount = 2 ^ Word.shiftAmount amount := by
  rw [scale, Word.shiftAmount, BitVec.toInt_eq_toNat_cond]
  congr 1
  split <;> omega

/-- What is carried out on words is what the operation computes, and nothing else is. -/
theorem computes_iff (op : Operation) (a b r : Word) : op.Computes a b r ↔ r = op.onWords a b := by
  -- each operation is compared in the reading that its rule is about: signed, unsigned or bits
  cases op with
  | add =>
      rw [← BitVec.toInt_inj]
      simp only [Computes, onWords, BitVec.toInt_add]
  | sub =>
      rw [← BitVec.toInt_inj]
      simp only [Computes, onWords, BitVec.toInt_sub]
  | and =>
      rw [BitVec.eq_of_getLsbD_eq_iff]
      simp only [Computes, onWords, BitVec.getLsbD_and]
  | or =>
      rw [BitVec.eq_of_getLsbD_eq_iff]
      simp only [Computes, onWords, BitVec.getLsbD_or]
  | xor =>
      rw [BitVec.eq_of_getLsbD_eq_iff]
      simp only [Computes, onWords, BitVec.getLsbD_xor]
  | nor =>
      rw [BitVec.eq_of_getLsbD_eq_iff]
      simp only [Computes, onWords, Word.nor, BitVec.getLsbD_not, BitVec.getLsbD_or]
      refine forall_congr' fun i => forall_congr' fun hi => ?_
      rw [decide_eq_true hi, Bool.true_and]
  | lessSigned =>
      simp only [Computes, onWords, Word.lessSigned, Word.ofBool, BitVec.slt_iff_toInt_lt]
  | lessUnsigned =>
      simp only [Computes, onWords, Word.lessUnsigned, Word.ofBool, BitVec.ult_iff_lt,
        BitVec.lt_def]
  | shiftLeft =>
      rw [← BitVec.toNat_inj]
      simp only [Computes, onWords, Word.shiftLeft, BitVec.toNat_shiftLeft, Nat.shiftLeft_eq,
        scale_eq]
  | shiftRight =>
      rw [← BitVec.toNat_inj]
      simp only [Computes, onWords, Word.shiftRight, BitVec.toNat_ushiftRight,
        Nat.shiftRight_eq_div_pow, scale_eq]
  | shiftRightSigned =>
      rw [← BitVec.toInt_inj]
      simp only [Computes, onWords, Word.shiftRightSigned, BitVec.toInt_sshiftRight,
        Int.shiftRight_eq_div_pow, scale_eq]

end Operation

/-! ## Instructions -/

namespace Mnemonic

/-- The operation of an instruction on two registers, or on a register and a number. -/
def operation? : Mnemonic → Option Operation
  | .add | .addu | .addi | .addiu => some .add
  | .sub | .subu => some .sub
  | .and | .andi => some .and
  | .or | .ori => some .or
  | .xor | .xori => some .xor
  | .nor => some .nor
  | .slt | .slti => some .lessSigned
  | .sltu | .sltiu => some .lessUnsigned
  | .sllv | .sll => some .shiftLeft
  | .srlv | .srl => some .shiftRight
  | .srav | .sra => some .shiftRightSigned
  | _ => none

variable {m : Mnemonic} {op : Operation}

theorem format_of_operation? (h : m.operation? = some op) :
    m.format = .register ∨ m.format = .immediate ∧ m.zeroTest? = none := by
  cases m <;> cases h <;> simp [format, zeroTest?]

theorem action_of_operation? (h : m.operation? = some op) :
    m.action = match m.format with
      | .register => .combine op.onWords
      | _ => .combineImmediate op.onWords := by
  cases m <;> cases h <;> rfl

end Mnemonic

/-- `c.Supplies format token b`: the third operand of an instruction of this format is worth
`b`. -/
def Context.Supplies (c : Context) (format : Mnemonic.Format) (token : String) (b : Word) : Prop :=
  match format with
  | .register => ∃ r, Register.ofName? token = some r ∧ c.integer r = .ok b
  | .immediate => Token.immediate? token = some b
  | .jump => False

theorem Mnemonic.performs_operation {c : Context} {m : Mnemonic} {op : Operation}
    {first second third : String} {rd rs : Register} {a b : Word} (hop : m.operation? = some op)
    (hrd : Register.ofName? first = some rd) (hrs : Register.ofName? second = some rs)
    (ha : c.integer rs = .ok a) (hb : c.Supplies m.format third b) :
    m.Performs c [first, second, third] (.set rd (.int (op.onWords a b))) := by
  have haction := action_of_operation? hop
  rcases format_of_operation? hop with hformat | ⟨hformat, hzero⟩
  · rw [hformat] at hb haction
    obtain ⟨rt, hrt, hb⟩ := hb
    rw [Performs, haction]
    exact ⟨_, .three hformat hrd hrs (Register.namesRegister_of_ofName? hrt) hrt,
      .combine rfl ha rfl hb rfl⟩
  · rw [hformat] at hb haction
    rw [Performs, haction]
    exact ⟨_, .combination hformat hzero hrd hrs hb, .combineImmediate rfl ha rfl rfl⟩

namespace Machine

/-- Arithmetic lines compute their result.  A running machine executes an instruction with an
operation; its second operand names a register that reads as `a`, and its third is a register
or a number that is worth `b`.  Then the register that its first operand names holds the
result of the operation, no other register is changed, control goes on with the next line,
and all else stays as it was. -/
theorem step_arithmetic {m : Machine} {mnemonic : Mnemonic} {op : Operation}
    {first second third : String} {rd rs : Register} {a b : Word}
    (hop : mnemonic.operation? = some op)
    (hline : m.Executes (.instruction mnemonic [first, second, third]))
    (hrd : Register.ofName? first = some rd) (hrs : Register.ofName? second = some rs)
    (ha : m.integer rs = .ok a) (hb : m.Supplies mnemonic.format third b) :
    ∃ result, op.Computes a b result ∧
      m.step.fault = none ∧
      m.step.machine.registers.get rd = .int result ∧
      (∀ r, r ≠ rd → m.step.machine.registers.get r = m.registers.get r) ∧
      m.step.machine =
        { m with
          registers := m.step.machine.registers
          pc := m.pc + 1
          status := if m.pc + 1 < m.lines.size then .running else .stopped .endOfProgram } := by
  obtain ⟨hmachine, hfault⟩ :=
    step_performs hline (Mnemonic.performs_operation hop hrd hrs ha hb)
  refine ⟨_, (op.computes_iff a b _).mpr rfl, hfault, ?_, ?_, ?_⟩
  · rw [hmachine]
    exact RegisterFile.get_set_self _ _ _
  · intro r hr
    rw [hmachine]
    exact (RegisterFile.get_set _ _ _ _).trans (if_neg (Ne.symm hr))
  · rw [hmachine, ← hline.1]
    rfl

/-- A shift by 33 of a negative number, into a register that held a reference. -/
theorem step_arithmetic_shifted :
    let f := ((RegisterFile.initial.set 8 (.ref "x")).set 9 (.int (-8))).set 10 (.int 33)
    let m : Machine := { lines := #["SRAV $8, $t1, $010"], pc := 0, registers := f }
    ∃ result, m.step.machine.registers.get 8 = .int result ∧ result.toInt = -4 ∧
      m.step.machine.registers.get 9 = .int (-8) ∧
      m.step.machine.status = .stopped .endOfProgram := by
  intro f m
  have hline : m.Executes (.instruction .srav ["$8", "$t1", "$010"]) := by decide +kernel
  have hrd : Register.ofName? "$8" = some 8 := by decide +kernel
  have hrs : Register.ofName? "$t1" = some 9 := by decide +kernel
  have hrt : Register.ofName? "$010" = some 10 := by decide +kernel
  obtain ⟨result, hcomputes, -, hresult, hothers, hrest⟩ :=
    step_arithmetic rfl hline hrd hrs rfl ⟨10, hrt, rfl⟩
  refine ⟨result, hresult, hcomputes, hothers 9 (by decide), ?_⟩
  rw [hrest]
  rfl

end Machine

end MipsText
