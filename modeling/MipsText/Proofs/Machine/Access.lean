/-
# `MipsText.Proofs.Machine.Access` — which loads and stores take place

The action of `lw`, `lb`, `sw` and `sb` on the registers is none at all: the access has to come
from the operands, a register and a place `offset(base)`.  It does if there are two operands
and the second is not meant to be a register (`Statement.hasPlace`).

Other operands resolve too, as long as they are registers or end with a number, and then the
idle action is all that is left of the line.  Such a line is passed over without a halt and
without a fault (`step_access_skipped`).  So a line that does not stop the machine has made its
access if and only if it has a place, and is otherwise as good as an empty line.
-/
import MipsText.Proofs.Arrays
import MipsText.Proofs.Instruction.Spelling
import MipsText.Proofs.Machine.Footprint

namespace MipsText

def Mnemonic.loading : List Mnemonic :=
  [.lw, .lb]

def Mnemonic.storing : List Mnemonic :=
  [.sw, .sb]

/-- Are there two operands, of which the second is not meant to be a register? -/
def Statement.hasPlace : List String → Bool
  | [_, second] => !Token.namesRegister second
  | _ => false

/-- `c.Addresses tokens r label offset`: the operands are the register `r` and a place
`offset(base)`, and the base refers to `label`. -/
def Context.Addresses (c : Context) (tokens : List String) (r : Register) (label : String)
    (offset : Word) : Prop :=
  ∃ first second base, tokens = [first, second] ∧ Register.ofName? first = some r ∧
    Token.location second = .ok (offset, base) ∧ c.registers.get base = .ref label

theorem Context.Addresses.hasPlace {c : Context} {tokens : List String} {r : Register}
    {label : String} {offset : Word} (h : c.Addresses tokens r label offset) :
    Statement.hasPlace tokens = true := by
  obtain ⟨first, second, base, rfl, -, hlocation, -⟩ := h
  rw [Statement.hasPlace, Token.namesRegister_of_location hlocation]
  rfl

/-! ## What the operands come to -/

namespace Mnemonic

variable {m : Mnemonic}

theorem action_of_memory (h : m ∈ loading ++ storing) : m.action = .idle := by
  simp only [loading, storing, List.mem_append, List.mem_pair] at h
  rcases h with (rfl | rfl) | rfl | rfl <;> rfl

theorem loads_iff : m.loads = true ↔ m ∈ loading := by
  cases m <;> simp [loads, loading]

theorem stores_iff : m.stores = true ↔ m ∈ storing := by
  cases m <;> simp [stores, storing]

theorem tests_of_memory (h : m ∈ loading ++ storing) :
    m.pairTest? = none ∧ m.zeroTest? = none ∧ m ≠ .jr ∧ m ≠ .j ∧ m ≠ .jal := by
  simp only [loading, storing, List.mem_append, List.mem_pair] at h
  rcases h with (rfl | rfl) | rfl | rfl <;> simp [pairTest?, zeroTest?]

end Mnemonic

/-- Operands of a memory access resolve to the access or, without a place, to the idle action. -/
theorem Intent.Resolves.of_memory {c : Context} {m : Mnemonic} {tokens : List String}
    {intent : Intent} (h : Resolves c m tokens intent)
    (hm : m ∈ Mnemonic.loading ++ Mnemonic.storing) :
    (∃ r label offset, c.Addresses tokens r label offset ∧
      (m ∈ Mnemonic.loading ∧ intent = .load r label offset ∨
        m ∈ Mnemonic.storing ∧ intent = .store r label offset)) ∨
    Statement.hasPlace tokens = false ∧ ∃ o, intent = .act m o := by
  obtain ⟨hpair, hzero, hjr, hj, hjal⟩ := Mnemonic.tests_of_memory hm
  have hformat : m.format = .register := by
    rw [List.mem_append, ← Mnemonic.loads_iff, ← Mnemonic.stores_iff] at hm
    exact format_of_memory hm
  cases h with
  | load hloads hr hsecond hlocation hbase =>
      exact Or.inl ⟨_, _, _, ⟨_, _, _, rfl, hr, hlocation, hbase⟩,
        Or.inl ⟨Mnemonic.loads_iff.mp hloads, rfl⟩⟩
  | store hstores hr hsecond hlocation hbase =>
      exact Or.inl ⟨_, _, _, ⟨_, _, _, rfl, hr, hlocation, hbase⟩,
        Or.inr ⟨Mnemonic.stores_iff.mp hstores, rfl⟩⟩
  | one => exact Or.inr ⟨rfl, _, rfl⟩
  | two _ _ hregister => exact Or.inr ⟨by simp [Statement.hasPlace, hregister], _, rfl⟩
  | three => exact Or.inr ⟨rfl, _, rfl⟩
  | threeImmediate => exact Or.inr ⟨rfl, _, rfl⟩
  | pairBranch htest => simp [hpair] at htest
  | zeroBranch htest => simp [hzero] at htest
  | constant himmediate => simp [hformat] at himmediate
  | label himmediate => simp [hformat] at himmediate
  | combination himmediate => simp [hformat] at himmediate
  | ret h => exact absurd h hjr
  | stay h => exact absurd h hjr
  | jump h => exact absurd h hj
  | call h => exact absurd h hjal

namespace Machine

/-- `m.Completes`: the step neither halts the machine nor ends in a fault. -/
def Completes (m : Machine) : Prop :=
  m.step.fault = none ∧ ∀ line reason, m.step.machine.status ≠ .stopped (.halted line reason)

/-- `m.Accessed m' mnemonic tokens`: between the two machines the memory access has taken place
that the mnemonic asks for.  A load has brought the word at the place of `m` into its register,
and after a store the word there is the integer that its register had. -/
def Accessed (m m' : Machine) (mnemonic : Mnemonic) (tokens : List String) : Prop :=
  ∃ r label offset value, m.Addresses tokens r label offset ∧
    (mnemonic ∈ Mnemonic.loading ∧ m.symbols.load label offset = .ok value ∧
        m'.registers.get r = .int value ∨
      mnemonic ∈ Mnemonic.storing ∧ m.integer r = .ok value ∧
        m'.symbols.load label offset = .ok value)

variable {m : Machine}

theorem Completes.changed {statement : Statement} (h : m.Completes)
    (hline : m.Executes statement) :
    ∃ line intent change, Statement.ofLine line = .ok statement ∧
      Intent.ofLine m.toContext line = .ok intent ∧ Evaluates m intent change ∧
      m.step.machine = m.apply change := by
  obtain ⟨hfault, hhalted⟩ := h
  obtain ⟨hrunning, hstatement⟩ := hline
  obtain ⟨current, hcurrent, hread⟩ := statement?_eq_some.mp hstatement
  have hstepped := stepped m
  generalize m.step.machine = m' at hstepped hhalted
  rw [hfault] at hstepped
  cases hstepped with
  | idle hstopped => simp [hrunning] at hstopped
  | ended _ hnone => simp [hcurrent] at hnone
  | changed _ hfound hintent hchange =>
      obtain rfl := Option.some.inj (hcurrent.symm.trans hfound)
      exact ⟨current, _, _, hread, hintent, hchange, rfl⟩
  | halted => exact absurd rfl (hhalted m.pc _)

theorem accessed_of_load {mnemonic : Mnemonic} {tokens : List String} {r : Register}
    {label : String} {offset : Word} {change : Change} (hm : mnemonic ∈ Mnemonic.loading)
    (haddress : m.Addresses tokens r label offset)
    (h : Evaluates m (.load r label offset) change) :
    m.Accessed (m.apply change) mnemonic tokens := by
  cases h with
  | @load _ _ _ value hvalue =>
      refine ⟨r, label, offset, value, haddress, Or.inl ⟨hm, hvalue, ?_⟩⟩
      exact RegisterFile.get_set_self _ _ _

theorem accessed_of_store {mnemonic : Mnemonic} {tokens : List String} {r : Register}
    {label : String} {offset : Word} {change : Change} (hm : mnemonic ∈ Mnemonic.storing)
    (haddress : m.Addresses tokens r label offset)
    (h : Evaluates m (.store r label offset) change) :
    m.Accessed (m.apply change) mnemonic tokens := by
  cases h with
  | @store _ _ _ value i hvalue hi =>
      have hstore : m.symbols.store label offset value = .ok (m.symbols.setWord label i value) := by
        rw [Symbols.store, hi]
        rfl
      refine ⟨r, label, offset, value, haddress, Or.inr ⟨hm, hvalue, ?_⟩⟩
      exact (Symbols.stored hstore).here offset rfl

/-- A memory access that does not stop the machine has taken place if and only if its operands
have a place.  Without one the line is passed over, and nothing but the current line changes. -/
theorem step_access {mnemonic : Mnemonic} {tokens : List String}
    (hm : mnemonic ∈ [.lw, .lb, .sw, .sb]) (hline : m.Executes (.instruction mnemonic tokens))
    (hdone : m.Completes) :
    (m.Accessed m.step.machine mnemonic tokens ↔ Statement.hasPlace tokens = true) ∧
      (Statement.hasPlace tokens = false → m.step.machine = m.next) := by
  have hplace : m.Accessed m.step.machine mnemonic tokens → Statement.hasPlace tokens = true := by
    rintro ⟨r, label, offset, value, haddress, -⟩
    exact haddress.hasPlace
  obtain ⟨line, intent, change, hread, hintent, hchange, hmachine⟩ := hdone.changed hline
  rw [Intent.ofLine_of_instruction hread] at hintent
  rcases (Intent.resolves hintent).of_memory hm with
    ⟨r, label, offset, haddress, haccess⟩ | ⟨hnone, o, rfl⟩
  · have haccessed : m.Accessed m.step.machine mnemonic tokens := by
      rw [hmachine]
      rcases haccess with ⟨hload, rfl⟩ | ⟨hstore, rfl⟩
      · exact accessed_of_load hload haddress hchange
      · exact accessed_of_store hstore haddress hchange
    refine ⟨⟨hplace, fun _ => haccessed⟩, ?_⟩
    intro hnone
    simp [hplace haccessed] at hnone
  · refine ⟨⟨hplace, fun h => ?_⟩, fun _ => ?_⟩
    · simp [h] at hnone
    · cases hchange with
      | act hact =>
          rw [Mnemonic.action_of_memory hm] at hact
          cases Mnemonic.acts hact
          exact hmachine

/-- A load over its own base register, from an offset that is no multiple of four. -/
theorem step_access_own_base :
    let source := Stream.ofString ".data\na: .word 7, -9\n.text\nla $t1, a\nlb $t1, 5($t1)\n"
    let m := (start (Assembly.ofLines source.lines).program .strict (Stream.ofString "") none).after 1
    m.Completes ∧ m.Accessed m.step.machine .lb ["$t1", "5($t1)"] ∧
      m.step.machine.registers.get 9 = .int (-9) := by
  intro source m
  obtain ⟨hexecutes, hfault, hstatus, hcell⟩ :
      m.Executes (.instruction .lb ["$t1", "5($t1)"]) ∧ m.step.fault = none ∧
        m.step.machine.status = .stopped .endOfProgram ∧
        m.step.machine.registers.get 9 = .int (-9) := by
    decide +kernel
  -- from here on the run is not to be evaluated again
  clear_value m
  have hdone : m.Completes := ⟨hfault, by simp [hstatus]⟩
  exact ⟨hdone, (step_access (by simp) hexecutes hdone).1.mpr (by decide), hcell⟩

/-- A register in the place of a place: the register refers to an array with a word, and the
load neither stops the machine nor takes place. -/
theorem step_access_skipped :
    let source := Stream.ofString ".data\narr: .word 7\n.text\nla $t1, arr\nlw $t0, $t1\n"
    let m := (start (Assembly.ofLines source.lines).program .strict (Stream.ofString "") none).after 1
    m.Executes (.instruction .lw ["$t0", "$t1"]) ∧ m.Completes ∧
      m.registers.get 9 = .ref "arr" ∧ m.symbols.load "arr" 0 = .ok 7 ∧
      m.step.machine.registers.get 8 = .int 0 ∧
      ¬ m.Accessed m.step.machine .lw ["$t0", "$t1"] := by
  intro source m
  obtain ⟨hexecutes, hfault, hstatus, hbase, hcell⟩ :
      m.Executes (.instruction .lw ["$t0", "$t1"]) ∧ m.step.fault = none ∧
        m.step.machine.status = .stopped .endOfProgram ∧
        m.registers.get 9 = .ref "arr" ∧ m.step.machine.registers.get 8 = .int 0 := by
    decide +kernel
  have hwords : m.symbols.words["arr"]? = some #[7] := by decide +kernel
  clear_value m
  have hload : m.symbols.load "arr" 0 = .ok 7 :=
    Symbols.load_eq_ok.mpr ⟨_, 0, hwords, by decide, rfl⟩
  refine ⟨hexecutes, ⟨hfault, by simp [hstatus]⟩, hbase, hload, hcell, ?_⟩
  rintro ⟨r, label, offset, value, haddress, -⟩
  exact absurd haddress.hasPlace (by decide)

end Machine

end MipsText
