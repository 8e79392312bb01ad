/-
# `MipsText.Proofs.Machine.Division` — division and multiplication fit together

A division leaves its quotient in `hi` and its remainder in `lo`.  As numbers, signed or
unsigned, they satisfy the equation of a division with remainder (`DividedSigned`,
`DividedUnsigned`), with one exception: the least word divided by minus one has a quotient
that is not a word, and what is left in `hi` is the least word again.

As words there is no exception.  The quotient times the divisor plus the remainder is the
dividend, since all of it is counted modulo 2 to the 32 (`divideSigned_undone`).  So a
program that divides, multiplies back and adds the remainder always ends with the number
that it started from (`run_division`).
-/
import MipsText.Proofs.Machine.Arithmetic

namespace MipsText

/-! ## Quotients and remainders -/

namespace Word

/-- `DividedSigned a b d`: read as signed numbers, `d` is the division of `a` by `b` toward
zero. -/
structure DividedSigned (a b : Word) (d : Division) : Prop where
  equation : a.toInt = d.quotient.toInt * b.toInt + d.remainder.toInt
  small : d.remainder.toInt.natAbs < b.toInt.natAbs
  sign : d.remainder.toInt = 0 ∨ d.remainder.toInt.sign = a.toInt.sign

/-- `DividedUnsigned a b d`: read as unsigned numbers, `d` is the division of `a` by `b`. -/
structure DividedUnsigned (a b : Word) (d : Division) : Prop where
  equation : a.toNat = d.quotient.toNat * b.toNat + d.remainder.toNat
  small : d.remainder.toNat < b.toNat

variable {a b : Word}

theorem toInt_ne_zero (hb : b ≠ 0) : b.toInt ≠ 0 := by
  intro h
  exact hb (BitVec.eq_of_toInt_eq h)

theorem dividedSigned (hb : b ≠ 0) (h : ¬ (a = BitVec.intMin 32 ∧ b = -1)) :
    DividedSigned a b (divideSigned a b) := by
  have hfits : a ≠ BitVec.intMin 32 ∨ b ≠ -1#32 := not_and_or.mp h
  have hquotient : (divideSigned a b).quotient.toInt = a.toInt.tdiv b.toInt :=
    BitVec.toInt_sdiv_of_ne_or_ne a b hfits
  have hremainder : (divideSigned a b).remainder.toInt = a.toInt.tmod b.toInt :=
    BitVec.toInt_srem a b
  refine ⟨?_, ?_, ?_⟩
  · rw [hquotient, hremainder, Int.tdiv_mul_add_tmod]
  · rw [hremainder, Int.natAbs_tmod]
    exact Nat.mod_lt _ (Int.natAbs_pos.mpr (toInt_ne_zero hb))
  · rw [hremainder, Int.sign_tmod]
    by_cases hdvd : b.toInt ∣ a.toInt
    · exact Or.inl (Int.tmod_eq_zero_of_dvd hdvd)
    · exact Or.inr (if_neg hdvd)

/-- The one division with a quotient that is not a word. -/
theorem divideSigned_overflow :
    divideSigned (BitVec.intMin 32) (-1) = ⟨BitVec.intMin 32, 0⟩ := by
  decide

theorem toNat_quotient (a b : Word) :
    (divideUnsigned a b).quotient.toNat = a.toNat / b.toNat :=
  BitVec.toNat_udiv

theorem toNat_remainder (a b : Word) :
    (divideUnsigned a b).remainder.toNat = a.toNat % b.toNat :=
  BitVec.toNat_umod

theorem dividedUnsigned (hb : b ≠ 0) : DividedUnsigned a b (divideUnsigned a b) := by
  have hpos : 0 < b.toNat := by
    rw [Nat.pos_iff_ne_zero]
    intro h
    exact hb (BitVec.eq_of_toNat_eq h)
  refine ⟨?_, ?_⟩
  · rw [toNat_quotient, toNat_remainder, Nat.div_add_mod']
  · rw [toNat_remainder]
    exact Nat.mod_lt _ hpos

/-- A quotient that is cut down to a word still fits, as words. -/
theorem divideSigned_undone (a b : Word) :
    (divideSigned a b).quotient * b + (divideSigned a b).remainder = a := by
  have hquotient : (divideSigned a b).quotient = BitVec.ofInt 32 (a.toInt.tdiv b.toInt) := by
    apply BitVec.eq_of_toInt_eq
    rw [BitVec.toInt_ofInt]
    exact BitVec.toInt_sdiv a b
  have hremainder : (divideSigned a b).remainder = BitVec.ofInt 32 (a.toInt.tmod b.toInt) := by
    rw [← BitVec.toInt_srem, BitVec.ofInt_toInt]
    rfl
  calc (divideSigned a b).quotient * b + (divideSigned a b).remainder
      = BitVec.ofInt 32 (a.toInt.tdiv b.toInt * b.toInt + a.toInt.tmod b.toInt) := by
        rw [hquotient, hremainder, BitVec.ofInt_add, BitVec.ofInt_mul, BitVec.ofInt_toInt]
    _ = a := by rw [Int.tdiv_mul_add_tmod, BitVec.ofInt_toInt]

theorem divideUnsigned_undone (a b : Word) :
    (divideUnsigned a b).quotient * b + (divideUnsigned a b).remainder = a := by
  apply BitVec.eq_of_toNat_eq
  rw [BitVec.toNat_add, BitVec.toNat_mul, toNat_quotient, toNat_remainder, Nat.mod_add_mod,
    Nat.div_add_mod']
  exact Nat.mod_eq_of_lt a.isLt

end Word

/-! ## Instructions -/

namespace Register

def t0 : Register := ⟨8, by decide⟩
def t1 : Register := ⟨9, by decide⟩
def t2 : Register := ⟨10, by decide⟩
def s0 : Register := ⟨16, by decide⟩
def s1 : Register := ⟨17, by decide⟩

end Register

namespace Mnemonic

/-- The division that an instruction makes. -/
def division? : Mnemonic → Option (Word → Word → Word.Division)
  | .div => some Word.divideSigned
  | .divu => some Word.divideUnsigned
  | _ => none

/-- `m.Divides a b d`: `d` is what the instruction leaves of the division of `a` by `b`. -/
def Divides (a b : Word) (d : Word.Division) : Mnemonic → Prop
  | .div =>
      if a = BitVec.intMin 32 ∧ b = -1 then d = ⟨BitVec.intMin 32, 0⟩
      else Word.DividedSigned a b d
  | .divu => Word.DividedUnsigned a b d
  | _ => False

variable {c : Context} {m : Mnemonic} {f : Word → Word → Word.Division} {a b : Word}

theorem divides (h : m.division? = some f) (hb : b ≠ 0) : m.Divides a b (f a b) := by
  cases m <;> cases h
  case div =>
    rw [Divides]
    split
    · next hoverflow =>
        obtain ⟨rfl, rfl⟩ := hoverflow
        exact Word.divideSigned_overflow
    · next hfits => exact Word.dividedSigned hb hfits
  case divu => exact Word.dividedUnsigned hb

theorem division_undone (h : m.division? = some f) (a b : Word) :
    (f a b).quotient * b + (f a b).remainder = a := by
  cases m <;> cases h
  case div => exact Word.divideSigned_undone a b
  case divu => exact Word.divideUnsigned_undone a b

theorem action_of_division? (h : m.division? = some f) :
    m.format = .register ∧ m.action = .divide f := by
  cases m <;> cases h <;> exact ⟨rfl, rfl⟩

section Performs

variable {first second : String} {rs rt rd : Register}

theorem performs_division (h : m.division? = some f) (hrs : Register.ofName? first = some rs)
    (hrt : Register.ofName? second = some rt) (ha : c.integer rs = .ok a)
    (hb : c.integer rt = .ok b) (hzero : b ≠ 0) :
    m.Performs c [first, second] (.setResults (f a b).quotient (f a b).remainder) := by
  obtain ⟨hformat, haction⟩ := action_of_division? h
  rw [Performs, haction]
  exact ⟨_, .two hformat hrs (Register.namesRegister_of_ofName? hrt) hrt,
    .divide rfl ha rfl hb hzero⟩

theorem performs_mult (hrs : Register.ofName? first = some rs)
    (hrt : Register.ofName? second = some rt) (ha : c.integer rs = .ok a)
    (hb : c.integer rt = .ok b) :
    mult.Performs c [first, second] (.setResults 0 (a * b)) :=
  ⟨_, .two rfl hrs (Register.namesRegister_of_ofName? hrt) hrt, .multiply rfl ha rfl hb⟩

theorem performs_mfhi (hrd : Register.ofName? first = some rd) (ha : c.integer .hi = .ok a) :
    mfhi.Performs c [first] (.set rd (.int a)) :=
  ⟨_, .one rfl (by decide) hrd, .copyFrom ha rfl⟩

theorem performs_mflo (hrd : Register.ofName? first = some rd) (ha : c.integer .lo = .ok a) :
    mflo.Performs c [first] (.set rd (.int a)) :=
  ⟨_, .one rfl (by decide) hrd, .copyFrom ha rfl⟩

end Performs

end Mnemonic

/-! ## Dividing and multiplying back -/

/-- Divides `$s0` by `$s1`, and makes the dividend again in `$t2`. -/
def divisionLines (m : Mnemonic) : List String :=
  [m.name ++ " $s0, $s1", "mfhi $t0", "mflo $t1", "mult $t0, $s1", "mflo $t2",
    "add $t2, $t2, $t1"]

theorem ofLine_division {m : Mnemonic} {f : Word → Word → Word.Division}
    (h : m.division? = some f) :
    Statement.ofLine (m.name ++ " $s0, $s1") = .ok (.instruction m ["$s0", "$s1"]) := by
  cases m <;> cases h <;> rfl

section Lines

open Register

theorem ofName?_divisionRegisters :
    ofName? "$s0" = some s0 ∧ ofName? "$s1" = some s1 ∧ ofName? "$t0" = some t0 ∧
      ofName? "$t1" = some t1 ∧ ofName? "$t2" = some t2 := by
  decide +kernel

theorem straight_divisionLines {c : Context} {m : Mnemonic} {f : Word → Word → Word.Division}
    {a b : Word} (h : m.division? = some f) (ha : c.integer s0 = .ok a) (hb : c.integer s1 = .ok b)
    (hzero : b ≠ 0) : ∃ g, Straight c (divisionLines m) g ∧ g.get t2 = .int a := by
  obtain ⟨hs0, hs1, ht0, ht1, ht2⟩ := ofName?_divisionRegisters
  have hundone := Mnemonic.division_undone h a b
  have hdivide := Mnemonic.performs_division h hs0 hs1 ha hb hzero
  revert hundone hdivide
  generalize (f a b).quotient = q
  generalize (f a b).remainder = r
  intro hundone hdivide
  -- the context behind each line, with what the lines after it read
  let c1 := c.changed (.setResults q r)
  have hhi1 : c1.integer hi = .ok q := c.integer_changed_hi q r
  have hlo1 : c1.integer lo = .ok r := c.integer_changed_lo q r
  have hs1' : c1.integer s1 = .ok b :=
    (c.integer_changed_results_of_ne q r (by decide) (by decide)).trans hb
  let c2 := c1.changed (.set t0 (.int q))
  have hlo2 : c2.integer lo = .ok r := (c1.integer_changed_set_of_ne (by decide) _).trans hlo1
  have hq2 : c2.integer t0 = .ok q := c1.integer_changed_set t0 q
  have hb2 : c2.integer s1 = .ok b := (c1.integer_changed_set_of_ne (by decide) _).trans hs1'
  let c3 := c2.changed (.set t1 (.int r))
  have hq3 : c3.integer t0 = .ok q := (c2.integer_changed_set_of_ne (by decide) _).trans hq2
  have hr3 : c3.integer t1 = .ok r := c2.integer_changed_set t1 r
  have hb3 : c3.integer s1 = .ok b := (c2.integer_changed_set_of_ne (by decide) _).trans hb2
  let c4 := c3.changed (.setResults 0 (q * b))
  have hlo4 : c4.integer lo = .ok (q * b) := c3.integer_changed_lo 0 (q * b)
  have hr4 : c4.integer t1 = .ok r :=
    (c3.integer_changed_results_of_ne _ _ (by decide) (by decide)).trans hr3
  let c5 := c4.changed (.set t2 (.int (q * b)))
  have hp5 : c5.integer t2 = .ok (q * b) := c4.integer_changed_set t2 (q * b)
  have hr5 : c5.integer t1 = .ok r := (c4.integer_changed_set_of_ne (by decide) _).trans hr4
  have hsupplied : c5.Supplies Mnemonic.add.format "$t1" r := ⟨t1, ht1, hr5⟩
  have hop : Mnemonic.add.operation? = some .add := rfl
  have hadd : Mnemonic.add.Performs c5 ["$t2", "$t2", "$t1"] (.set t2 (.int (q * b + r))) :=
    Mnemonic.performs_operation hop ht2 ht2 hp5 hsupplied
  refine ⟨(c5.changed (.set t2 (.int (q * b + r)))).registers, ?_, ?_⟩
  · exact .cons (ofLine_division h) hdivide <|
      .cons rfl (Mnemonic.performs_mfhi ht0 hhi1) <|
      .cons rfl (Mnemonic.performs_mflo ht1 hlo2) <|
      .cons rfl (Mnemonic.performs_mult ht0 hs1 hq3 hb3) <|
      .cons rfl (Mnemonic.performs_mflo ht2 hlo4) <|
      .cons rfl hadd .nil
  · rw [← hundone]
    exact RegisterFile.get_set_self _ _ _

end Lines

namespace Machine

variable {m : Machine} {mnemonic : Mnemonic} {f : Word → Word → Word.Division} {a b : Word}

open Register

theorem step_division (h : mnemonic.division? = some f)
    (hline : m.Executes (.instruction mnemonic ["$s0", "$s1"])) (ha : m.integer s0 = .ok a)
    (hb : m.integer s1 = .ok b) (hzero : b ≠ 0) :
    m.step.machine.registers.get hi = .int (f a b).quotient ∧
      m.step.machine.registers.get lo = .int (f a b).remainder := by
  obtain ⟨hs0, hs1, -⟩ := ofName?_divisionRegisters
  obtain ⟨hmachine, -⟩ := step_performs hline (Mnemonic.performs_division h hs0 hs1 ha hb hzero)
  rw [hmachine]
  constructor
  · exact (RegisterFile.get_set_of_ne _ (by decide) _).trans (RegisterFile.get_set_self ..)
  · exact RegisterFile.get_set_self ..

theorem step_division_zero (h : mnemonic.division? = some f)
    (hline : m.Executes (.instruction mnemonic ["$s0", "$s1"])) (ha : m.integer s0 = .ok a)
    (hb : m.integer s1 = .ok 0) :
    m.step.fault = some .divisionByZero ∧ m.step.machine.registers = m.registers := by
  obtain ⟨hs0, hs1, -⟩ := ofName?_divisionRegisters
  obtain ⟨hm, hstatement⟩ := hline
  obtain ⟨line, hline, hinstruction⟩ := statement?_eq_some.mp hstatement
  obtain ⟨hformat, haction⟩ := Mnemonic.action_of_division? h
  let o : Operands Register := { rs := some s0, rt := some s1 }
  have hintent : Intent.ofLine m.toContext line = .ok (.act mnemonic o) :=
    (Intent.ofLine_of_instruction hinstruction).trans
      (Intent.Resolves.two hformat hs0 (namesRegister_of_ofName? hs1) hs1).eq_ok
  have hstop : evaluateLocal m.toContext (.act mnemonic o) = .error (.fault .divisionByZero) := by
    rw [evaluateLocal, haction]
    exact Mnemonic.Action.evaluate_divide_zero rfl ha rfl hb
  have houtcome : m.outcome (Intent.ofLine m.toContext line) =
      .error (.fault .divisionByZero, m.toConsole) := by
    rw [hintent, outcome, evaluate_eq_local m (by simp), hstop]
    rfl
  obtain ⟨hmachine, hfault⟩ := step_of_outcome hm hline houtcome
  rw [hmachine]
  exact ⟨hfault, rfl⟩

/-- Division and multiplication fit together.  With `a` in `$s0` and `b` in `$s1`, the lines
divide without a fault, leave quotient and remainder in `hi` and `lo`, and end with `a` in
`$t2`.  If `b` is zero, the first of them faults and no register is changed. -/
theorem run_division (h : mnemonic = .div ∨ mnemonic = .divu) (hm : m.status = .running)
    (hlines : m.Holds (divisionLines mnemonic)) (ha : m.integer s0 = .ok a)
    (hb : m.integer s1 = .ok b) :
    (b ≠ 0 →
      (∀ k < 6, (m.after k).step.fault = none) ∧
      (m.after 6).pc = m.pc + 6 ∧ (m.after 6).registers.get t2 = .int a ∧
      ∃ d, (m.after 1).registers.get hi = .int d.quotient ∧
        (m.after 1).registers.get lo = .int d.remainder ∧ mnemonic.Divides a b d) ∧
    (b = 0 → m.step.fault = some .divisionByZero ∧
      m.step.machine.registers = m.registers) := by
  obtain ⟨f, hf⟩ : ∃ f, mnemonic.division? = some f := by
    rcases h with rfl | rfl
    · exact ⟨_, rfl⟩
    · exact ⟨_, rfl⟩
  have hexecutes : m.Executes (.instruction mnemonic ["$s0", "$s1"]) :=
    hlines.executes hm (ofLine_division hf)
  refine ⟨?_, ?_⟩
  · intro hzero
    obtain ⟨g, hstraight, hg⟩ := straight_divisionLines hf ha hb hzero
    have hpc : m.pc < m.lines.size :=
      (Array.getElem?_eq_some_iff.mp (hlines 0 _ rfl)).1
    obtain ⟨hfaults, hafter⟩ := after_straight hstraight hm hpc hlines
    obtain ⟨hhi, hlo⟩ := step_division hf hexecutes ha hb hzero
    have hafter : m.after 6 = (m.withRegisters g).goTo (m.pc + 6) := hafter
    rw [hafter]
    exact ⟨hfaults, rfl, hg, f a b, hhi, hlo, Mnemonic.divides hf hzero⟩
  · rintro rfl
    exact step_division_zero hf hexecutes ha hb

/-- The quotient that is not a word, and a division by zero. -/
theorem run_division_extreme :
    let machine (a b : Word) : Machine :=
      { lines := (divisionLines .div).toArray
        pc := 0
        registers := (RegisterFile.initial.set s0 (.int a)).set s1 (.int b) }
    let m := machine (BitVec.intMin 32) (-1)
    (m.after 6).registers.get t2 = .int (BitVec.intMin 32) ∧
      (m.after 1).registers.get hi = .int (BitVec.intMin 32) ∧
      (m.after 1).registers.get lo = .int 0 ∧
      (machine 5 0).step.fault = some .divisionByZero := by
  intro machine m
  have hholds (a b : Word) : (machine a b).Holds (divisionLines .div) := by
    intro i line hline
    show (divisionLines .div).toArray[0 + i]? = some line
    rwa [Nat.zero_add, List.getElem?_toArray]
  obtain ⟨hdivides, -⟩ := run_division (Or.inl rfl) rfl (hholds (BitVec.intMin 32) (-1)) rfl rfl
  obtain ⟨-, hzero⟩ := run_division (Or.inl rfl) rfl (hholds 5 0) rfl rfl
  obtain ⟨-, -, ht2, d, hhi, hlo, hd⟩ := hdivides (by decide)
  obtain rfl : d = ⟨BitVec.intMin 32, 0⟩ := by
    rw [Mnemonic.Divides, if_pos ⟨rfl, rfl⟩] at hd
    exact hd
  exact ⟨ht2, hhi, hlo, (hzero rfl).1⟩

end Machine

end MipsText
