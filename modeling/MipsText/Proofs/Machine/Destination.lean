/-
# `MipsText.Proofs.Machine.Destination` — where control goes

A line that is carried out goes on in one of three places:

  * at the line of a label, if it is a jump or a branch whose comparison holds
    (`Taken`), and then the label is its last operand;
  * behind the line kept in `$ra`, if it is a return;
  * at the next line in all other cases.

Labels stand on lines of the program.  So nothing but a return, or the last line when
it goes on to the next, leads out of a program.
-/
import MipsText.Proofs.Machine.Control

namespace MipsText

/-! ## Comparisons -/

/-- `m.Compares a b`: the branch `m` is taken on these two numbers.  A branch on one
value has it compared with zero. -/
def Mnemonic.Compares (m : Mnemonic) (a b : Int) : Prop :=
  match m with
  | .beq | .beqz => a = b
  | .bne | .bnez => a ≠ b
  | .bgez => a ≥ b
  | .bgtz => a > b
  | .blez => a ≤ b
  | .bltz => a < b
  | _ => False

namespace Mnemonic

variable {m : Mnemonic}

theorem pairTest?_eq_some {test : Word → Word → Bool} (h : m.pairTest? = some test) :
    m.format = .register ∧ ∀ a b, test a b = true ↔ m.Compares a.toInt b.toInt := by
  rw [pairTest?.eq_def] at h
  split at h
  case h_3 => exact nomatch h
  all_goals
    obtain rfl := Option.some.inj h
    refine ⟨rfl, fun a b => ?_⟩
    simp [Compares, BitVec.toInt_inj]

theorem zeroTest?_eq_some {test : Word → Bool} (h : m.zeroTest? = some test) :
    m.format = .immediate ∧ ∀ a, test a = true ↔ m.Compares a.toInt 0 := by
  rw [zeroTest?.eq_def] at h
  split at h
  case h_7 => exact nomatch h
  all_goals
    obtain rfl := Option.some.inj h
    refine ⟨rfl, fun a => ?_⟩
    simp [Compares]

theorem Compares.isSome_test {a b : Int} (h : m.Compares a b) :
    (m.format = .register → m.pairTest?.isSome = true) ∧
      (m.format = .immediate → m.zeroTest?.isSome = true) ∧
      m.loads = false ∧ m.stores = false := by
  cases m <;> first | exact h.elim | simp [format, pairTest?, zeroTest?, loads, stores]

end Mnemonic

namespace Intent

open Checked

/-- `Taken c m tokens`: the instruction is a jump, or a branch whose comparison holds.
A token that is meant to be a register is no label of a branch on two values. -/
inductive Taken (c : Context) (m : Mnemonic) : List String → Prop
  | jump {label : String} : m = .j ∨ m = .jal → Taken c m [label]
  | pair {first second label : String} {r : Register} {a b : Word} : m.format = .register →
      Register.ofName? first = some r → c.integer r = .ok a → comparand c second = .ok b →
      Token.namesRegister label = false → m.Compares a.toInt b.toInt →
      Taken c m [first, second, label]
  | zero {first label : String} {r : Register} {a : Word} : m.format = .immediate →
      Register.ofName? first = some r → c.integer r = .ok a → m.Compares a.toInt 0 →
      Taken c m [first, label]

/-- The line that an intent names as the next. -/
def target? : Intent → Option Nat
  | .jump target | .call target => some target
  | _ => none

theorem target?_conditional {taken : Bool} {target i : Nat} :
    (conditional taken target).target? = some i ↔ taken = true ∧ target = i := by
  cases taken <;> simp [conditional, target?]

section Resolves

variable {c : Context} {m : Mnemonic} {tokens : List String} {intent : Intent} {i : Nat}

/-- An intent that names a line comes from an instruction that is taken, and has the
line from its last operand. -/
theorem Resolves.taken (h : Resolves c m tokens intent) (hi : intent.target? = some i) :
    Taken c m tokens ∧
      ∃ label, tokens.getLast? = some label ∧ c.symbols.line? label = some i := by
  cases h with
  | pairBranch htest hr hlabel htarget ha hb =>
      obtain ⟨hformat, hcompares⟩ := Mnemonic.pairTest?_eq_some htest
      obtain ⟨holds, rfl⟩ := target?_conditional.mp hi
      exact ⟨.pair hformat hr ha hb hlabel ((hcompares _ _).mp holds), _, rfl, htarget⟩
  | zeroBranch htest hr ha htarget =>
      obtain ⟨hformat, hcompares⟩ := Mnemonic.zeroTest?_eq_some htest
      obtain ⟨holds, rfl⟩ := target?_conditional.mp hi
      exact ⟨.zero hformat hr ha ((hcompares _).mp holds), _, rfl, htarget⟩
  | jump hm htarget => exact ⟨.jump (Or.inl hm), _, rfl, Option.some.inj hi ▸ htarget⟩
  | call hm htarget => exact ⟨.jump (Or.inr hm), _, rfl, Option.some.inj hi ▸ htarget⟩
  | _ => exact nomatch hi

theorem Resolves.target?_of_taken (h : Resolves c m tokens intent) (ht : Taken c m tokens) :
    ∃ label, tokens.getLast? = some label ∧ intent.target? = c.symbols.line? label := by
  cases ht with
  | jump hm =>
      cases h with
      | one hformat => rcases hm with rfl | rfl <;> exact nomatch hformat
      | ret hjr => rcases hm with rfl | rfl <;> exact nomatch hjr
      | stay hjr => rcases hm with rfl | rfl <;> exact nomatch hjr
      | jump _ htarget => exact ⟨_, rfl, htarget.symm⟩
      | call _ htarget => exact ⟨_, rfl, htarget.symm⟩
  | pair hformat hr ha hb hlabel hcompares =>
      have htests := hcompares.isSome_test.1 hformat
      cases h with
      | three _ _ _ hregister => exact absurd (hlabel.symm.trans hregister) (by simp)
      | threeImmediate _ hnone => exact absurd htests (by simp [hnone])
      | pairBranch htest hr' _ htarget ha' hb' =>
          obtain rfl := Option.some.inj (hr.symm.trans hr')
          obtain rfl := Except.ok.inj (ha.symm.trans ha')
          obtain rfl := Except.ok.inj (hb.symm.trans hb')
          have holds := ((Mnemonic.pairTest?_eq_some htest).2 _ _).mpr hcompares
          exact ⟨_, rfl, (target?_conditional.mpr ⟨holds, rfl⟩).trans htarget.symm⟩
      | combination himmediate => exact absurd (hformat.symm.trans himmediate) (by simp)
  | zero hformat hr ha hcompares =>
      obtain ⟨-, htests, hloads, hstores⟩ := hcompares.isSome_test
      cases h with
      | two hregister => exact absurd (hformat.symm.trans hregister) (by simp)
      | load hload => exact absurd (hloads.symm.trans hload) (by simp)
      | store hstore => exact absurd (hstores.symm.trans hstore) (by simp)
      | zeroBranch htest hr' ha' htarget =>
          obtain rfl := Option.some.inj (hr.symm.trans hr')
          obtain rfl := Except.ok.inj (ha.symm.trans ha')
          have holds := ((Mnemonic.zeroTest?_eq_some htest).2 _).mpr hcompares
          exact ⟨_, rfl, (target?_conditional.mpr ⟨holds, rfl⟩).trans htarget.symm⟩
      | constant _ hnone => exact absurd (htests hformat) (by simp [hnone])
      | label _ hnone => exact absurd (htests hformat) (by simp [hnone])

theorem Resolves.eq_ret (h : Resolves c m tokens intent) :
    intent = .ret ↔
      m = .jr ∧ ∃ token, tokens = [token] ∧ Register.ofName? token = some .ra := by
  constructor
  · intro hret
    cases h with
    | ret hjr hra => exact ⟨hjr, _, rfl, hra⟩
    | pairBranch => exact absurd hret (conditional_ne (by simp) (by simp))
    | zeroBranch => exact absurd hret (conditional_ne (by simp) (by simp))
    | _ => exact nomatch hret
  · rintro ⟨rfl, token, rfl, hra⟩
    cases h with
    | one _ hjr => exact absurd rfl hjr
    | ret => rfl
    | stay _ hother => exact absurd hra hother
    | jump hj => exact nomatch hj
    | call hj => exact nomatch hj

end Resolves

section OfLine

variable {c : Context} {line : String} {intent : Intent} {i : Nat}

theorem resolves_of_ofLine {m : Mnemonic} {tokens : List String} (h : ofLine c line = .ok intent)
    (hline : Statement.ofLine line = .ok (.instruction m tokens)) : Resolves c m tokens intent := by
  obtain ⟨statement, hstatement, h⟩ := bind_eq_ok.mp h
  obtain rfl := Except.ok.inj (hline.symm.trans (liftDefect_eq_ok.mp hstatement))
  exact resolves h

theorem target?_ofLine (h : ofLine c line = .ok intent) :
    intent.target? = some i ↔
      ∃ m tokens label, Statement.ofLine line = .ok (.instruction m tokens) ∧
        Taken c m tokens ∧ tokens.getLast? = some label ∧ c.symbols.line? label = some i := by
  constructor
  · intro hi
    rcases ofLine_cases h with ⟨-, rfl⟩ | ⟨-, rfl⟩ | ⟨m, tokens, hline, hresolves⟩
    · exact nomatch hi
    · exact nomatch hi
    · obtain ⟨htaken, label, hlast, hlabel⟩ := hresolves.taken hi
      exact ⟨m, tokens, label, hline, htaken, hlast, hlabel⟩
  · rintro ⟨m, tokens, label, hline, htaken, hlast, hlabel⟩
    obtain ⟨_, hlast', htarget⟩ := (resolves_of_ofLine h hline).target?_of_taken htaken
    obtain rfl := Option.some.inj (hlast.symm.trans hlast')
    exact htarget.trans hlabel

theorem ofLine_eq_ret (h : ofLine c line = .ok intent) :
    intent = .ret ↔
      ∃ token, Statement.ofLine line = .ok (.instruction .jr [token]) ∧
        Register.ofName? token = some .ra := by
  constructor
  · rintro rfl
    rcases ofLine_cases h with ⟨-, hret⟩ | ⟨-, hret⟩ | ⟨m, tokens, hline, hresolves⟩
    · exact nomatch hret
    · exact nomatch hret
    · obtain ⟨rfl, token, rfl, hra⟩ := hresolves.eq_ret.mp rfl
      exact ⟨token, hline, hra⟩
  · rintro ⟨token, hline, hra⟩
    exact (resolves_of_ofLine h hline).eq_ret.mpr ⟨rfl, token, rfl, hra⟩

end OfLine

end Intent

namespace Program

variable {source : Stream} {p : Program}

theorem lines_size (h : (assemble source).1 = .ok p) : p.lines.size = source.lines.length := by
  obtain ⟨-, rfl⟩ := assemble_eq_ok.mp h
  exact Assembly.lineNumber_ofLines source.lines

theorem line?_lt_size (h : (assemble source).1 = .ok p) {label : String} {i : Nat}
    (hlabel : p.symbols.line? label = some i) : i < p.lines.size := by
  rw [lines_size h]
  obtain ⟨-, rfl⟩ := assemble_eq_ok.mp h
  obtain ⟨⟨rest, hrest⟩, -⟩ := (Assembly.line?_ofLines i).mp hlabel
  exact hrest.lt_length

theorem entry_le_lines_size (h : (assemble source).1 = .ok p) : p.entry ≤ p.lines.size := by
  rw [lines_size h]
  obtain ⟨-, rfl⟩ := assemble_eq_ok.mp h
  exact entry_le_size source.lines

end Program

namespace Machine

/-! ## Changes of direction -/

/-- `m.Jumps p i`: the current line is a jump or a branch that is taken, and its last
operand is a label that `p` has on line `i`. -/
def Jumps (m : Machine) (p : Program) (i : Nat) : Prop :=
  ∃ line mnemonic tokens label, m.line? = some line ∧
    Statement.ofLine line = .ok (.instruction mnemonic tokens) ∧
    Intent.Taken m.toContext mnemonic tokens ∧
    tokens.getLast? = some label ∧ p.symbols.line? label = some i

/-- `m.Returns i`: the current line is a jump through `$ra`, which has the line before
line `i`. -/
def Returns (m : Machine) (i : Nat) : Prop :=
  ∃ line token address, m.line? = some line ∧
    Statement.ofLine line = .ok (.instruction .jr [token]) ∧
    Register.ofName? token = some .ra ∧ m.integer .ra = .ok address ∧
    (i : Int) = address.toInt + 1

section Line

variable {m : Machine} {p : Program} {line : String} {intent : Intent} {i : Nat}

theorem jumps_iff (hlabels : m.symbols.lines = p.symbols.lines) (hline : m.line? = some line)
    (hintent : Intent.ofLine m.toContext line = .ok intent) :
    m.Jumps p i ↔ intent.target? = some i := by
  have hline? : m.symbols.line? = p.symbols.line? := by
    funext label
    rw [Symbols.line?, hlabels, Symbols.line?]
  rw [Intent.target?_ofLine hintent, hline?]
  constructor
  · rintro ⟨_, mnemonic, tokens, label, hline', hjump⟩
    obtain rfl := Option.some.inj (hline.symm.trans hline')
    exact ⟨mnemonic, tokens, label, hjump⟩
  · rintro ⟨mnemonic, tokens, label, hjump⟩
    exact ⟨line, mnemonic, tokens, label, hline, hjump⟩

theorem returns_iff (hline : m.line? = some line)
    (hintent : Intent.ofLine m.toContext line = .ok intent) :
    m.Returns i ↔ intent = .ret ∧ ∃ address, m.integer .ra = .ok address ∧
      (i : Int) = address.toInt + 1 := by
  rw [Intent.ofLine_eq_ret hintent]
  constructor
  · rintro ⟨_, token, address, hline', hjr, htoken, haddress⟩
    obtain rfl := Option.some.inj (hline.symm.trans hline')
    exact ⟨⟨token, hjr, htoken⟩, address, haddress⟩
  · rintro ⟨⟨token, hjr, htoken⟩, address, haddress⟩
    exact ⟨line, token, address, hline, hjr, htoken, haddress⟩

end Line

/-! ## Evaluation -/

theorem returnTarget_eq_ok {address : Word} {target : Nat} (h : returnTarget address = .ok target) :
    (target : Int) = address.toInt + 1 := by
  simp only [returnTarget] at h
  split at h
  · next hrange =>
      obtain rfl := Except.ok.inj h
      exact Int.toNat_of_nonneg hrange.1
  · exact nomatch h

theorem Served.target {m : Machine} {change : Change} (h : Served m change) (pc : Nat) :
    change.target pc = pc + 1 := by
  cases h <;> rfl

theorem Evaluates.destination {m : Machine} {intent : Intent} {change : Change}
    (h : Evaluates m intent change) :
    (intent.target? = none ∧ intent ≠ .ret ∧ change.target m.pc = m.pc + 1) ∨
    intent.target? = some (change.target m.pc) ∨
    (intent = .ret ∧ ∃ address, m.integer .ra = .ok address ∧
      (change.target m.pc : Int) = address.toInt + 1) := by
  cases h with
  | act h =>
      refine Or.inl ⟨rfl, nofun, ?_⟩
      rcases Mnemonic.Action.evaluate_shape h with rfl | ⟨_, _, rfl⟩ | ⟨_, _, rfl⟩ <;> rfl
  | jump => exact Or.inr (Or.inl rfl)
  | call => exact Or.inr (Or.inl rfl)
  | ret haddress htarget =>
      exact Or.inr (Or.inr ⟨rfl, _, haddress, returnTarget_eq_ok htarget⟩)
  | service h => exact Or.inl ⟨rfl, nofun, h.target m.pc⟩
  | _ => exact Or.inl ⟨rfl, nofun, rfl⟩

/-! ## Steps and runs -/

section Step

variable {m m' : Machine} {p : Program} {fault : Option Fault}

/-- Where a step goes that carries out its line. -/
theorem Stepped.destination (h : Stepped m m' fault) (hm : m.status = .running)
    (hpc : m.pc < m.lines.size) (hlabels : m.symbols.lines = p.symbols.lines)
    (hm' : m'.status = .running ∨ m'.status = .stopped .endOfProgram) :
    (m'.pc = m.pc + 1 ∧ ∀ i, ¬ m.Jumps p i ∧ ¬ m.Returns i) ∨
      m.Jumps p m'.pc ∨ m.Returns m'.pc := by
  cases h with
  | idle hstopped => exact absurd (hm.symm.trans hstopped) (by simp)
  | ended _ hline => exact absurd hpc (Nat.not_lt.mpr (size_le_pc_of_line?_eq_none hline))
  | @changed line intent change _ hline hintent hchange =>
      have hexit : change ≠ .exit := by
        rintro rfl
        rcases hm' with h | h <;> exact nomatch h
      rw [apply_pc m hexit]
      simp only [jumps_iff hlabels hline hintent, returns_iff hline hintent]
      rcases hchange.destination with ⟨htarget, hret, hnext⟩ | htarget | hret
      · exact Or.inl ⟨hnext, fun i => ⟨by simp [htarget], fun h => hret h.1⟩⟩
      · exact Or.inr (Or.inl htarget)
      · exact Or.inr (Or.inr hret)
  | halted => rcases hm' with h | h <;> exact nomatch h
  | faulted => rcases hm' with h | h <;> exact nomatch h

end Step

section Run

variable {source : Stream} {p : Program}

/-- A machine that stands behind the last line while it runs has not made a step. -/
theorem entry_eq_size_of_size_le_pc (h : (Program.assemble source).1 = .ok p)
    {policy : ReferencePolicy} {input : Stream} {limit : Option Nat} {n : Nat}
    (hm : ((start p policy input limit).after n).status = .running)
    (hpc : p.lines.size ≤ ((start p policy input limit).after n).pc) :
    n = 0 ∧ p.entry = p.lines.size := by
  cases n with
  | zero => exact ⟨rfl, Nat.le_antisymm (Program.entry_le_lines_size h) hpc⟩
  | succ n =>
      have hplace := inPlace_after_succ (m := start p policy input limit) rfl
        (Program.trim_of_mem_lines h) n
      rw [InPlace, hm, (lines_after _ _).1] at hplace
      exact absurd hplace (Nat.not_lt.mpr hpc)

/-- Control never leaves a program through a label.  A line that is carried out goes on
at the label of a jump or of a branch that is taken, which is a line of the program;
or behind the line in `$ra`, when it is a jump through that register; or else at the
next line.  So a run ends behind its last line only when this line goes on to the next,
by a return, or at once. -/
theorem run_destination (h : (Program.assemble source).1 = .ok p)
    (policy : ReferencePolicy) (input : Stream) (limit : Option Nat) (n : Nat) :
    let m := (start p policy input limit).after n
    let m' := m.step.machine
    m.status = .running →
      (m.pc < p.lines.size → m'.status = .running ∨ m'.status = .stopped .endOfProgram →
        (m'.pc = m.pc + 1 ∧ ∀ i, ¬ m.Jumps p i ∧ ¬ m.Returns i) ∨
        (m.Jumps p m'.pc ∧ m'.pc < p.lines.size ∧ m'.status = .running) ∨
        m.Returns m'.pc) ∧
      (m'.status = .stopped .endOfProgram →
        (m.pc + 1 = p.lines.size ∧ m'.pc = m.pc + 1) ∨ m.Returns m'.pc ∨
          n = 0 ∧ p.entry = p.lines.size) := by
  intro m m' hm
  obtain ⟨hlines, hlabels⟩ := lines_after (start p policy input limit) n
  have hlines' : m'.lines = p.lines := (lines_after (start p policy input limit) (n + 1)).1
  have hend : m'.status = .stopped .endOfProgram → p.lines.size ≤ m'.pc := by
    intro hs
    have hplace : m'.InPlace := inPlace_after_succ rfl (Program.trim_of_mem_lines h) n
    rwa [InPlace, hs, hlines'] at hplace
  have hjump : m.Jumps p m'.pc → m'.pc < p.lines.size := by
    rintro ⟨-, -, -, label, -, -, -, -, hlabel⟩
    exact Program.line?_lt_size h hlabel
  have hnext := fun hpc : m.pc < m.lines.size => (stepped m).destination hm hpc hlabels
  rw [hlines] at hnext
  refine ⟨fun hpc hm' => ?_, fun hs => ?_⟩
  · rcases hnext hpc hm' with hstay | hjumps | hreturns
    · exact Or.inl hstay
    · refine Or.inr (Or.inl ⟨hjumps, hjump hjumps, hm'.resolve_right fun hs => ?_⟩)
      exact absurd (hjump hjumps) (Nat.not_lt.mpr (hend hs))
    · exact Or.inr (Or.inr hreturns)
  · rcases Nat.lt_or_ge m.pc p.lines.size with hpc | hpc
    · rcases hnext hpc (Or.inr hs) with ⟨hstay, -⟩ | hjumps | hreturns
      · exact Or.inl ⟨Nat.le_antisymm hpc (hstay ▸ hend hs), hstay⟩
      · exact absurd (hjump hjumps) (Nat.not_lt.mpr (hend hs))
      · exact Or.inr (Or.inl hreturns)
    · exact Or.inr (Or.inr (entry_eq_size_of_size_le_pc h hm hpc))

/-- A branch that is taken, and a return that leads out of the program. -/
theorem run_destination_returning :
    let source := Stream.ofString ".text\nli $ra, 7\nbeq $zero, 0, out\nli $v0, 10\nout: jr $31\n"
    let p := (Assembly.ofLines source.lines).program
    let m := (start p .strict (Stream.ofString "") none).after
    (m 1).Jumps p 4 ∧ (m 2).Returns 8 ∧ (m 3).status = .stopped .endOfProgram := by
  intro source p m
  have hp : (Program.assemble source).1 = .ok p := Program.assemble_eq_ok.mpr ⟨rfl, rfl⟩
  obtain ⟨hpc, hrunning, hpc', hrunning', hpc'', hend⟩ :
      (m 1).pc = 2 ∧ (m 1).status = .running ∧ (m 2).pc = 4 ∧ (m 2).status = .running ∧
        (m 3).pc = 8 ∧ (m 3).status = .stopped .endOfProgram := by
    decide +kernel
  have hsize : p.lines.size = 5 := by decide +kernel
  have hline : (m 1).line? = some "beq $zero, 0, out" := by decide +kernel
  have hstep : ∀ n, (m n).step.machine = m (n + 1) := fun _ => rfl
  have hnext := run_destination hp .strict (Stream.ofString "") none
  have hm : (start p .strict (Stream.ofString "") none).after = m := rfl
  -- from here on the runs are not to be evaluated again
  clear_value m
  simp only [hm, hstep] at hnext
  obtain ⟨hbranch, -⟩ := hnext 1 hrunning
  obtain ⟨-, hreturn⟩ := hnext 2 hrunning'
  refine ⟨?_, ?_, hend⟩
  · rcases hbranch (by omega) (Or.inl hrunning') with ⟨hfell, -⟩ | h | h
    · exact absurd (hpc'.symm.trans hfell) (by omega)
    · exact hpc' ▸ h.1
    · obtain ⟨_, token, address, hline', hjr, -⟩ := h
      obtain rfl := Option.some.inj (hline.symm.trans hline')
      exact nomatch hjr
  · rcases hreturn hend with ⟨-, hfell⟩ | h | h
    · exact absurd (hpc''.symm.trans hfell) (by omega)
    · exact hpc'' ▸ h
    · exact nomatch h.1

end Run

end Machine

end MipsText
