/-
# `MipsText.Proofs.Machine.Insertion` — a blank line more does not show

A program that makes no calls and no returns and refers to no label of a line never gets
hold of a line number (`Program.LineBlind`).  With a blank line inserted, it does what it did
before.  `Machine.inserted k m` is the machine `m` in the longer program, and the two go
step by step, with one exception: where `m` goes on to line `k` from the line above, the
other machine stands on the blank line first (`Machine.lagging`).  It takes one step more
there, which does nothing, and is level again.  A jump to line `k` skips the blank line,
since its label has moved.

So `Machine.Tracks`, "level or one blank line behind", is kept by steps and carried through
whole runs.  What is left of line numbers is the ending of a run, which names the line it
happened on.
-/
import MipsText.Proofs.Instruction.Comparison
import MipsText.Proofs.Machine.Destination
import MipsText.Proofs.Machine.Provenance
import MipsText.Proofs.Machine.Run
import MipsText.Proofs.Source.Insertion

namespace MipsText

open Checked

/-! ## Lines and their operands -/

def Context.shifted (k : Nat) (c : Context) : Context :=
  { c with symbols := c.symbols.shifted k }

namespace Intent

abbrev shifted (k : Nat) : Intent → Intent :=
  moved (Source.shifted k)

theorem shifted_of_target?_eq_none {intent : Intent} (h : intent.target? = none) (k : Nat) :
    intent.shifted k = intent := by
  cases intent with
  | jump target => exact nomatch h
  | call target => exact nomatch h
  | _ => rfl

theorem ofLine_shifted (k : Nat) (c : Context) (line : String) :
    Mapped (shifted k) (ofLine c line) (ofLine (c.shifted k) line) := by
  have hmatches (tokens : List String) :
      Context.Matches (fun _ => False) (Source.shifted k) tokens c (c.shifted k) :=
    ⟨Symbols.line?_shifted k c.symbols, fun _ _ _ _ => .refl fun _ _ => id, fun _ _ _ _ => rfl,
      fun _ => id⟩
  exact (ofLine_relaxes (fun _ => id) fun _ tokens _ => hmatches tokens).mapped

theorem ne_of_mnemonic?_ne {c : Context} {line : String} {intent : Intent}
    (h : ofLine c line = .ok intent) (hjal : Statement.mnemonic? line ≠ some .jal)
    (hjr : Statement.mnemonic? line ≠ some .jr) :
    intent ≠ .ret ∧ ∀ target, intent ≠ .call target := by
  constructor
  · rintro rfl
    obtain ⟨token, hline, -⟩ := (ofLine_eq_ret h).mp rfl
    exact hjr (Statement.mnemonic?_of_instruction hline)
  · rintro target rfl
    obtain ⟨m, tokens, hline, hresolves⟩ := instruction_of_ofLine h nofun nofun
    refine hjal ?_
    rw [Statement.mnemonic?_of_instruction hline]
    generalize hcall : Intent.call target = intent at hresolves
    cases hresolves with
    | call hm => exact congrArg some hm
    | pairBranch => exact absurd hcall.symm (conditional_ne (by simp) (by simp))
    | zeroBranch => exact absurd hcall.symm (conditional_ne (by simp) (by simp))
    | _ => exact nomatch hcall

end Intent

/-! ## Changes and endings -/

def Change.shifted (k : Nat) : Change → Change
  | .jump target => .jump (Source.shifted k target)
  | .call target => .call (Source.shifted k target)
  | change => change

/-- A change leads to the moved line, or to the line above the one where it led. -/
theorem Change.target_shifted (k pc : Nat) (change : Change) :
    (change.shifted k).target (Source.shifted k pc) = Source.shifted k (change.target pc) ∨
      change.target pc = k ∧ (change.shifted k).target (Source.shifted k pc) = k := by
  have hnext : Source.shifted k pc + 1 = Source.shifted k (pc + 1) ∨
      pc + 1 = k ∧ Source.shifted k pc + 1 = k := by
    by_cases hpc : pc + 1 = k
    · rw [Source.shifted_of_lt (by omega)]
      exact Or.inr ⟨hpc, hpc⟩
    · exact Or.inl (Source.shifted_succ hpc).symm
  cases change with
  | jump target => exact Or.inl rfl
  | call target => exact Or.inl rfl
  | _ => exact hnext

def Ending.shifted (k : Nat) : Ending → Ending
  | .halted line reason => .halted (Source.shifted k line) reason
  | .faulted line => .faulted (Source.shifted k line)
  | why => why

def Status.shifted (k : Nat) : Status → Status
  | .running => .running
  | .stopped why => .stopped (why.shifted k)

theorem Symbols.describe_shifted {s : Symbols} {cell : Cell}
    (h : ∀ label, cell = .ref label → s.line? label = none) (k : Nat) :
    (s.shifted k).describe cell = s.describe cell := by
  cases cell with
  | int value => rfl
  | ref label =>
      have hnone : s.lines[label]? = none := h label rfl
      have hnone' : (s.shifted k).lines[label]? = none :=
        (line?_shifted k s label).trans (congrArg (Option.map _) hnone)
      rw [describe, describe, hnone, hnone']
      rfl

namespace Machine

/-- The machine in the program with a blank line more, at `k`. -/
def inserted (k : Nat) (m : Machine) : Machine :=
  { m with
    symbols := m.symbols.shifted k
    lines := Source.withBlank k m.lines
    pc := Source.shifted k m.pc
    status := m.status.shifted k }

/-- The same machine when it stands on the blank line. -/
def lagging (k : Nat) (m : Machine) : Machine :=
  { m.inserted k with
    pc := k
    status := .running }

/-- `Tracks k m m'`: in the program with a blank line more, `m'` is level with `m`, or it
is on the blank line and `m` has just gone on to the line below. -/
inductive Tracks (k : Nat) (m : Machine) : Machine → Prop
  | level : Tracks k m (m.inserted k)
  | behind : m.pc = k →
      m.status = (if k < m.lines.size then .running else .stopped .endOfProgram) →
      Tracks k m (m.lagging k)

/-! ## Evaluating -/

section Evaluate

variable {m : Machine} {k : Nat}

/-- No register refers to a label of a line. -/
def Unlined (m : Machine) : Prop :=
  ∀ r label, m.registers.get r = .ref label → m.symbols.line? label = none

theorem callService_inserted (h : m.Unlined) : (m.inserted k).callService = m.callService :=
  callService_congr rfl (Symbols.describe_shifted (h .a0) k) rfl rfl rfl rfl

theorem Evaluates.shifted_eq {intent : Intent} {change : Change} (h : Evaluates m intent change)
    (htarget : intent.target? = none) (hret : intent ≠ .ret) : change.shifted k = change := by
  cases h with
  | act hact =>
      rcases Mnemonic.Action.evaluate_shape hact with rfl | ⟨_, _, rfl⟩ | ⟨_, _, rfl⟩ <;> rfl
  | jump => exact nomatch htarget
  | call => exact nomatch htarget
  | ret => exact absurd rfl hret
  | service hserved => cases hserved <;> rfl
  | _ => rfl

theorem Evaluates.ne_call {intent : Intent} {change : Change} (h : Evaluates m intent change)
    (hcall : ∀ target, intent ≠ .call target) (target : Nat) : change ≠ .call target := by
  cases h with
  | act hact =>
      rcases Mnemonic.Action.evaluate_shape hact with rfl | ⟨_, _, rfl⟩ | ⟨_, _, rfl⟩ <;>
        exact nofun
  | call => exact absurd rfl (hcall _)
  | service hserved => cases hserved <;> exact nofun
  | _ => exact nofun

theorem evaluate_mapped {intent : Intent} (h : m.Unlined) (hret : intent ≠ .ret) :
    Mapped (Change.shifted k) (m.evaluate intent) ((m.inserted k).evaluate (intent.shifted k)) := by
  cases htarget : intent.target? with
  | some target =>
      cases intent with
      | jump target => rfl
      | call target => rfl
      | _ => exact nomatch htarget
  | none =>
      have hsame : (m.inserted k).evaluate intent = m.evaluate intent := by
        cases intent with
        | service => exact congrArg (Except.mapError _) (callService_inserted h)
        | act mnemonic operands =>
            have haction : mnemonic.action.evaluate (m.toContext.shifted k) operands =
                mnemonic.action.evaluate m.toContext operands := by
              cases mnemonic.action <;> rfl
            exact congrArg (Except.mapError (·, m.toConsole)) haction
        | _ => rfl
      rw [Intent.shifted_of_target?_eq_none htarget, hsame]
      exact .same fun change hchange => (evaluates hchange).shifted_eq htarget hret

theorem outcome_mapped {line : String} (h : m.Unlined)
    (hjal : Statement.mnemonic? line ≠ some .jal) (hjr : Statement.mnemonic? line ≠ some .jr) :
    Mapped (Change.shifted k) (m.outcome (Intent.ofLine m.toContext line))
      ((m.inserted k).outcome (Intent.ofLine (m.inserted k).toContext line)) := by
  have hresolved : Intent.ofLine (m.inserted k).toContext line =
      (Intent.ofLine m.toContext line).map (Intent.shifted k) :=
    Intent.ofLine_shifted k m.toContext line
  rw [hresolved]
  cases hintent : Intent.ofLine m.toContext line with
  | error stop => rfl
  | ok intent => exact evaluate_mapped h (Intent.ne_of_mnemonic?_ne hintent hjal hjr).1

end Evaluate

/-! ## Steps -/

section Step

variable {m : Machine} {k : Nat}

theorem line?_inserted : (m.inserted k).line? = m.line? :=
  Source.getElem?_withBlank_shifted m.pc

theorem goTo_inserted (hk : k ≤ m.lines.size) (target : Nat) :
    (m.inserted k).goTo (Source.shifted k target) = (m.goTo target).inserted k := by
  have hstatus : (if Source.shifted k target < (Source.withBlank k m.lines).size
        then m.status.shifted k else .stopped .endOfProgram) =
      (if target < m.lines.size then m.status else .stopped .endOfProgram).shifted k := by
    rw [Source.size_withBlank hk, apply_ite (Status.shifted k)]
    simp only [Source.shifted_lt_succ hk]
    rfl
  exact congrArg (fun status =>
    { m.inserted k with pc := Source.shifted k target, status := status }) hstatus

theorem goTo_lagging (hm : m.status = .running) (hk : k ≤ m.lines.size) :
    (m.inserted k).goTo k = (m.goTo k).lagging k := by
  have hstatus : ((m.inserted k).goTo k).status = .running := by
    show (if k < (Source.withBlank k m.lines).size then m.status.shifted k else _) = _
    rw [Source.size_withBlank hk, if_pos (Nat.lt_succ_of_le hk), hm]
    rfl
  rw [lagging, ← hstatus]
  rfl

theorem updated_inserted {change : Change} (hcall : ∀ target, change ≠ .call target) :
    (m.inserted k).updated (change.shifted k) = (m.updated change).inserted k := by
  cases change with
  | call target => exact absurd rfl (hcall target)
  | _ => rfl

theorem tracks_apply {change : Change} (hm : m.status = .running) (hk : k ≤ m.lines.size)
    (hcall : ∀ target, change ≠ .call target) :
    Tracks k (m.apply change) ((m.inserted k).apply (change.shifted k)) := by
  by_cases hexit : change = .exit
  · subst hexit
    exact .level
  · have hexit' : change.shifted k ≠ .exit := by
      cases change with
      | exit => exact absurd rfl hexit
      | _ => exact nofun
    have hk' : k ≤ (m.updated change).lines.size := by
      rwa [updated_lines]
    have hm' : (m.updated change).status = .running := (updated_status m change).trans hm
    rw [apply_eq_goTo m hexit, apply_eq_goTo (m.inserted k) hexit', updated_inserted hcall]
    rcases change.target_shifted k m.pc with hlevel | ⟨htarget, hbehind⟩
    · show Tracks k _ (goTo _ ((change.shifted k).target (Source.shifted k m.pc)))
      rw [hlevel, goTo_inserted hk']
      exact .level
    · show Tracks k _ (goTo _ ((change.shifted k).target (Source.shifted k m.pc)))
      rw [hbehind, htarget, goTo_lagging hm' hk']
      refine .behind rfl ?_
      show (if k < (m.updated change).lines.size then (m.updated change).status else _) = _
      rw [hm']
      rfl

/-- A step on a line that is no call and no return. -/
theorem step_tracks (hm : m.status = .running) (hk : k ≤ m.lines.size) (h : m.Unlined)
    (hplain : ∀ line, m.line? = some line →
      Statement.mnemonic? line ≠ some .jal ∧ Statement.mnemonic? line ≠ some .jr) :
    (m.inserted k).step.fault = m.step.fault ∧
      Tracks k m.step.machine (m.inserted k).step.machine := by
  have hm' : (m.inserted k).status = .running := congrArg (Status.shifted k) hm
  cases hline : m.line? with
  | none =>
      rw [step_of_end hm hline, step_of_end hm' (line?_inserted.trans hline)]
      exact ⟨rfl, .level⟩
  | some line =>
      obtain ⟨hjal, hjr⟩ := hplain line hline
      obtain ⟨hmachine, hfault⟩ := step_of_outcome hm hline rfl
      obtain ⟨hmachine', hfault'⟩ := step_of_outcome hm' (line?_inserted.trans hline) rfl
      rw [hmachine, hfault, hmachine', hfault', outcome_mapped (k := k) h hjal hjr]
      cases hresult : m.outcome (Intent.ofLine m.toContext line) with
      | error e =>
          obtain ⟨stop, rest⟩ := e
          cases stop <;> exact ⟨rfl, .level⟩
      | ok change =>
          obtain ⟨intent, hintent, hchange⟩ := outcome_eq_ok hresult
          have hcall := (Intent.ne_of_mnemonic?_ne hintent hjal hjr).2
          exact ⟨rfl, tracks_apply hm hk (hchange.ne_call hcall)⟩

/-- The step on the blank line does nothing, and the machine is level again. -/
theorem step_lagging (hk : k ≤ m.lines.size) (hpc : m.pc = k)
    (hm : m.status = (if k < m.lines.size then .running else .stopped .endOfProgram)) :
    (m.lagging k).step.machine = m.inserted k ∧ (m.lagging k).step.fault = none := by
  have hline : (m.lagging k).line? = some "" := Source.getElem?_withBlank_self hk
  have hblank : Intent.ofLine (m.lagging k).toContext "" = .ok .nothing := rfl
  obtain ⟨hmachine, hfault⟩ := step_of_evaluate (m := m.lagging k) rfl hline hblank rfl
  refine ⟨hmachine.trans ?_, hfault⟩
  have hstatus : ((m.lagging k).goTo (k + 1)).status = m.status.shifted k := by
    show (if k + 1 < (Source.withBlank k m.lines).size then Status.running else _) = _
    rw [Source.size_withBlank hk, hm, apply_ite (Status.shifted k)]
    simp only [Nat.add_lt_add_iff_right]
    rfl
  have hnext : Source.shifted k m.pc = k + 1 := by
    rw [hpc, Source.shifted_of_le (Nat.le_refl k)]
  show (m.lagging k).goTo (k + 1) = _
  rw [inserted, hnext, ← hstatus]
  rfl

end Step

end Machine

/-! ## Runs -/

/-- A program that never gets hold of a line number: it has no calls and no returns, and
no `la` that names a label of a line. -/
structure Program.LineBlind (p : Program) : Prop where
  noCall : ∀ line ∈ p.lines, Statement.mnemonic? line ≠ some .jal
  noReturn : ∀ line ∈ p.lines, Statement.mnemonic? line ≠ some .jr
  noReference : ∀ line ∈ p.lines, ∀ label, Statement.referent? line = some label →
    p.symbols.line? label = none

instance (p : Program) : Decidable p.LineBlind :=
  decidable_of_iff ((∀ line ∈ p.lines, Statement.mnemonic? line ≠ some .jal) ∧
      (∀ line ∈ p.lines, Statement.mnemonic? line ≠ some .jr) ∧
      ∀ line ∈ p.lines, ∀ label ∈ Statement.referent? line, p.symbols.line? label = none)
    ⟨fun ⟨hcall, hreturn, hreference⟩ => ⟨hcall, hreturn, hreference⟩,
      fun h => ⟨h.noCall, h.noReturn, h.noReference⟩⟩

namespace Machine

section Run

variable {p : Program} {m m' : Machine} {k : Nat} {keep : Event → Bool}

theorem Provenance.unlined (hm : Provenance p m) (hp : p.LineBlind)
    (hlabels : m.symbols.lines = p.symbols.lines) : m.Unlined := by
  intro r label hr
  obtain ⟨-, line, hline, hspells⟩ := hm.refers r label hr
  have hnone := hp.noReference line hline label (Statement.referent?_eq_some.mpr hspells)
  rwa [Symbols.line?, ← hlabels] at hnone

theorem Tracks.eq_of_faulted {line : Nat} (h : Tracks k m m')
    (hm : m.status = .stopped (.faulted line)) : m' = m.inserted k := by
  cases h with
  | level => rfl
  | behind _ hstatus =>
      rw [hm] at hstatus
      split at hstatus <;> exact nomatch hstatus

theorem Tracks.endsIn {P : Run → Prop} (h : Tracks k m m') (hk : k ≤ m.lines.size)
    (hlevel : EndsIn keep P (m.inserted k)) : EndsIn keep P m' := by
  cases h with
  | level => exact hlevel
  | behind hpc hstatus =>
      obtain ⟨hmachine, hfault⟩ := step_lagging hk hpc hstatus
      refine .of_step rfl hfault ?_
      rwa [hmachine]

/-- `Matches k r r'`: the run `r'` of the longer program ends as `r` does. -/
def Matches (k : Nat) (r r' : Run) : Prop :=
  r'.machine = r.machine.inserted k ∧ r'.result = r.result.map (Ending.shifted k)

theorem endsIn_of_stopped {why : Ending} {fuel : Nat} {seen : Array Event} {r : Run}
    (hm : m.status = .stopped why) (hrun : m.runFrom keep seen fuel = some r) :
    EndsIn keep (Matches k r) (m.inserted k) := by
  obtain rfl := Option.some.inj ((runFrom_of_stopped hm fuel).symm.trans hrun)
  have hm' : (m.inserted k).status = .stopped (why.shifted k) := congrArg (Status.shifted k) hm
  exact fun seen' => ⟨0, _, runFrom_of_stopped hm' 0, rfl, rfl⟩

/-- The machine that tracks another ends when the other does, and as it does.  The induction
is on the steps that the other may take. -/
theorem endsIn_of_tracks (hp : p.LineBlind) (hk : k ≤ p.lines.size) {fuel : Nat}
    {seen : Array Event} {r : Run} (htracks : Tracks k m m') (hm : Provenance p m)
    (hlabels : m.symbols.lines = p.symbols.lines) (hrun : m.runFrom keep seen fuel = some r) :
    EndsIn keep (Matches k r) m' := by
  have hsize : k ≤ m.lines.size := hm.lines ▸ hk
  induction fuel generalizing m m' seen with
  | zero =>
      refine htracks.endsIn hsize ?_
      cases hstatus : m.status with
      | stopped why => exact endsIn_of_stopped hstatus hrun
      | running => exact nomatch (runFrom_zero hstatus).symm.trans hrun
  | succ fuel ih =>
      refine htracks.endsIn hsize ?_
      cases hstatus : m.status with
      | stopped why => exact endsIn_of_stopped hstatus hrun
      | running =>
          have hstatus' : (m.inserted k).status = .running := congrArg (Status.shifted k) hstatus
          have hplain : ∀ line, m.line? = some line → Statement.mnemonic? line ≠ some .jal ∧
              Statement.mnemonic? line ≠ some .jr := by
            intro line hline
            have hmem : line ∈ p.lines := hm.lines ▸ Array.mem_of_getElem? hline
            exact ⟨hp.noCall line hmem, hp.noReturn line hmem⟩
          obtain ⟨hfault, hnext⟩ := step_tracks hstatus hsize (hm.unlined hp hlabels) hplain
          cases hsome : m.step.fault with
          | none =>
              rw [runFrom_of_step hstatus hsome] at hrun
              obtain ⟨hlines', hlabels'⟩ := (stepped m).lines_eq
              refine .of_step hstatus' (hfault.trans hsome) ?_
              exact ih hnext ((stepped m).provenance hm) (hlabels'.trans hlabels) hrun
                (hlines' ▸ hsize)
          | some fault =>
              rw [runFrom_of_fault hstatus hsome] at hrun
              obtain rfl := Option.some.inj hrun
              obtain ⟨-, line, hfaulted⟩ := (stepped m).fault_iff.mp (by simp [hsome])
              intro seen'
              exact ⟨1, _, runFrom_of_fault hstatus' (hfault.trans hsome) 0,
                hnext.eq_of_faulted hfaulted, rfl⟩

theorem tracks_start {policy : ReferencePolicy} {input : Stream} {limit : Option Nat}
    (h : p.entry = k → k < p.lines.size) :
    Tracks k (start p policy input limit) (start (p.inserted k) policy input limit) := by
  have hentry : (p.inserted k).entry = if p.entry ≤ k then p.entry else p.entry + 1 := rfl
  by_cases heq : p.entry = k
  · rw [if_pos (Nat.le_of_eq heq), heq] at hentry
    have hstart : start (p.inserted k) policy input limit =
        (start p policy input limit).lagging k :=
      congrArg (fun pc => { (start p policy input limit).inserted k with pc := pc }) hentry
    rw [hstart]
    exact .behind heq (if_pos (h heq)).symm
  · have hshifted : (p.inserted k).entry = Source.shifted k p.entry := by
      rw [hentry, Source.shifted]
      split <;> split <;> omega
    have hstart : start (p.inserted k) policy input limit =
        (start p policy input limit).inserted k :=
      congrArg (fun pc => { (start p policy input limit).inserted k with pc := pc }) hshifted
    rw [hstart]
    exact .level

/-- With nothing behind the entry, the first step finds the end of the program, or the blank
line in its place. -/
theorem tracks_start_end {policy : ReferencePolicy} {input : Stream} {limit : Option Nat}
    (hentry : p.entry = k) (hk : p.lines.size = k) :
    Tracks k (start p policy input limit).step.machine
        (start (p.inserted k) policy input limit) ∧
      (start p policy input limit).step.fault = none := by
  have hline : (start p policy input limit).line? = none :=
    Array.getElem?_eq_none (Nat.le_of_eq (hk.trans hentry.symm))
  have hentry' : (p.inserted k).entry = k := (if_pos (Nat.le_of_eq hentry)).trans hentry
  have hstart : start (p.inserted k) policy input limit =
      ((start p policy input limit).stop .endOfProgram).lagging k :=
    congrArg (fun pc => { (start p policy input limit).inserted k with pc := pc }) hentry'
  rw [step_of_end rfl hline, hstart]
  exact ⟨.behind hentry (if_neg (Nat.not_lt.mpr (Nat.le_of_eq hk))).symm, rfl⟩

theorem endsIn_start (hp : p.LineBlind) (hk : k ≤ p.lines.size) {policy : ReferencePolicy}
    {input : Stream} {limit : Option Nat} {fuel : Nat} {r : Run}
    (hrun : (start p policy input limit).run keep fuel = some r) :
    EndsIn keep (Matches k r) (start (p.inserted k) policy input limit) := by
  have hprovenance := provenance_start p policy input limit
  by_cases hend : p.entry = k ∧ p.lines.size = k
  · obtain ⟨htracks, hfault⟩ : Tracks k (start p policy input limit).step.machine
          (start (p.inserted k) policy input limit) ∧
        (start p policy input limit).step.fault = none := tracks_start_end hend.1 hend.2
    cases fuel with
    | zero => exact nomatch (runFrom_zero rfl).symm.trans hrun
    | succ fuel =>
        rw [run, runFrom_of_step rfl hfault] at hrun
        have hstepped := stepped (start p policy input limit)
        exact endsIn_of_tracks hp hk htracks (hstepped.provenance hprovenance)
          hstepped.lines_eq.2 hrun
  · have htracks :
        Tracks k (start p policy input limit) (start (p.inserted k) policy input limit) :=
      tracks_start fun hentry => by omega
    exact endsIn_of_tracks hp hk htracks hprovenance rfl hrun

end Run

/-- A blank line more does not show.  Take a source whose program never gets hold of a line
number, and a second one that has a line more, of which nothing is left without its comment
and outer blanks.  When a run of the first ends, so does the run of the second, with the
same output, registers, words, strings and input, and with the same fault if there is one;
the line that an ending names is moved if it is not above the new line. -/
theorem run_inserted {source source' : Stream} {before behind : List (Option String)}
    {blank : String} {p : Program} (h : (Program.assemble source).1 = .ok p) (hp : p.LineBlind)
    (hlines : source.lines = before ++ behind)
    (hlines' : source'.lines = before ++ some blank :: behind)
    (hblank : Source.stripped blank = []) (hfailure : source'.failure = none) :
    ∃ p', (Program.assemble source').1 = .ok p' ∧
      ∀ policy input limit keep fuel r, (start p policy input limit).run keep fuel = some r →
        ∃ fuel' r', (start p' policy input limit).run keep fuel' = some r' ∧
          r'.machine.output = r.machine.output ∧
          r'.machine.registers = r.machine.registers ∧
          r'.machine.symbols.words = r.machine.symbols.words ∧
          r'.machine.symbols.strings = r.machine.symbols.strings ∧
          r'.machine.input = r.machine.input ∧
          r'.machine.status = r.machine.status.shifted before.length ∧
          r'.result = r.result.map (Ending.shifted before.length) := by
  have hk : before.length ≤ p.lines.size := by
    rw [Program.lines_size h, hlines, List.length_append]
    exact Nat.le_add_right _ _
  refine ⟨p.inserted before.length, Program.assemble_inserted h hfailure hlines hlines' hblank, ?_⟩
  intro policy input limit keep fuel r hrun
  obtain ⟨fuel', r', hrun', hmachine, hresult⟩ := endsIn_start hp hk hrun #[]
  refine ⟨fuel', r', hrun', ?_⟩
  rw [hmachine]
  exact ⟨rfl, rfl, rfl, rfl, rfl, rfl, hresult⟩

/-- A comment right behind `.text`, above a loop.  The program halts at its last line, which
is one line further down in the longer source. -/
theorem run_inserted_comment :
    let head := ".data\nx: .word 3\n.text\n"
    let tail := "la $t0, x\nlw $a0, 0($t0)\nloop: addi $a0, $a0, -1\nbnez $a0, loop\n" ++
      "li $v0, 1\nsyscall\nstop\n"
    let source := Stream.ofString (head ++ tail)
    let source' := Stream.ofString (head ++ "\t# count down\n" ++ tail)
    let p := (Assembly.ofLines source.lines).program
    p.LineBlind ∧ p.entry = 3 ∧ ∃ p', (Program.assemble source').1 = .ok p' ∧
      ∃ fuel r, (start p' .strict (Stream.ofString "") none).run (fun _ => true) fuel = some r ∧
        r.machine.output.text = "0" ∧ r.result = .ok (.halted 10 .missingOperands) := by
  intro head tail source source' p
  have hp : (Program.assemble source).1 = .ok p := Program.assemble_eq_ok.mpr ⟨rfl, rfl⟩
  have hlines : source.lines = source.lines.take 3 ++ source.lines.drop 3 :=
    (List.take_append_drop 3 source.lines).symm
  obtain ⟨hblind, hentry, hlines', hlength, hends⟩ : p.LineBlind ∧ p.entry = 3 ∧
      source'.lines = source.lines.take 3 ++ some "\t# count down" :: source.lines.drop 3 ∧
      (source.lines.take 3).length = 3 ∧
      ((start p .strict (Stream.ofString "") none).run (fun _ => true) 12).map
        (fun r => (r.machine.output.text, r.result)) =
          some ("0", .ok (.halted 9 .missingOperands)) := by
    decide +kernel
  obtain ⟨p', hp', hruns⟩ := run_inserted hp hblind hlines hlines' (by decide) rfl
  -- from here on neither source is to be assembled again
  clear_value p source'
  obtain ⟨r, hrun, hr⟩ := Option.map_eq_some_iff.mp hends
  obtain ⟨houtput, hresult⟩ := Prod.mk.inj hr
  obtain ⟨fuel', r', hrun', houtput', -, -, -, -, -, hresult'⟩ := hruns _ _ _ _ _ r hrun
  refine ⟨hblind, hentry, p', hp', fuel', r', hrun', ?_, ?_⟩
  · rw [houtput', houtput]
  · rw [hresult', hresult, hlength]
    rfl

end Machine

end MipsText
