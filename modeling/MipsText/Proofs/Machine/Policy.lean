/-
# `MipsText.Proofs.Machine.Policy` — reading references as zero only adds runs

A machine that reads a reference as zero does what the strict machine does, as long
as the strict machine does not fault for reading one.  Both look at the same things
in the same order, and the policy is asked at one place only, `Context.integer`; so
the two are compared check by check (`Checked.Relaxes`), from that one place up
through operands, actions and services to a step, and from the step to whole runs.
-/
import MipsText.Proofs.Instruction.Comparison
import MipsText.Proofs.Machine.Atomicity

namespace MipsText

open Checked

/-- The fault for reading an integer where there is a reference. -/
def Fault.IsReferenceRead (fault : Fault) : Prop :=
  ∃ r, fault = .referenceNotInteger r

def Stop.IsReferenceRead (stop : Stop) : Prop :=
  ∃ r, stop = .fault (.referenceNotInteger r)

theorem Stop.isReferenceRead_fault {fault : Fault} :
    (Stop.fault fault).IsReferenceRead ↔ fault.IsReferenceRead := by
  simp [Stop.IsReferenceRead, Fault.IsReferenceRead]

theorem Stop.not_isReferenceRead_halt (d : Defect) : ¬ (Stop.halt d).IsReferenceRead := by
  simp [Stop.IsReferenceRead]

theorem Checked.Relaxes.fault {α : Type} {x y : Except Fault α}
    (h : Relaxes Fault.IsReferenceRead id x y) :
    Relaxes Stop.IsReferenceRead id (liftM x) (liftM y) :=
  h.mapError fun _ => Stop.isReferenceRead_fault

def Context.withPolicy (c : Context) (policy : ReferencePolicy) : Context :=
  { c with policy := policy }

/-- The one place where the policies differ. -/
theorem Context.integer_relaxes (c : Context) (r : Register) :
    Relaxes Fault.IsReferenceRead id ((c.withPolicy .strict).integer r)
      ((c.withPolicy .zero).integer r) := by
  simp only [integer, RegisterFile.integer, withPolicy]
  cases c.registers.get r with
  | int value => exact .ok value
  | ref label => exact .spoiled ⟨r, rfl⟩ 0

/-! ## Operands and actions -/

theorem Context.withPolicy_matches (c : Context) (tokens : List String) :
    Matches Stop.IsReferenceRead id tokens (c.withPolicy .strict) (c.withPolicy .zero) where
  line _ := Option.map_id_apply.symm
  integer _ _ r _ := .fault (c.integer_relaxes r)
  cell _ _ _ _ := rfl
  halt := Stop.not_isReferenceRead_halt

theorem Intent.ofLine_withPolicy (c : Context) (line : String) :
    Relaxes Stop.IsReferenceRead id (ofLine (c.withPolicy .strict) line)
      (ofLine (c.withPolicy .zero) line) := by
  have h : Relaxes Stop.IsReferenceRead (moved id) (ofLine (c.withPolicy .strict) line)
      (ofLine (c.withPolicy .zero) line) :=
    ofLine_relaxes Stop.not_isReferenceRead_halt fun _ tokens _ => c.withPolicy_matches tokens
  rwa [moved_id] at h

theorem Mnemonic.Action.evaluate_withPolicy (action : Mnemonic.Action) (c : Context)
    (o : Operands Register) :
    Relaxes Stop.IsReferenceRead id (action.evaluate (c.withPolicy .strict) o)
      (action.evaluate (c.withPolicy .zero) o) :=
  evaluate_relaxes Stop.not_isReferenceRead_halt (by simp [Stop.IsReferenceRead])
    (fun r _ => .fault (c.integer_relaxes r)) fun _ _ => rfl

/-! ## Storage

Storage does not know about policies, so its checks are compared with themselves. -/

namespace Symbols

variable (s : Symbols) (label : String) (offset : Word)

theorem array_relaxes : Relaxes Fault.IsReferenceRead id (s.array label) (s.array label) := by
  rw [array]
  split
  · exact .ok _
  · exact .error (by simp [Fault.IsReferenceRead])

theorem index_relaxes (length bound : Nat) :
    Relaxes Fault.IsReferenceRead id (index label length bound offset)
      (index label length bound offset) := by
  simp only [index]
  split
  · exact .ok _
  · exact .error (by simp [Fault.IsReferenceRead])

theorem load_relaxes :
    Relaxes Fault.IsReferenceRead id (s.load label offset) (s.load label offset) := by
  refine .bind (s.array_relaxes label) fun words => ?_
  exact .bind (index_relaxes label offset _ _) fun i => .ok _

theorem storeIndex_relaxes :
    Relaxes Fault.IsReferenceRead id (s.storeIndex label offset) (s.storeIndex label offset) :=
  .bind (s.array_relaxes label) fun _ => index_relaxes label offset _ _

theorem describe_relaxes (cell : Cell) :
    Relaxes Fault.IsReferenceRead id (s.describe cell) (s.describe cell) := by
  cases cell with
  | int value => exact .ok _
  | ref label =>
      simp only [describe]
      split
      · exact .ok _
      · split
        · exact .ok _
        · split
          · exact .ok _
          · exact .error (by simp [Fault.IsReferenceRead])

end Symbols

/-! ## Services -/

theorem Fault.not_isReferenceRead_of_reading {fault : Fault} (h : fault.isOfReading = true) :
    ¬ fault.IsReferenceRead := by
  rintro ⟨r, rfl⟩
  exact nomatch h

namespace Machine

def withPolicy (m : Machine) (policy : ReferencePolicy) : Machine :=
  { m with policy := policy }

section Service

variable (m : Machine)

theorem emit_relaxes (text : String) :
    Relaxes (·.1.IsReferenceRead) id (m.emit text) (m.emit text) := by
  rw [emit]
  split
  · exact .ok _
  · exact .error (by simp [Fault.IsReferenceRead])

theorem printCell_relaxes : Relaxes (·.1.IsReferenceRead) id m.printCell m.printCell :=
  .bind ((m.symbols.describe_relaxes _).mapError fun _ => Iff.rfl) fun text => m.emit_relaxes text

theorem printChar_relaxes :
    Relaxes (·.1.IsReferenceRead) id (m.withPolicy .strict).printChar
      (m.withPolicy .zero).printChar := by
  refine .bind ((m.integer_relaxes .a0).mapError fun _ => Iff.rfl) fun code => ?_
  split
  · exact m.emit_relaxes _
  · exact .error (by simp [Fault.IsReferenceRead])

theorem readTarget_relaxes :
    Relaxes Fault.IsReferenceRead id (m.withPolicy .strict).readTarget
      (m.withPolicy .zero).readTarget := by
  have hlabel : Relaxes Fault.IsReferenceRead id (m.registers.reference .a0)
      (m.registers.reference .a0) := by
    rw [RegisterFile.reference]
    split
    · exact .ok _
    · exact .error (by simp [Fault.IsReferenceRead])
  refine .bind hlabel fun label => ?_
  exact .bind (m.integer_relaxes .a1) fun limit => .ok _

theorem readInteger_relaxes :
    Relaxes (·.1.IsReferenceRead) id m.readInteger m.readInteger := by
  rw [readInteger]
  split
  · exact .ok _
  · next hread =>
      exact .error (Fault.not_isReferenceRead_of_reading (Console.Input.takeInteger_fault hread))

/-- The line that is read for a label, once the label and the limit are known. -/
def takeText (target : String × Nat) : Except (Fault × Console) Change :=
  match m.input.takeLine with
  | (.ok line, rest) =>
      .ok (.tookString target.1 (String.ofList (line.toList.take target.2)) rest)
  | (.error fault, rest) => .error (fault, { m.toConsole with input := rest })

theorem readText_eq_bind :
    m.readText = m.readTarget.mapError (·, m.toConsole) >>= m.takeText := by
  rw [readText]
  cases m.readTarget <;> rfl

theorem takeText_relaxes (target : String × Nat) :
    Relaxes (·.1.IsReferenceRead) id (m.takeText target) (m.takeText target) := by
  rw [takeText]
  split
  · exact .ok _
  · next hread =>
      exact .error (Fault.not_isReferenceRead_of_reading (Console.Input.takeLine_fault hread))

theorem readText_relaxes :
    Relaxes (·.1.IsReferenceRead) id (m.withPolicy .strict).readText
      (m.withPolicy .zero).readText := by
  rw [readText_eq_bind, readText_eq_bind]
  exact .bind (m.readTarget_relaxes.mapError fun _ => Iff.rfl) fun target =>
    m.takeText_relaxes target

theorem serve_relaxes (service : Service) :
    Relaxes (·.1.IsReferenceRead) id ((m.withPolicy .strict).serve service)
      ((m.withPolicy .zero).serve service) := by
  cases service with
  | printInt => exact m.printCell_relaxes
  | printString => exact m.printCell_relaxes
  | printChar => exact m.printChar_relaxes
  | readInt => exact m.readInteger_relaxes
  | readString => exact m.readText_relaxes
  | exit => exact .ok _

theorem callService_eq_bind :
    m.callService = (m.integer .v0).mapError (·, m.toConsole) >>= fun code =>
      match Service.ofCode? code with
      | some service => m.serve service
      | none => .ok .nothing := by
  rw [callService]
  cases m.integer .v0 <;> rfl

theorem callService_relaxes :
    Relaxes (·.1.IsReferenceRead) id (m.withPolicy .strict).callService
      (m.withPolicy .zero).callService := by
  rw [callService_eq_bind, callService_eq_bind]
  refine .bind ((m.integer_relaxes .v0).mapError fun _ => Iff.rfl) fun code => ?_
  split
  · exact m.serve_relaxes _
  · exact .ok _

end Service

/-! ## Lines -/

section Line

variable (m : Machine)

theorem evaluateReturn_relaxes (c : Context) :
    Relaxes Fault.IsReferenceRead id (evaluateReturn (c.withPolicy .strict))
      (evaluateReturn (c.withPolicy .zero)) := by
  refine .bind (c.integer_relaxes .ra) fun address => .bind (y := returnTarget address) ?_
    fun target => .ok _
  rw [returnTarget]
  split
  · exact .ok _
  · exact .error (by simp [Fault.IsReferenceRead])

theorem evaluateStore_relaxes (c : Context) (r : Register) (label : String) (offset : Word) :
    Relaxes Fault.IsReferenceRead id (evaluateStore (c.withPolicy .strict) r label offset)
      (evaluateStore (c.withPolicy .zero) r label offset) := by
  refine .bind (c.integer_relaxes r) fun value => ?_
  exact .bind (c.symbols.storeIndex_relaxes label offset) fun i => .ok _

theorem evaluateLocal_relaxes (c : Context) (intent : Intent) :
    Relaxes Stop.IsReferenceRead id (evaluateLocal (c.withPolicy .strict) intent)
      (evaluateLocal (c.withPolicy .zero) intent) := by
  cases intent with
  | nothing => exact .ok _
  | service => exact .ok _
  | jump target => exact .ok _
  | call target => exact .ok _
  | act mnemonic operands => exact mnemonic.action.evaluate_withPolicy c operands
  | ret => exact .fault (evaluateReturn_relaxes c)
  | load r label offset =>
      exact .fault (.bind (c.symbols.load_relaxes label offset) fun value => .ok _)
  | store r label offset => exact .fault (evaluateStore_relaxes c r label offset)

theorem evaluate_relaxes (intent : Intent) :
    Relaxes (·.1.IsReferenceRead) id ((m.withPolicy .strict).evaluate intent)
      ((m.withPolicy .zero).evaluate intent) := by
  by_cases hs : intent = .service
  · subst hs
    exact m.callService_relaxes.mapError fun _ => Stop.isReferenceRead_fault
  · rw [evaluate_eq_local _ hs, evaluate_eq_local _ hs]
    exact (evaluateLocal_relaxes m.toContext intent).mapError fun _ => Iff.rfl

theorem outcome_eq_bind (resolved : Except Stop Intent) :
    m.outcome resolved = resolved.mapError (·, m.toConsole) >>= m.evaluate := by
  cases resolved <;> rfl

theorem outcome_relaxes (line : String) :
    Relaxes (·.1.IsReferenceRead) id
      ((m.withPolicy .strict).outcome (Intent.ofLine (m.withPolicy .strict).toContext line))
      ((m.withPolicy .zero).outcome (Intent.ofLine (m.withPolicy .zero).toContext line)) := by
  rw [outcome_eq_bind, outcome_eq_bind]
  exact .bind ((Intent.ofLine_withPolicy m.toContext line).mapError fun _ => Iff.rfl) fun intent =>
    m.evaluate_relaxes intent

end Line

/-! ## Steps -/

section Step

variable (m : Machine)

@[simp] theorem withPolicy_withPolicy (policy policy' : ReferencePolicy) :
    (m.withPolicy policy).withPolicy policy' = m.withPolicy policy' := rfl

theorem apply_withPolicy (policy : ReferencePolicy) (change : Change) :
    (m.withPolicy policy).apply change = (m.apply change).withPolicy policy := by
  cases change <;> rfl

theorem settle_withPolicy (policy : ReferencePolicy)
    (result : Except (Stop × Console) Change) :
    (m.withPolicy policy).settle result = (m.settle result).withPolicy policy := by
  match result with
  | .ok change => exact m.apply_withPolicy policy change
  | .error (.halt reason, rest) => rfl
  | .error (.fault fault, rest) => rfl

theorem faultOf_eq_some {result : Except (Stop × Console) Change} {fault : Fault} :
    faultOf result = some fault ↔ ∃ rest, result = .error (.fault fault, rest) := by
  match result with
  | .ok change => simp [faultOf]
  | .error (.halt reason, rest) => simp [faultOf]
  | .error (.fault fault', rest) => simp [faultOf]

/-- A step that does not stop at a reference under the strict policy is the same step
under the other, and under the other no step stops at a reference. -/
theorem step_relaxed :
    ((∀ r, (m.withPolicy .strict).step.fault ≠ some (.referenceNotInteger r)) →
      (m.withPolicy .zero).step.machine = (m.withPolicy .strict).step.machine.withPolicy .zero ∧
      (m.withPolicy .zero).step.fault = (m.withPolicy .strict).step.fault) ∧
    ∀ r, (m.withPolicy .zero).step.fault ≠ some (.referenceNotInteger r) := by
  cases hstatus : m.status with
  | stopped why =>
      rw [step_of_stopped (m := m.withPolicy .strict) hstatus,
        step_of_stopped (m := m.withPolicy .zero) hstatus]
      exact ⟨fun _ => ⟨rfl, rfl⟩, fun r => nofun⟩
  | running =>
      cases hline : m.line? with
      | none =>
          rw [step_of_end (m := m.withPolicy .strict) hstatus hline,
            step_of_end (m := m.withPolicy .zero) hstatus hline]
          exact ⟨fun _ => ⟨rfl, rfl⟩, fun r => nofun⟩
      | some line =>
          obtain ⟨hmachine, hfault⟩ :=
            step_of_outcome (m := m.withPolicy .strict) hstatus hline rfl
          obtain ⟨hmachine', hfault'⟩ :=
            step_of_outcome (m := m.withPolicy .zero) hstatus hline rfl
          rw [hmachine, hfault, hmachine', hfault']
          obtain ⟨hclean, hagrees⟩ := m.outcome_relaxes line
          refine ⟨fun hstrict => ?_, fun r hzero => ?_⟩
          · rcases hagrees with hsame | ⟨⟨stop, rest⟩, hspoiled, r, rfl⟩
            · rw [Mapped.eq hsame, settle_withPolicy, settle_withPolicy, withPolicy_withPolicy]
              exact ⟨rfl, rfl⟩
            · exact absurd (faultOf_eq_some.mpr ⟨rest, hspoiled⟩) (hstrict r)
          · obtain ⟨rest, hrest⟩ := faultOf_eq_some.mp hzero
            exact hclean _ hrest ⟨r, rfl⟩

theorem Stepped.policy_eq {m m' : Machine} {fault : Option Fault} (h : Stepped m m' fault) :
    m'.policy = m.policy := by
  cases h with
  | @changed line intent change => cases change <;> rfl
  | _ => rfl

theorem withPolicy_of_eq {m : Machine} {policy : ReferencePolicy} (h : m.policy = policy) :
    m.withPolicy policy = m := by
  subst h
  rfl

end Step

/-! ## Runs -/

section Run

theorem policy_after (m : Machine) (n : Nat) : (m.after n).policy = m.policy :=
  after_induction (P := fun m' => m'.policy = m.policy) rfl
    (fun m' h => (stepped m').policy_eq.trans h) n

/-- Along a strict run that does not stop at a reference, the other machine is the
strict one with the other policy. -/
theorem after_withPolicy {m : Machine} (hm : m.policy = .strict) {n : Nat}
    (h : ∀ k < n, ∀ r, (m.after k).step.fault ≠ some (.referenceNotInteger r)) :
    (m.withPolicy .zero).after n = (m.after n).withPolicy .zero ∧
      ∀ k < n, ((m.withPolicy .zero).after k).step.fault = (m.after k).step.fault := by
  induction n with
  | zero => exact ⟨rfl, fun k hk => absurd hk (Nat.not_lt_zero k)⟩
  | succ n ih =>
      obtain ⟨hmachine, hfaults⟩ := ih fun k hk => h k (Nat.lt_succ_of_lt hk)
      have hstrict : (m.after n).withPolicy .strict = m.after n :=
        withPolicy_of_eq ((policy_after m n).trans hm)
      -- the two machines are still the same up to the policy, so one step settles the next
      have hstep := (step_relaxed (m.after n)).1
      rw [hstrict] at hstep
      obtain ⟨hnext, hfault⟩ := hstep (h n (Nat.lt_succ_self n))
      rw [← hmachine] at hnext hfault
      refine ⟨hnext, fun k hk => ?_⟩
      rcases Nat.lt_succ_iff_lt_or_eq.mp hk with hk | rfl
      · exact hfaults k hk
      · exact hfault

/-- Reading references as zero is a conservative extension of the strict policy.  As
long as no step of the strict run faults for reading a reference, both runs are the
same in everything but the policy, and every step of the one gives what the step of
the other gives; and the run that reads zero never faults for that reason. -/
theorem run_conservative (p : Program) (input : Stream) (limit : Option Nat) (n : Nat) :
    ((∀ k < n, ∀ r, ((start p .strict input limit).after k).step.fault ≠
        some (.referenceNotInteger r)) →
      (start p .zero input limit).after n =
          { (start p .strict input limit).after n with policy := .zero } ∧
        ∀ k < n, ((start p .zero input limit).after k).step.fault =
          ((start p .strict input limit).after k).step.fault) ∧
    ∀ r, ((start p .zero input limit).after n).step.fault ≠ some (.referenceNotInteger r) := by
  refine ⟨fun h => after_withPolicy (m := start p .strict input limit) rfl h, fun r => ?_⟩
  have hpolicy : ((start p .zero input limit).after n).policy = .zero :=
    policy_after (start p .zero input limit) n
  have hclean := (step_relaxed ((start p .zero input limit).after n)).2 r
  rwa [withPolicy_of_eq hpolicy] at hclean

/-- A reference is moved, which both machines do alike, and then added. -/
theorem run_conservative_moved :
    let p : Program := { lines := #["la $a0, x", "move $t0, $a0", "add $t1, $t0, $t0"] }
    let strict := (start p .strict (Stream.ofString "") none).after
    let lenient := (start p .zero (Stream.ofString "") none).after
    lenient 2 = { strict 2 with policy := .zero } ∧
      (strict 2).step.fault = some (.referenceNotInteger 8) ∧
      (lenient 2).step.fault ≠ some (.referenceNotInteger 8) := by
  intro p strict lenient
  have hnone : ∀ k < 2, (strict k).step.fault = none := by decide +kernel
  obtain ⟨hsame, hclean⟩ := run_conservative p (Stream.ofString "") none 2
  have hfault : (strict 2).step.fault = some (.referenceNotInteger 8) := by decide +kernel
  refine ⟨(hsame fun k hk r hr => ?_).1, hfault, hclean 8⟩
  exact nomatch (hnone k hk).symm.trans hr

end Run

end Machine

end MipsText
