/-
# `MipsText.Proofs.Session` — the front ends agree

The plain front end and a debugger that lets the program run on are driven by the same
machine: each of their ticks is one step, and both look at the status behind it (`Drives`).
They part at the end only, where the plain front end reports a fault by its exit code and
the debugger does not.

A debugger takes its commands from the input of the program.  A line is taken off a stream
with its line feed and nothing behind it, so after the command the machine has the input
that it would have had without a debugger (`tick_listening`).
-/
import MipsText.Proofs.Debugger
import MipsText.Proofs.Source.Encoding
import MipsText.Session

namespace MipsText

/-! ## Input with a line in front -/

namespace Stream

/-- The stream with a text in front of it. -/
def behind (s : Stream) (text : String) : Stream :=
  { s with bytes := (ofString text).bytes ++ s.bytes }

end Stream

def Ending.exitCode : Ending → Nat
  | .faulted _ => 1
  | _ => 0

namespace Session

/-! ## More ticks -/

section Run

variable {s r : Session}

theorem run_of_code? {code : Nat} (h : s.code? = some code) (fuel : Nat) : s.run fuel = some s := by
  rw [run.eq_def, h]

theorem run_succ (h : s.code? = none) (fuel : Nat) : s.run (fuel + 1) = s.tick.run fuel := by
  rw [run.eq_def, h]

theorem run_succ_of_run {fuel : Nat} (h : s.run fuel = some r) : s.run (fuel + 1) = some r := by
  induction fuel generalizing s with
  | zero =>
      rw [run.eq_def] at h
      cases hcode : s.code? with
      | none => simp [hcode] at h
      | some code =>
          rw [run_of_code? hcode]
          simpa [hcode] using h
  | succ fuel ih =>
      cases hcode : s.code? with
      | none =>
          rw [run_succ hcode] at h ⊢
          exact ih h
      | some code =>
          rw [run_of_code? hcode] at h ⊢
          exact h

end Run

/-! ## Ticks that are steps -/

/-- The phase behind a step: the next one while the machine runs, and else the end. -/
def Phase.behind (next : Machine → Phase) (code : Ending → Nat) (m : Machine) : Phase :=
  match m.status with
  | .running => next m
  | .stopped why => .ended (code why) (some m)

/-- `Drives next code`: in the phases `next`, a tick is a step of the machine, and an ending
of the machine ends the session with its `code`. -/
def Drives (next : Machine → Phase) (code : Ending → Nat) : Prop :=
  ∀ (s : Session) (m : Machine), s.phase = next m → m.status = .running →
    s.code? = none ∧ s.tick.phase = .behind next code m.step.machine

section Drives

variable {next : Machine → Phase} {code : Ending → Nat} {s : Session} {m : Machine} {n : Nat}
  {why : Ending}

/-- A session that is driven by a machine ends with it. -/
theorem Drives.run (h : Drives next code) (hcode : s.code? = none)
    (htick : s.tick.phase = .behind next code m.step.machine) (hm : m.status = .running)
    (hstop : (m.after n).status = .stopped why) :
    ∃ r, s.run n = some r ∧ r.phase = .ended (code why) (some (m.after n)) := by
  induction n generalizing s m with
  | zero => simp [Machine.after, hm] at hstop
  | succ n ih =>
      rw [Machine.after_succ_eq] at hstop ⊢
      rw [run_succ hcode]
      rw [Phase.behind] at htick
      cases hnext : m.step.machine.status with
      | running =>
          simp only [hnext] at htick
          obtain ⟨hcode', htick'⟩ := h _ _ htick hnext
          exact ih hcode' htick' hnext hstop
      | stopped why' =>
          simp only [hnext] at htick
          rw [Machine.after_of_stopped hnext] at hstop ⊢
          obtain rfl : why' = why := by simpa [hnext] using hstop
          exact ⟨s.tick, run_of_code? (by rw [code?, htick]) n, htick⟩

theorem drives_running : Drives .running Ending.exitCode := by
  intro s m hphase hm
  have htick : s.tick = advance s.transcript m := by rw [tick, hphase]
  refine ⟨by rw [code?, hphase], ?_⟩
  rw [htick, advance, Phase.behind]
  have hfault := (Machine.stepped m).fault_iff
  cases hstep : m.step.fault with
  | some fault =>
      obtain ⟨-, line, hline⟩ := hfault.mp (by rw [hstep]; rfl)
      simp only [hline]
      rfl
  | none =>
      cases hnext : m.step.machine.status with
      | running => rfl
      | stopped why =>
          -- an ending without a fault is none that faulted
          cases why with
          | faulted line =>
              have hsome := hfault.mpr ⟨hm, line, hnext⟩
              simp [hstep] at hsome
          | _ => rfl

theorem settle_step (t : Transcript) (d : Debugger) :
    (settle t d.step .continuing).phase =
      .behind (fun m => .continuing ⟨m, d.trace⟩) (fun _ => 0) d.machine.step.machine := by
  show (if d.step.goOn then Phase.continuing d.step.debugger
    else .ended 0 d.step.debugger.machine) = _
  rw [d.step_goOn, Phase.behind]
  cases hnext : d.machine.step.machine.status with
  | running =>
      rw [if_pos (Machine.isRunning_iff.mpr hnext)]
      rfl
  | stopped why =>
      rw [Machine.isRunning_eq_false hnext]
      rfl

theorem drives_continuing (trace : Bool) :
    Drives (fun m => .continuing ⟨m, trace⟩) fun _ => 0 := by
  intro s m hphase _
  have htick : s.tick = settle s.transcript (Debugger.step ⟨m, trace⟩) .continuing := by
    rw [tick, hphase]
  refine ⟨by rw [code?, hphase], ?_⟩
  rw [htick]
  exact settle_step ..

/-- A command to go on is the first step on the input behind it. -/
theorem tick_listening {d : Debugger} {input : Stream} (hphase : s.phase = .listening d)
    (hinput : d.machine.input.unread = input.behind "c\n") :
    s.tick.phase = .behind (fun m => .continuing ⟨m, d.trace⟩) (fun _ => 0)
      (withUnread d input).machine.step.machine := by
  -- the command is the one byte in front of the line feed
  have hfree : ∀ b ∈ [(99 : UInt8)], Stream.isLineFeed b = false :=
    List.forall_mem_singleton.mpr rfl
  have htaken : (input.behind "c\n").takeLine = (.ok (some "c\n"), input) :=
    Stream.takeLine_append hfree rfl input
  have hcommand : Command.ofText "c\n" = .proceed := by decide
  have htick : s.tick = settle s.transcript (withUnread d input).step .continuing := by
    rw [tick, hphase]
    dsimp only
    rw [listen, hinput, htaken]
    dsimp only
    rw [hcommand]
    rfl
  rw [htick]
  exact settle_step ..

end Drives

/-! ## Both front ends -/

theorem start_phase (frontEnd : FrontEnd) (verbosity : Log.Verbosity) (policy : ReferencePolicy)
    (path : String) (contents : Except StreamFailure Stream) (input : Stream) :
    (start frontEnd verbosity policy path contents input).phase =
      match (Program.assembleFile path contents).1 with
      | .error _ => .ended 1 none
      | .ok p => firstPhase (Machine.start p policy input none) frontEnd := by
  rw [start]
  rcases Program.assembleFile path contents with ⟨_ | _, notices⟩ <;> rfl

section Run

variable {s : Session} {m : Machine} {n : Nat} {why : Ending}

theorem run_of_running (h : s.phase = .running m) (hm : m.status = .running)
    (hstop : (m.after n).status = .stopped why) :
    ∃ r, s.run n = some r ∧ r.phase = .ended why.exitCode (some (m.after n)) := by
  obtain ⟨hcode, htick⟩ := drives_running s m h hm
  exact drives_running.run hcode htick hm hstop

/-- The debugger needs one more tick, to ask for the command. -/
theorem run_of_prompting {d : Debugger} {input : Stream} (h : s.phase = .prompting d)
    (hinput : d.machine.input.unread = input.behind "c\n") (hm : d.machine.status = .running)
    (hstop : ((withUnread d input).machine.after n).status = .stopped why) :
    ∃ r, s.run (n + 1) = some r ∧
      r.phase = .ended 0 (some ((withUnread d input).machine.after n)) := by
  have hlistening : s.tick.phase = .listening d := by rw [tick, h]
  have hcode : s.tick.code? = none := by rw [code?, hlistening]
  rw [run_succ (by rw [code?, h])]
  exact (drives_continuing d.trace).run hcode (tick_listening hlistening hinput) hm hstop

end Run

/-- `Agree loaded plain debugged`: a session in the plain front end and one in the debugger
have ended with the same output and the same machine.  The plain one has a code for what went
wrong, in loading or at a fault; the debugger has none once there is a program. -/
structure Agree (loaded : Except AssemblyError Program) (plain debugged : Session) : Prop where
  output : debugged.outputText = plain.outputText
  machine : debugged.phase.machine? = plain.phase.machine?
  failure : plain.code? = some 1 ↔ (∃ e, loaded = .error e) ∨
    ∃ m line, plain.phase.machine? = some m ∧ m.status = .stopped (.faulted line)
  success : plain.code? = some 0 ↔
    ∃ m why, plain.phase.machine? = some m ∧ m.status = .stopped why ∧ ∀ line, why ≠ .faulted line
  debugger : ∀ p, loaded = .ok p → debugged.code? = some 0

section Agree

variable {plain debugged : Session}

theorem agree_of_error {e : AssemblyError} (hplain : plain.phase = .ended 1 none)
    (hdebugged : debugged.phase = .ended 1 none) : Agree (.error e) plain debugged where
  output := by rw [outputText, outputText, hplain, hdebugged]
  machine := by rw [hplain, hdebugged]
  failure := by simp [code?, hplain]
  success := by simp [code?, hplain, Phase.machine?]
  debugger := by simp

theorem agree_of_stopped {p : Program} {m : Machine} {why : Ending} (hm : m.status = .stopped why)
    (hplain : plain.phase = .ended why.exitCode (some m))
    (hdebugged : debugged.phase = .ended 0 (some m)) : Agree (.ok p) plain debugged where
  output := by rw [outputText, outputText, hplain, hdebugged]; rfl
  machine := by rw [hplain, hdebugged]; rfl
  failure := by
    cases why <;> simp [code?, hplain, Phase.machine?, hm, Ending.exitCode]
  success := by
    cases why <;> simp [code?, hplain, Phase.machine?, hm, Ending.exitCode]
  debugger := by simp [code?, hdebugged]

end Agree

/-- The front ends agree.  If the program stops, or cannot be loaded, then the debugger that
reads the command to go on in front of the input ends like the plain front end on the input
alone. -/
theorem run_agree (verbosity : Log.Verbosity) (policy : ReferencePolicy) (path : String)
    (contents : Except StreamFailure Stream) (input : Stream)
    (stops : ∀ p, (Program.assembleFile path contents).1 = .ok p →
      ∃ n why, ((Machine.start p policy input none).after n).status = .stopped why) :
    ∃ fuel plain debugged,
      (start .interpreter verbosity policy path contents input).run fuel = some plain ∧
      (start .debugger verbosity policy path contents (input.behind "c\n")).run fuel =
        some debugged ∧
      Agree (Program.assembleFile path contents).1 plain debugged ∧
      ∀ p, (Program.assembleFile path contents).1 = .ok p →
        ∃ n why, ((Machine.start p policy input none).after n).status = .stopped why ∧
          plain.phase.machine? = some ((Machine.start p policy input none).after n) := by
  have hphase (frontEnd : FrontEnd) (input : Stream) :=
    start_phase frontEnd verbosity policy path contents input
  cases hloaded : (Program.assembleFile path contents).1 with
  | error e =>
      simp only [hloaded] at hphase
      have hrun (frontEnd : FrontEnd) (input : Stream) :
          (start frontEnd verbosity policy path contents input).run 0 =
            some (start frontEnd verbosity policy path contents input) :=
        run_of_code? (by rw [code?, hphase]) 0
      exact ⟨0, _, _, hrun _ _, hrun _ _, agree_of_error (hphase _ _) (hphase _ _), by simp⟩
  | ok p =>
      simp only [hloaded] at hphase
      obtain ⟨n, why, hstop⟩ := stops p hloaded
      obtain ⟨plain, hplain, hend⟩ := run_of_running (hphase .interpreter input) rfl hstop
      obtain ⟨debugged, hdebugged, hend'⟩ :=
        run_of_prompting (hphase .debugger (input.behind "c\n")) rfl rfl hstop
      refine ⟨n + 1, plain, debugged, run_succ_of_run hplain, hdebugged,
        agree_of_stopped hstop hend hend', ?_⟩
      rintro _ ⟨⟩
      exact ⟨n, why, hstop, by rw [hend]; rfl⟩

/-- Two reads from one line.  The second meets no number, and only the plain front end
reports it. -/
theorem run_agree_reading :
    let source := Stream.ofString ("li $v0, 5\nsyscall\nmove $a0, $v0\nli $v0, 1\nsyscall\n" ++
      "li $v0, 5\nsyscall\n")
    let input := Stream.ofString "7 x\n"
    ∃ fuel plain debugged,
      (start .interpreter .usual .strict "" (.ok source) input).run fuel = some plain ∧
      (start .debugger .usual .strict "" (.ok source) (input.behind "c\n")).run fuel =
        some debugged ∧
      plain.outputText = "7" ∧ debugged.outputText = "7" ∧
      plain.code? = some 1 ∧ debugged.code? = some 0 := by
  intro source input
  let p := (Assembly.ofLines source.lines).program
  have hp : (Program.assembleFile "" (.ok source)).1 = .ok p :=
    Program.assemble_eq_ok.mpr ⟨rfl, rfl⟩
  let m := Machine.start p .strict input none
  obtain ⟨hfaulted, htext⟩ : (m.after 7).status = .stopped (.faulted 6) ∧
      (m.after 7).output.text = "7" := by
    decide +kernel
  obtain ⟨fuel, plain, debugged, hplain, hdebugged, hagree, hend⟩ :=
    run_agree .usual .strict "" (.ok source) input fun p' hp' => by
      obtain rfl : p = p' := Except.ok.inj (hp.symm.trans hp')
      exact ⟨7, _, hfaulted⟩
  obtain ⟨n, why, hstop, hmachine⟩ := hend p hp
  have hsame : m.after n = m.after 7 := by
    rw [← Machine.after_of_stopped hstop 7, ← Machine.after_of_stopped hfaulted n,
      ← Machine.after_add, ← Machine.after_add, Nat.add_comm]
  have hmachine : plain.phase.machine? = some (m.after 7) := hmachine.trans (congrArg some hsame)
  have houtput : plain.outputText = "7" := by
    rw [outputText, hmachine]
    exact htext
  exact ⟨fuel, plain, debugged, hplain, hdebugged, houtput, hagree.output.trans houtput,
    hagree.failure.mpr (Or.inr ⟨_, 6, hmachine, hfaulted⟩), hagree.debugger p hp⟩

end Session

end MipsText
