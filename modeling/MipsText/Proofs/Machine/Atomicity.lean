/-
# `MipsText.Proofs.Machine.Atomicity` — a line that fails does nothing else

A line is executed in place, and nothing is taken back when it fails.  Still it is carried
out as a whole or not at all.  When it is malformed, the machine stops and is otherwise the
one before.  When it faults, the same holds of everything but the console, which is left as
it was unless the line calls a service and it is the console that failed:

  * the read of service 5 or 8 failed, and what was taken to find that out is gone;
  * a text was refused, and the output has what the sink took of it;
  * the text was written but could not be flushed, and the output has all of it.

The last two do not occur with sinks that refuse a text as a whole and can always be
flushed, and the output of every run goes to such a sink.
-/
import MipsText.Proofs.Machine.Transition

namespace MipsText

open Checked

/-! ## Reads that fail -/

/-- Can a read of the input end in this fault? -/
def Fault.isOfReading : Fault → Bool
  | .endOfInput | .invalidInput _ | .stream _ => true
  | _ => false

namespace Console.Input

theorem skipBlanks_fault {i rest : Input} {fault : Fault}
    (h : i.skipBlanks = (.error fault, rest)) : fault.isOfReading = true := by
  fun_induction skipBlanks i with
  | case1 i cs blank text unread htake ih => exact ih h
  | case2 i cs blank unread htake =>
      obtain ⟨hfault, -⟩ := Prod.mk.inj h
      obtain rfl := Except.error.inj hfault
      rfl
  | case3 i cs blank failure unread htake =>
      obtain ⟨hfault, -⟩ := Prod.mk.inj h
      obtain rfl := Except.error.inj hfault
      rfl
  | case4 i cs found => simp at h

theorem takeInteger_fault {i rest : Input} {fault : Fault}
    (h : i.takeInteger = (.error fault, rest)) : fault.isOfReading = true := by
  rw [takeInteger] at h
  split at h
  · next cause left hskip =>
      obtain ⟨hfault, -⟩ := Prod.mk.inj h
      obtain rfl := Except.error.inj hfault
      exact skipBlanks_fault hskip
  · next cs left hskip =>
      dsimp only at h
      split at h
      · simp at h
      · obtain ⟨hfault, -⟩ := Prod.mk.inj h
        obtain rfl := Except.error.inj hfault
        rfl

theorem takeLine_fault {i rest : Input} {fault : Fault}
    (h : i.takeLine = (.error fault, rest)) : fault.isOfReading = true := by
  rw [takeLine] at h
  split at h
  · split at h
    · simp at h
    · obtain ⟨hfault, -⟩ := Prod.mk.inj h
      obtain rfl := Except.error.inj hfault
      rfl
    · obtain ⟨hfault, -⟩ := Prod.mk.inj h
      obtain rfl := Except.error.inj hfault
      rfl
  · simp at h

end Console.Input

namespace Console

namespace Output

variable {o left : Output} {text : String} {failure : StreamFailure}

/-- A text that is not printed was refused, or has been written and was not flushed. -/
theorem print_error (h : o.print text = (.error failure, left)) :
    o.write text = (.error failure, left) ∨
      o.write text = (.ok (), left) ∧ left.flush.1 = .error failure := by
  rw [print] at h
  split at h
  · next written hwrite =>
      obtain rfl : left = written := (congrArg Prod.snd h).symm.trans written.flush_eq
      exact Or.inr ⟨hwrite, congrArg Prod.fst h⟩
  · exact Or.inl h

end Output

end Console

namespace Machine

/-- `FailedRead m fault rest`: the service that `$v0` asks for reads, the read itself
ends in `fault`, and leaves `rest` of the input. -/
inductive FailedRead (m : Machine) (fault : Fault) (rest : Console.Input) : Prop
  | integer : m.registers.get .v0 = .int 5 → m.input.takeInteger = (.error fault, rest) →
      FailedRead m fault rest
  | line : m.registers.get .v0 = .int 8 → m.input.takeLine = (.error fault, rest) →
      FailedRead m fault rest

/-- `m.Prints text`: the service that `$v0` asks for prints `text`. -/
inductive Prints (m : Machine) : String → Prop
  | cell {text : String} : m.registers.get .v0 = .int 1 ∨ m.registers.get .v0 = .int 4 →
      m.symbols.describe (m.registers.get .a0) = .ok text → Prints m text
  | character {code : Word} {c : Char} : m.registers.get .v0 = .int 11 →
      m.integer .a0 = .ok code → character? code = some c → Prints m c.toString

/-- `FailedPrint m fault left`: the service that `$v0` asks for prints, the output ends in
`fault`, and is left as `left`. -/
inductive FailedPrint (m : Machine) : Fault → Console.Output → Prop
  | write {text : String} {failure : StreamFailure} {left : Console.Output} : Prints m text →
      m.output.write text = (.error failure, left) → FailedPrint m (.stream failure) left
  | flush {text : String} {failure : StreamFailure} : Prints m text →
      m.output.write text = (.ok (), m.output.append text) →
      (m.output.append text).flush.1 = .error failure →
      FailedPrint m (.stream failure) (m.output.append text)

/-- `Leaves m fault rest`: what a service may leave of the console when it ends in `fault`. -/
inductive Leaves (m : Machine) (fault : Fault) : Console → Prop
  | same : Leaves m fault m.toConsole
  | read {rest : Console.Input} : FailedRead m fault rest →
      Leaves m fault { m.toConsole with input := rest }
  | print {left : Console.Output} : FailedPrint m fault left →
      Leaves m fault { m.toConsole with output := left }

section Faults

variable {m : Machine} {fault : Fault} {rest : Console}

theorem FailedRead.isOfReading {rest : Console.Input} (h : FailedRead m fault rest) :
    fault.isOfReading = true := by
  cases h with
  | integer _ h => exact Console.Input.takeInteger_fault h
  | line _ h => exact Console.Input.takeLine_fault h

theorem emit_fault {text : String} (ht : m.Prints text) (h : m.emit text = .error (fault, rest)) :
    Leaves m fault rest := by
  rw [emit] at h
  split at h
  · simp at h
  · next failure left hprint =>
      obtain ⟨rfl, rfl⟩ := Prod.mk.inj (Except.error.inj h)
      rcases Console.Output.print_error hprint with hwrite | ⟨hwrite, hflush⟩
      · exact .print (.write ht hwrite)
      · obtain rfl := Console.Output.write_ok hwrite
        exact .print (.flush ht hwrite hflush)

theorem printCell_fault (hv : m.registers.get .v0 = .int 1 ∨ m.registers.get .v0 = .int 4)
    (h : m.printCell = .error (fault, rest)) : Leaves m fault rest := by
  rcases bind_eq_error.mp h with h | ⟨text, htext, h⟩
  · obtain ⟨_, -, heq⟩ := mapError_eq_error.mp h
    rw [← (Prod.mk.inj heq).2]
    exact .same
  · exact emit_fault (.cell hv (mapError_eq_ok.mp htext)) h

theorem printChar_fault (hv : m.registers.get .v0 = .int 11)
    (h : m.printChar = .error (fault, rest)) : Leaves m fault rest := by
  rcases bind_eq_error.mp h with h | ⟨code, hcode, h⟩
  · obtain ⟨_, -, heq⟩ := mapError_eq_error.mp h
    rw [← (Prod.mk.inj heq).2]
    exact .same
  · split at h
    · next c hc => exact emit_fault (.character hv (mapError_eq_ok.mp hcode) hc) h
    · rw [← (Prod.mk.inj (Except.error.inj h)).2]
      exact .same

theorem readInteger_fault (hv : m.registers.get .v0 = .int 5)
    (h : m.readInteger = .error (fault, rest)) : Leaves m fault rest := by
  rw [readInteger] at h
  split at h
  · simp at h
  · next hread =>
      obtain ⟨rfl, rfl⟩ := Prod.mk.inj (Except.error.inj h)
      exact .read (.integer hv hread)

theorem readText_fault (hv : m.registers.get .v0 = .int 8)
    (h : m.readText = .error (fault, rest)) : Leaves m fault rest := by
  rw [readText] at h
  split at h
  · -- the label or the limit is wrong: nothing was read yet
    rw [← (Prod.mk.inj (Except.error.inj h)).2]
    exact .same
  · split at h
    · simp at h
    · next hread =>
        obtain ⟨rfl, rfl⟩ := Prod.mk.inj (Except.error.inj h)
        exact .read (.line hv hread)

theorem serve_fault {service : Service} (hv : m.integer .v0 = .ok service.code)
    (h : m.serve service = .error (fault, rest)) : Leaves m fault rest := by
  cases service with
  | printInt => exact printCell_fault (Or.inl (Context.get_of_integer (by decide) hv)) h
  | printString => exact printCell_fault (Or.inr (Context.get_of_integer (by decide) hv)) h
  | printChar => exact printChar_fault (Context.get_of_integer (by decide) hv) h
  | readInt => exact readInteger_fault (Context.get_of_integer (by decide) hv) h
  | readString => exact readText_fault (Context.get_of_integer (by decide) hv) h
  | exit => exact nomatch h

theorem callService_fault (h : m.callService = .error (fault, rest)) : Leaves m fault rest := by
  rw [callService] at h
  split at h
  · rw [← (Prod.mk.inj (Except.error.inj h)).2]
    exact .same
  · next code hcode =>
      split at h
      · next service hservice =>
          obtain rfl := Service.ofCode?_eq_some.mp hservice
          exact serve_fault hcode h
      · simp at h

/-- A line that faults leaves the console alone unless it calls a service. -/
theorem outcome_fault {line : String}
    (h : m.outcome (Intent.ofLine m.toContext line) = .error (.fault fault, rest)) :
    rest = m.toConsole ∨ Statement.callsService line = true ∧ Leaves m fault rest := by
  cases hintent : Intent.ofLine m.toContext line with
  | error stop =>
      rw [hintent] at h
      exact Or.inl (Prod.mk.inj (Except.error.inj h)).2.symm
  | ok intent =>
      rw [hintent] at h
      by_cases hs : intent = .service
      · subst hs
        obtain ⟨⟨_, _⟩, hcall, heq⟩ := mapError_eq_error.mp h
        obtain ⟨hstop, rfl⟩ := Prod.mk.inj heq
        obtain rfl := Stop.fault.inj hstop
        exact Or.inr ⟨Intent.callsService_of_ofLine hintent, callService_fault hcall⟩
      · obtain ⟨_, -, heq⟩ := mapError_eq_error.mp ((evaluate_eq_local m hs).symm.trans h)
        exact Or.inl (Prod.mk.inj heq).2.symm

end Faults

/-! ## Steps that fail -/

/-- `m.AtService`: the current line calls a service. -/
def AtService (m : Machine) : Prop :=
  ∃ line, m.line? = some line ∧ Statement.callsService line = true

theorem Stepped.of_fault {m m' : Machine} {fault : Fault} (h : Stepped m m' (some fault)) :
    m' = { m with status := m'.status, toConsole := m'.toConsole } ∧
      (m'.toConsole = m.toConsole ∨ m.AtService ∧ Leaves m fault m'.toConsole) := by
  cases h with
  | faulted hm hline houtcome =>
      refine ⟨rfl, ?_⟩
      rcases outcome_fault houtcome with hrest | ⟨hcalls, hleaves⟩
      · exact Or.inl hrest
      · exact Or.inr ⟨⟨_, hline, hcalls⟩, hleaves⟩

section Console

variable {m m' : Machine} {fault : Fault} {rest : Console}

theorem Leaves.input_eq (h : Leaves m fault rest) :
    rest.input = m.input ∨ FailedRead m fault rest.input := by
  cases h with
  | same => exact Or.inl rfl
  | read hread => exact Or.inr hread
  | print => exact Or.inl rfl

theorem Stepped.input_of_fault (h : Stepped m m' (some fault)) :
    m'.input = m.input ∨ m.AtService ∧ FailedRead m fault m'.input := by
  rcases h.of_fault.2 with hsame | ⟨hservice, hleaves⟩
  · exact Or.inl (congrArg Console.input hsame)
  · exact hleaves.input_eq.imp_right fun hread => ⟨hservice, hread⟩

end Console

end Machine

end MipsText
