/-
# `MipsText.Proofs.Machine.Frame` — a step touches only what its line names

`Machine.Touches m m'` is the frame of a step: which registers can differ in `m'`, that
registers, storage and output do not change together, that storage changes for one label
at most, and which lines move the input.  `step_touches` says that every step keeps to it,
whatever the operands of its line are.

Where the destination of a line stands among its operands depends on their number; that
some operand names it does not.  So the registers are those of `Statement.Writes`, and
the rest is read off the change (`Change.part`, `Change.label?`).
-/
import MipsText.Proofs.Machine.Atomicity
import MipsText.Proofs.Machine.Provenance

namespace MipsText

/-- A part of the machine that lines change. -/
inductive Part where
  | registers
  | storage
  | output

/-- The part that a change is made to, if it is made to any. -/
def Change.part : Change → Part
  | .set .. | .setResults .. | .call _ | .tookInteger .. => .registers
  | .store .. | .tookString .. => .storage
  | .nothing | .jump _ | .print _ | .exit => .output

def Mnemonic.hasResults : Mnemonic → Bool
  | .mult | .multu | .div | .divu | .mthi | .mtlo => true
  | _ => false

theorem Mnemonic.hasResults_of_mem {m : Mnemonic} {r : Register} (h : r ∈ m.action.results) :
    m.hasResults = true := by
  cases m <;> simp_all [action, Action.results, hasResults]

namespace Machine

/-- `SameBut part m m'`: nothing changes outside of `part`. -/
structure SameBut (part : Part) (m m' : Machine) : Prop where
  registers : part ≠ .registers → m'.registers = m.registers
  storage : part ≠ .storage → m'.symbols = m.symbols
  output : part ≠ .output → m'.output = m.output

/-- `m.Touches m'`: `m'` differs from `m` only in what the current line of `m` may touch. -/
structure Touches (m m' : Machine) : Prop where
  /-- A register that changes is named by an operand, or is a result, a link or what a
  service gives back. -/
  registers : ∀ r, m'.registers.get r ≠ m.registers.get r →
    (∃ mnemonic tokens, m.Executes (.instruction mnemonic tokens) ∧
      ((∃ token ∈ tokens, Register.ofName? token = some r) ∨
        mnemonic.hasResults = true ∧ (r = .hi ∨ r = .lo) ∨ mnemonic = .jal ∧ r = .ra)) ∨
    m.Executes .syscall ∧ r = .v0
  part : ∃ part, SameBut part m m'
  /-- The program and the labels of its lines stay. -/
  lines : m'.lines = m.lines ∧ m'.symbols.lines = m.symbols.lines
  /-- Storage changes for one label at most. -/
  label : ∃ label : String, ∀ other ≠ label,
    m'.symbols.words[other]? = m.symbols.words[other]? ∧
      m'.symbols.strings[other]? = m.symbols.strings[other]?
  /-- Only services 5 and 8 move the input. -/
  input : m'.input ≠ m.input → m.Executes .syscall ∧
    (m.registers.get .v0 = .int 5 ∨ m.registers.get .v0 = .int 8)

section Touches

variable {m m' : Machine} {change : Change} {fault : Option Fault}

theorem sameBut_apply (m : Machine) (change : Change) :
    SameBut change.part m (m.apply change) := by
  refine ⟨fun h => ?_, fun h => ?_, fun h => ?_⟩
  · cases change with
    | set | setResults | call | tookInteger => exact absurd rfl h
    | _ => rfl
  · cases change with
    | store | tookString => exact absurd rfl h
    | _ => rfl
  · cases change with
    | print => exact absurd rfl h
    | _ => rfl

theorem Served.of_input (h : Served m change) (hmoved : (m.apply change).input ≠ m.input) :
    m.registers.get .v0 = .int 5 ∨ m.registers.get .v0 = .int 8 := by
  cases h with
  | readInt hcode hservice =>
      obtain rfl := Service.ofCode?_eq_some.mp hservice
      exact Or.inl (Context.get_of_integer (by decide) hcode)
  | readString hcode hservice =>
      obtain rfl := Service.ofCode?_eq_some.mp hservice
      exact Or.inr (Context.get_of_integer (by decide) hcode)
  | _ => exact absurd rfl hmoved

theorem Evaluates.of_input {intent : Intent} (h : Evaluates m intent change)
    (hmoved : (m.apply change).input ≠ m.input) : intent = .service ∧ Served m change := by
  cases h with
  | act hact =>
      rcases Mnemonic.Action.evaluate_shape hact with rfl | ⟨_, _, rfl⟩ | ⟨_, _, rfl⟩ <;>
        exact absurd rfl hmoved
  | service hserved => exact ⟨rfl, hserved⟩
  | _ => exact absurd rfl hmoved

theorem Stepped.of_input (h : Stepped m m' fault) (hmoved : m'.input ≠ m.input) :
    m.Executes .syscall ∧
      (m.registers.get .v0 = .int 5 ∨ m.registers.get .v0 = .int 8) := by
  have hstepped := h
  cases h with
  | changed hrunning hline hintent hchange =>
      obtain ⟨rfl, hserved⟩ := hchange.of_input hmoved
      have hcalls := Intent.callsService_of_ofLine hintent
      exact ⟨executes_syscall hrunning hline hcalls, hserved.of_input hmoved⟩
  | faulted hrunning =>
      obtain ⟨⟨_, hline, hcalls⟩, hread⟩ := hstepped.input_of_fault.resolve_left hmoved
      refine ⟨executes_syscall hrunning hline hcalls, ?_⟩
      cases hread with
      | integer hcode => exact Or.inl hcode
      | line hcode => exact Or.inr hcode
  | _ => exact absurd rfl hmoved

theorem Stepped.writes_of_ne {r : Register} (h : Stepped m m' fault)
    (hr : m'.registers.get r ≠ m.registers.get r) : m.Writes r := by
  by_contra hnot
  exact hr (h.get_eq hnot)

theorem Stepped.sameBut (h : Stepped m m' fault) : ∃ part, SameBut part m m' := by
  cases h with
  | changed => exact ⟨_, sameBut_apply m _⟩
  | _ => exact ⟨.output, fun _ => rfl, fun _ => rfl, fun houtput => absurd rfl houtput⟩

theorem Stepped.storage (h : Stepped m m' fault) : ∃ label : String, ∀ other ≠ label,
    m'.symbols.words[other]? = m.symbols.words[other]? ∧
      m'.symbols.strings[other]? = m.symbols.strings[other]? := by
  cases h with
  | @changed _ _ change =>
      refine ⟨change.label?.getD "", fun other hother => apply_storage fun hlabel => hother ?_⟩
      rw [hlabel, Option.getD_some]
  | _ => exact ⟨"", fun _ _ => ⟨rfl, rfl⟩⟩

end Touches

/-- A step touches only what its line names, with any number of operands: registers that an
operand names, `hi` and `lo` for a product, a quotient or a move to them, `$ra` for a call
and `$v0` for a service; one of registers, storage and output; the storage of one label; and
the input for the services that read. -/
theorem step_touches (m : Machine) : m.Touches m.step.machine where
  registers := by
    intro r hr
    obtain ⟨statement, hexecutes, hwrites⟩ := (stepped m).writes_of_ne hr
    cases hwrites with
    | operand htoken hname =>
        exact Or.inl ⟨_, _, hexecutes, Or.inl ⟨_, htoken, hname⟩⟩
    | result hresult =>
        have hresults := Mnemonic.hasResults_of_mem hresult
        exact Or.inl ⟨_, _, hexecutes, Or.inr (Or.inl ⟨hresults, Mnemonic.mem_results hresult⟩)⟩
    | link => exact Or.inl ⟨_, _, hexecutes, Or.inr (Or.inr ⟨rfl, rfl⟩)⟩
    | service => exact Or.inr ⟨hexecutes, rfl⟩
  part := (stepped m).sameBut
  lines := (stepped m).lines_eq
  label := (stepped m).storage
  input := (stepped m).of_input

/-- A product with three operands goes to `lo` and to none of them, and nothing else is
touched. -/
theorem step_touches_product :
    let m := (start { lines := #["li $t1, 6", "mult $t0, $t1, $t1"] } .strict
      (Stream.ofString "") none).after 1
    m.Executes (.instruction .mult ["$t0", "$t1", "$t1"]) ∧
      m.step.machine.registers.get .lo = .int 36 ∧ m.registers.get .lo = .int 0 ∧
      m.step.machine.symbols = m.symbols ∧ m.step.machine.output = m.output := by
  intro m
  obtain ⟨hexecutes, hafter, hbefore⟩ : m.Executes (.instruction .mult ["$t0", "$t1", "$t1"]) ∧
      m.step.machine.registers.get .lo = .int 36 ∧ m.registers.get .lo = .int 0 := by
    decide +kernel
  -- from here on the run is not to be evaluated again
  clear_value m
  obtain ⟨part, hsame⟩ := (step_touches m).part
  have hpart : part = .registers := by
    by_contra hother
    rw [hsame.registers hother, hbefore] at hafter
    simp at hafter
  subst hpart
  exact ⟨hexecutes, hafter, hbefore, hsame.storage (by simp), hsame.output (by simp)⟩

end Machine

end MipsText
