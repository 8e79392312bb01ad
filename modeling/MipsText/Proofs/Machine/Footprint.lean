/-
# `MipsText.Proofs.Machine.Footprint` — the registers that a line can write

Three definitions say which registers may be written, from the change back to the text:

  * `Change.writes`: the registers that a change writes;
  * `Intent.writes`: those that an intent may write;
  * `Statement.Writes`: those that a line may write, which are the registers that its
    operands name, `hi` and `lo` where the result goes there, `$ra` for a call and `$v0`
    for a service.

Each is contained in the next.  So a register that no executed line may write keeps its
cell over a whole run (`get_after`).
-/
import MipsText.Proofs.Machine.Transition

namespace MipsText

/-! ## What may be written -/

def Change.writes : Change → List Register
  | .set r _ => [r]
  | .setResults .. => [.hi, .lo]
  | .call _ => [.ra]
  | .tookInteger .. => [.v0]
  | _ => []

/-- The registers that an action writes whatever its operands are. -/
def Mnemonic.Action.results : Mnemonic.Action → List Register
  | .copyTo r => [r]
  | .multiply | .divide _ => [.hi, .lo]
  | _ => []

def Intent.writes : Intent → List Register
  | .act m o => o.rd.toList ++ o.rs.toList ++ m.action.results
  | .load r .. => [r]
  | .call _ => [.ra]
  | .service => [.v0]
  | _ => []

/-- The registers that a line may write. -/
inductive Statement.Writes : Statement → Register → Prop
  | operand {m : Mnemonic} {tokens : List String} {token : String} {r : Register} :
      token ∈ tokens → Register.ofName? token = some r → Writes (.instruction m tokens) r
  | result {m : Mnemonic} {tokens : List String} {r : Register} :
      r ∈ m.action.results → Writes (.instruction m tokens) r
  | link {tokens : List String} : Writes (.instruction .jal tokens) .ra
  | service : Writes .syscall .v0

theorem Mnemonic.mem_results {m : Mnemonic} {r : Register} (h : r ∈ m.action.results) :
    r = .hi ∨ r = .lo := by
  cases m <;> simp_all [action, Action.results]

/-! ## From the change back to the line -/

theorem Mnemonic.Acts.writes_subset {c : Context} {o : Operands Register} {m : Mnemonic}
    {action : Action} {change : Change} (h : Acts c o action change) (hm : m.action = action) :
    change.writes ⊆ (Intent.act m o).writes := by
  intro r hr
  rw [Intent.writes, hm]
  cases h with
  | idle => exact nomatch hr
  | copy _ hrs => simp_all [Change.writes]
  | combine _ _ _ _ hrd => simp_all [Change.writes]
  | combineImmediate _ _ hrd => simp_all [Change.writes]
  | copyFrom _ hrd => simp_all [Change.writes]
  | copyTo => exact List.mem_append_right _ hr
  | multiply => exact List.mem_append_right _ hr
  | divide => exact List.mem_append_right _ hr
  | constant hrd => simp_all [Change.writes]
  | reference _ hrd => simp_all [Change.writes]

theorem Machine.Served.writes_subset {m : Machine} {change : Change} (h : Served m change) :
    change.writes ⊆ [.v0] := by
  cases h <;> simp [Change.writes]

theorem Machine.Evaluates.writes_subset {m : Machine} {intent : Intent} {change : Change}
    (h : Evaluates m intent change) : change.writes ⊆ intent.writes := by
  cases h with
  | act h => exact (Mnemonic.acts h).writes_subset rfl
  | service h => exact h.writes_subset
  | _ => simp [Change.writes, Intent.writes]

namespace Intent

variable {c : Context} {m : Mnemonic} {tokens : List String} {intent : Intent} {r : Register}

theorem Resolves.named {mnemonic : Mnemonic} {o : Operands Register}
    (h : Resolves c m tokens (.act mnemonic o)) (hr : o.rd = some r ∨ o.rs = some r) :
    ∃ token ∈ tokens, Register.ofName? token = some r := by
  have head {first : String} {rest : List String} {q : Register}
      (hfirst : Register.ofName? first = some q) (hq : some q = some r) :
      ∃ token ∈ first :: rest, Register.ofName? token = some r :=
    ⟨first, List.mem_cons_self, hfirst.trans hq⟩
  have next {first second : String} {rest : List String} {q : Register}
      (hsecond : Register.ofName? second = some q) (hq : some q = some r) :
      ∃ token ∈ first :: second :: rest, Register.ofName? token = some r :=
    ⟨second, List.mem_cons_of_mem _ List.mem_cons_self, hsecond.trans hq⟩
  generalize hact : Intent.act mnemonic o = intent at h
  cases h with
  | one _ _ hfirst =>
      cases hact
      exact hr.elim (head hfirst) nofun
  | two _ hfirst =>
      cases hact
      exact hr.elim nofun (head hfirst)
  | three _ hfirst hsecond =>
      cases hact
      exact hr.elim (head hfirst) (next hsecond)
  | threeImmediate _ _ hfirst hsecond =>
      cases hact
      exact hr.elim (head hfirst) (next hsecond)
  | pairBranch => exact absurd hact.symm (conditional_ne (by simp) (by simp))
  | zeroBranch => exact absurd hact.symm (conditional_ne (by simp) (by simp))
  | constant _ _ hfirst =>
      cases hact
      exact hr.elim (head hfirst) nofun
  | label _ _ hfirst =>
      cases hact
      exact hr.elim (head hfirst) nofun
  | combination _ _ hfirst hsecond =>
      cases hact
      exact hr.elim (head hfirst) (next hsecond)
  | _ => exact nomatch hact

theorem Resolves.act_mnemonic {mnemonic : Mnemonic} {o : Operands Register}
    (h : Resolves c m tokens (.act mnemonic o)) : mnemonic = m := by
  generalize hact : Intent.act mnemonic o = intent at h
  cases h with
  | pairBranch => exact absurd hact.symm (conditional_ne (by simp) (by simp))
  | zeroBranch => exact absurd hact.symm (conditional_ne (by simp) (by simp))
  | _ => cases hact <;> rfl

theorem Resolves.writes_act {mnemonic : Mnemonic} {o : Operands Register}
    (h : Resolves c m tokens (.act mnemonic o)) (hr : r ∈ (Intent.act mnemonic o).writes) :
    Statement.Writes (.instruction m tokens) r := by
  obtain rfl := h.act_mnemonic
  rcases List.mem_append.mp hr with hr | hr
  · have hr : o.rd = some r ∨ o.rs = some r := by simpa using hr
    obtain ⟨token, htoken, hname⟩ := h.named hr
    exact .operand htoken hname
  · exact .result hr

theorem writes_conditional (taken : Bool) (target : Nat) :
    (conditional taken target).writes = [] := by
  cases taken <;> rfl

theorem Resolves.writes (h : Resolves c m tokens intent) (hr : r ∈ intent.writes) :
    Statement.Writes (.instruction m tokens) r := by
  have hresolves := h
  cases h with
  | ret => exact nomatch hr
  | stay => exact nomatch hr
  | load _ hfirst =>
      obtain rfl := List.mem_singleton.mp hr
      exact .operand List.mem_cons_self hfirst
  | store => exact nomatch hr
  | pairBranch =>
      rw [writes_conditional] at hr
      exact nomatch hr
  | zeroBranch =>
      rw [writes_conditional] at hr
      exact nomatch hr
  | jump => exact nomatch hr
  | call hm =>
      subst hm
      obtain rfl := List.mem_singleton.mp hr
      exact .link
  | _ => exact hresolves.writes_act hr

theorem writes_of_ofLine {line : String} (h : ofLine c line = .ok intent)
    (hr : r ∈ intent.writes) : ∃ statement, Statement.ofLine line = .ok statement ∧
      statement.Writes r := by
  rcases ofLine_cases h with ⟨-, rfl⟩ | ⟨hcalls, rfl⟩ | ⟨m, tokens, hline, hresolves⟩
  · exact nomatch hr
  · obtain rfl := List.mem_singleton.mp hr
    exact ⟨_, Statement.ofLine_eq_syscall.mpr hcalls, .service⟩
  · exact ⟨_, hline, hresolves.writes hr⟩

end Intent

/-! ## Steps and runs -/

namespace Machine

def statement? (m : Machine) : Option Statement :=
  m.line?.bind fun line => (Statement.ofLine line).toOption

theorem statement?_eq_some {m : Machine} {statement : Statement} :
    m.statement? = some statement ↔
      ∃ line, m.line? = some line ∧ Statement.ofLine line = .ok statement := by
  rw [statement?, Option.bind_eq_some_iff]
  refine exists_congr fun line => and_congr_right fun _ => ?_
  cases Statement.ofLine line with
  | ok found => simp [Except.toOption]
  | error reason => simp [Except.toOption]

/-- `m.Executes statement`: the machine runs, and its current line says `statement`. -/
def Executes (m : Machine) (statement : Statement) : Prop :=
  m.status = .running ∧ m.statement? = some statement
deriving Decidable

theorem executes_syscall {m : Machine} {line : String} (hrunning : m.status = .running)
    (hline : m.line? = some line) (hcalls : Statement.callsService line = true) :
    m.Executes .syscall :=
  ⟨hrunning, statement?_eq_some.mpr ⟨line, hline, Statement.ofLine_eq_syscall.mpr hcalls⟩⟩

/-- `m.Writes r`: the machine runs, and its current line may write `r`. -/
def Writes (m : Machine) (r : Register) : Prop :=
  ∃ statement, m.Executes statement ∧ statement.Writes r

theorem get_apply {m : Machine} {change : Change} {r : Register} (hr : r ∉ change.writes) :
    (m.apply change).registers.get r = m.registers.get r := by
  have keeps (f : RegisterFile) {q : Register} {rest : List Register} (hq : r ∉ q :: rest)
      (cell : Cell) : (f.set q cell).get r = f.get r :=
    f.get_set_of_ne (List.ne_of_not_mem_cons hq) cell
  cases change with
  | set q cell => exact keeps _ hr _
  | setResults hi lo => exact (keeps _ (List.not_mem_of_not_mem_cons hr) _).trans (keeps _ hr _)
  | call target => exact keeps _ hr _
  | tookInteger value rest => exact keeps _ hr _
  | _ => rfl

/-- A step keeps every register that its line may not write. -/
theorem Stepped.get_eq {m m' : Machine} {fault : Option Fault} {r : Register}
    (h : Stepped m m' fault) (hr : ¬ m.Writes r) : m'.registers.get r = m.registers.get r := by
  cases h with
  | @changed line intent change hrunning hline hintent hchange =>
      refine get_apply fun hwrites => hr ?_
      obtain ⟨statement, hstatement, hw⟩ :=
        Intent.writes_of_ofLine hintent (hchange.writes_subset hwrites)
      exact ⟨statement, ⟨hrunning, statement?_eq_some.mpr ⟨line, hline, hstatement⟩⟩, hw⟩
  | _ => rfl

/-- A run keeps every register that none of its lines may write. -/
theorem get_after {m : Machine} {r : Register} {n : Nat}
    (hr : ∀ k < n, ¬ (m.after k).Writes r) :
    (m.after n).registers.get r = m.registers.get r := by
  induction n with
  | zero => rfl
  | succ n ih =>
      have hstep := (stepped (m.after n)).get_eq (hr n (Nat.lt_succ_self n))
      exact hstep.trans (ih fun k hk => hr k (Nat.lt_succ_of_lt hk))

end Machine

end MipsText
