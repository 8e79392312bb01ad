/-
# `MipsText.Proofs.Machine.Action` — what an action changes

`Mnemonic.Acts c o action change` lists, one rule an action, what an action comes to
on the operands it was given: which operands it asks for, which registers it reads,
and the one change that follows.  `acts` says that nothing else happens, and `Acts.eq_ok`
that what a rule lists does happen; `evaluate_relaxes` compares an action in two contexts.  So
no later proof opens the sequence of checks that an action makes.
-/
import MipsText.Proofs.Machine.Change
import MipsText.Proofs.Relaxation

namespace MipsText

open Checked

theorem Operands.require_eq_ok {α : Type} {role : OperandRole} {x : Option α} {a : α} :
    Operands.require role x = .ok a ↔ x = some a := by
  cases x with
  | none => simp [Operands.require]
  | some b => simp [Operands.require]

theorem Operands.require_bind {α β : Type} {role : OperandRole} {x : Option α} {a : α}
    (hx : x = some a) (f : α → Except Stop β) :
    (liftM (Operands.require role x) : Except Stop α) >>= f = f a := by
  rw [hx]
  rfl

theorem Context.integer_bind {β : Type} {c : Context} {r : Register} {a : Word}
    (hr : c.integer r = .ok a) (f : Word → Except Stop β) :
    (liftM (c.integer r) : Except Stop Word) >>= f = f a := by
  rw [hr]
  rfl

namespace Mnemonic

/-- `Acts c o action change`: in the context `c`, the action comes to `change` on the
operands `o`. -/
inductive Acts (c : Context) (o : Operands Register) : Action → Change → Prop
  | idle : Acts c o .idle .nothing
  | copy {source target : Register} : o.rt = some source → o.rs = some target →
      Acts c o .copy (.set target (c.registers.get source))
  | combine {f : Word → Word → Word} {rs rt rd : Register} {a b : Word} :
      o.rs = some rs → c.integer rs = .ok a → o.rt = some rt → c.integer rt = .ok b →
      o.rd = some rd → Acts c o (.combine f) (.set rd (.int (f a b)))
  | combineImmediate {f : Word → Word → Word} {rs rd : Register} {a value : Word} :
      o.rs = some rs → c.integer rs = .ok a → o.rd = some rd → o.immediate = some value →
      Acts c o (.combineImmediate f) (.set rd (.int (f a value)))
  | copyFrom {r rd : Register} {value : Word} : c.integer r = .ok value → o.rd = some rd →
      Acts c o (.copyFrom r) (.set rd (.int value))
  | copyTo {r rd : Register} {value : Word} : o.rd = some rd → c.integer rd = .ok value →
      Acts c o (.copyTo r) (.set r (.int value))
  | multiply {rs rt : Register} {a b : Word} : o.rs = some rs → c.integer rs = .ok a →
      o.rt = some rt → c.integer rt = .ok b → Acts c o .multiply (.setResults 0 (a * b))
  | divide {f : Word → Word → Word.Division} {rs rt : Register} {a b : Word} :
      o.rs = some rs → c.integer rs = .ok a → o.rt = some rt → c.integer rt = .ok b → b ≠ 0 →
      Acts c o (.divide f) (.setResults (f a b).quotient (f a b).remainder)
  | constant {f : Word → Word} {rd : Register} {value : Word} : o.rd = some rd →
      o.immediate = some value → Acts c o (.constant f) (.set rd (.int (f value)))
  | reference {label : String} {rd : Register} : o.label = some label → o.rd = some rd →
      Acts c o .reference (.set rd (.ref label))

section Evaluate

open Operands Context

variable {c : Context} {o : Operands Register} {action : Action} {change : Change}

/-- An action that succeeds does so by its rule. -/
theorem acts (h : action.evaluate c o = .ok change) : Acts c o action change := by
  have given {α : Type} {role : OperandRole} {x : Option α} {a : α}
      (h : (liftM (Operands.require role x) : Except Stop α) = .ok a) : x = some a :=
    Operands.require_eq_ok.mp (liftDefect_eq_ok.mp h)
  cases action with
  | idle =>
      obtain rfl := pure_eq_ok.mp h
      exact .idle
  | copy =>
      obtain ⟨source, hrt, h⟩ := bind_eq_ok.mp h
      obtain ⟨target, hrs, h⟩ := bind_eq_ok.mp h
      obtain rfl := pure_eq_ok.mp h
      exact .copy (given hrt) (given hrs)
  | combine f =>
      obtain ⟨rs, hrs, h⟩ := bind_eq_ok.mp h
      obtain ⟨a, ha, h⟩ := bind_eq_ok.mp h
      obtain ⟨rt, hrt, h⟩ := bind_eq_ok.mp h
      obtain ⟨b, hb, h⟩ := bind_eq_ok.mp h
      obtain ⟨rd, hrd, h⟩ := bind_eq_ok.mp h
      obtain rfl := pure_eq_ok.mp h
      exact .combine (given hrs) (liftFault_eq_ok.mp ha) (given hrt) (liftFault_eq_ok.mp hb)
        (given hrd)
  | combineImmediate f =>
      obtain ⟨rs, hrs, h⟩ := bind_eq_ok.mp h
      obtain ⟨a, ha, h⟩ := bind_eq_ok.mp h
      obtain ⟨rd, hrd, h⟩ := bind_eq_ok.mp h
      obtain ⟨value, hvalue, h⟩ := bind_eq_ok.mp h
      obtain rfl := pure_eq_ok.mp h
      exact .combineImmediate (given hrs) (liftFault_eq_ok.mp ha) (given hrd) (given hvalue)
  | copyFrom r =>
      obtain ⟨value, hvalue, h⟩ := bind_eq_ok.mp h
      obtain ⟨rd, hrd, h⟩ := bind_eq_ok.mp h
      obtain rfl := pure_eq_ok.mp h
      exact .copyFrom (liftFault_eq_ok.mp hvalue) (given hrd)
  | copyTo r =>
      obtain ⟨rd, hrd, h⟩ := bind_eq_ok.mp h
      obtain ⟨value, hvalue, h⟩ := bind_eq_ok.mp h
      obtain rfl := pure_eq_ok.mp h
      exact .copyTo (given hrd) (liftFault_eq_ok.mp hvalue)
  | multiply =>
      obtain ⟨rs, hrs, h⟩ := bind_eq_ok.mp h
      obtain ⟨a, ha, h⟩ := bind_eq_ok.mp h
      obtain ⟨rt, hrt, h⟩ := bind_eq_ok.mp h
      obtain ⟨b, hb, h⟩ := bind_eq_ok.mp h
      obtain rfl := pure_eq_ok.mp h
      exact .multiply (given hrs) (liftFault_eq_ok.mp ha) (given hrt) (liftFault_eq_ok.mp hb)
  | divide f =>
      obtain ⟨rs, hrs, h⟩ := bind_eq_ok.mp h
      obtain ⟨a, ha, h⟩ := bind_eq_ok.mp h
      obtain ⟨rt, hrt, h⟩ := bind_eq_ok.mp h
      obtain ⟨b, hb, h⟩ := bind_eq_ok.mp h
      dsimp only at h
      split at h
      · obtain ⟨_, hthrow, -⟩ := bind_eq_ok.mp h
        exact absurd hthrow throw_ne_ok
      · next hzero =>
          obtain rfl := pure_eq_ok.mp h
          exact .divide (given hrs) (liftFault_eq_ok.mp ha) (given hrt) (liftFault_eq_ok.mp hb)
            hzero
  | constant f =>
      obtain ⟨rd, hrd, h⟩ := bind_eq_ok.mp h
      obtain ⟨value, hvalue, h⟩ := bind_eq_ok.mp h
      obtain rfl := pure_eq_ok.mp h
      exact .constant (given hrd) (given hvalue)
  | reference =>
      obtain ⟨label, hlabel, h⟩ := bind_eq_ok.mp h
      obtain ⟨rd, hrd, h⟩ := bind_eq_ok.mp h
      obtain rfl := pure_eq_ok.mp h
      exact .reference (given hlabel) (given hrd)

theorem Acts.eq_ok (h : Acts c o action change) : action.evaluate c o = .ok change := by
  cases h with
  | idle => rfl
  | copy hrt hrs =>
      rw [Action.evaluate, secondSource, require_bind hrt, firstSource, require_bind hrs]
      rfl
  | combine hrs ha hrt hb hrd =>
      rw [Action.evaluate, firstSource, require_bind hrs, integer_bind ha, secondSource,
        require_bind hrt, integer_bind hb, destination, require_bind hrd]
      rfl
  | combineImmediate hrs ha hrd hvalue =>
      rw [Action.evaluate, firstSource, require_bind hrs, integer_bind ha, destination,
        require_bind hrd, immediateValue, require_bind hvalue]
      rfl
  | copyFrom hvalue hrd =>
      rw [Action.evaluate, integer_bind hvalue, destination, require_bind hrd]
      rfl
  | copyTo hrd hvalue =>
      rw [Action.evaluate, destination, require_bind hrd, integer_bind hvalue]
      rfl
  | multiply hrs ha hrt hb =>
      rw [Action.evaluate, firstSource, require_bind hrs, integer_bind ha, secondSource,
        require_bind hrt, integer_bind hb]
      rfl
  | divide hrs ha hrt hb hzero =>
      rw [Action.evaluate, firstSource, require_bind hrs, integer_bind ha, secondSource,
        require_bind hrt, integer_bind hb, if_neg hzero]
      rfl
  | constant hrd hvalue =>
      rw [Action.evaluate, destination, require_bind hrd, immediateValue, require_bind hvalue]
      rfl
  | reference hlabel hrd =>
      rw [Action.evaluate, labelName, require_bind hlabel, destination, require_bind hrd]
      rfl

theorem Action.evaluate_divide_zero {f : Word → Word → Word.Division} {rs rt : Register} {a : Word}
    (hrs : o.rs = some rs) (ha : c.integer rs = .ok a) (hrt : o.rt = some rt)
    (hb : c.integer rt = .ok 0) :
    (Action.divide f).evaluate c o = .error (.fault .divisionByZero) := by
  rw [Action.evaluate, firstSource, require_bind hrs, integer_bind ha, secondSource,
    require_bind hrt, integer_bind hb]
  rfl

theorem Action.evaluate_shape (h : action.evaluate c o = .ok change) :
    change = .nothing ∨ (∃ r cell, change = .set r cell) ∨
      ∃ hi lo, change = .setResults hi lo := by
  cases acts h with
  | idle => exact Or.inl rfl
  | multiply => exact Or.inr (Or.inr ⟨_, _, rfl⟩)
  | divide => exact Or.inr (Or.inr ⟨_, _, rfl⟩)
  | _ => exact Or.inr (Or.inl ⟨_, _, rfl⟩)

end Evaluate

/-! ## One action in two contexts -/

/-- The registers that an action reads whatever its operands are. -/
def Action.sources : Action → List Register
  | .copyFrom r => [r]
  | _ => []

/-- An action comes to the same change in two contexts in which the registers among its operands
are read alike, and those that it reads in any case, unless it stops for a bad reason. -/
theorem Action.evaluate_relaxes {bad : Stop → Prop} {c c' : Context} {o : Operands Register}
    {action : Action} (hhalt : ∀ d, ¬ bad (.halt d)) (hzero : ¬ bad (.fault .divisionByZero))
    (hinteger : ∀ r, o.rd = some r ∨ o.rs = some r ∨ o.rt = some r ∨ r ∈ action.sources →
      Relaxes bad id (liftM (c.integer r) : Except Stop Word) (liftM (c'.integer r)))
    (hcell : ∀ r, o.rt = some r → c'.registers.get r = c.registers.get r) :
    Relaxes bad id (action.evaluate c o) (action.evaluate c' o) := by
  have hrd {r : Register} (hr : o.destination = .ok r) :=
    hinteger r (Or.inl (Operands.require_eq_ok.mp hr))
  have hrs {r : Register} (hr : o.firstSource = .ok r) :=
    hinteger r (Or.inr (Or.inl (Operands.require_eq_ok.mp hr)))
  have hrt {r : Register} (hr : o.secondSource = .ok r) :=
    hinteger r (Or.inr (Or.inr (Or.inl (Operands.require_eq_ok.mp hr))))
  cases action with
  | idle => exact .ok _
  | copy =>
      refine .behind hhalt fun source hsource => .behind hhalt fun target _ => ?_
      rw [hcell source (Operands.require_eq_ok.mp hsource)]
      exact .ok _
  | combine f =>
      refine .behind hhalt fun rs hr => .bind (hrs hr) fun a => ?_
      refine .behind hhalt fun rt hr => .bind (hrt hr) fun b => ?_
      exact .behind hhalt fun rd _ => .ok _
  | combineImmediate f =>
      refine .behind hhalt fun rs hr => .bind (hrs hr) fun a => ?_
      exact .behind hhalt fun rd _ => .behind hhalt fun value _ => .ok _
  | copyFrom r =>
      refine .bind (hinteger r (Or.inr (Or.inr (Or.inr List.mem_cons_self)))) fun value => ?_
      exact .behind hhalt fun rd _ => .ok _
  | copyTo r =>
      exact .behind hhalt fun rd hr => .bind (hrd hr) fun value => .ok _
  | multiply =>
      refine .behind hhalt fun rs hr => .bind (hrs hr) fun a => ?_
      exact .behind hhalt fun rt hr => .bind (hrt hr) fun b => .ok _
  | divide f =>
      refine .behind hhalt fun rs hr => .bind (hrs hr) fun a => ?_
      refine .behind hhalt fun rt hr => .bind (hrt hr) fun b => ?_
      by_cases hb : b = 0
      · rw [if_pos hb]
        exact .error hzero
      · rw [if_neg hb]
        exact .ok _
  | constant f => exact .behind hhalt fun rd _ => .behind hhalt fun value _ => .ok _
  | reference => exact .behind hhalt fun label _ => .behind hhalt fun rd _ => .ok _

end Mnemonic

end MipsText
