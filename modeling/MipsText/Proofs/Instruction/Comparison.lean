/-
# `MipsText.Proofs.Instruction.Comparison` — one line in two contexts

A line is resolved against registers, a policy and the lines of labels.  `Context.Matches`
says how two contexts may differ for this line: labels may stand for other lines, renamed by
`f`; a register that an operand names may be read as an integer in one context where the
other complains, which is what `bad` is about; and registers that no operand names may hold
anything.  Then the line is about to do the same in both contexts, with the lines it goes to
renamed, or it stops for the same reason, unless this is a bad one (`ofLine_relaxes`).

This goes through the resolver once, function by function.  Where contexts are compared for
one reason or another, what is needed is an instance of it.
-/
import MipsText.Proofs.Instruction.Resolution
import MipsText.Proofs.Instruction.Spelling
import MipsText.Proofs.Relaxation

namespace MipsText

open Checked

/-- `Token.Names token r`: the token is the name of `r`, or a place in memory with `r` as its
base. -/
inductive Token.Names (token : String) (r : Register) : Prop
  | register : Register.ofName? token = some r → Names token r
  | base {offset : Word} : Token.location token = .ok (offset, r) → Names token r

theorem Token.Names.lt {token : String} {r : Register} (h : Names token r) : r.val < 32 := by
  cases h with
  | register hname => exact Register.lt_of_ofName? hname
  | base hlocation =>
      cases Token.location_eq_iff.mp hlocation with
      | place _ _ hbase => exact Register.lt_of_ofName? hbase

/-- `c.Matches bad f tokens c'`: for these operands, `c'` is `c` up to the lines of labels and
to complaints in `bad`. -/
structure Context.Matches (bad : Stop → Prop) (f : Nat → Nat) (tokens : List String)
    (c c' : Context) : Prop where
  line : ∀ label, c'.symbols.line? label = (c.symbols.line? label).map f
  integer : ∀ token ∈ tokens, ∀ r, Token.Names token r →
    Relaxes bad id (liftM (c.integer r) : Except Stop Word) (liftM (c'.integer r))
  cell : ∀ token ∈ tokens, ∀ r, Token.Names token r → c'.registers.get r = c.registers.get r
  halt : ∀ d, ¬ bad (.halt d)

namespace Intent

/-- The intent with the line that it goes to renamed. -/
def moved (f : Nat → Nat) : Intent → Intent
  | .jump target => .jump (f target)
  | .call target => .call (f target)
  | intent => intent

theorem moved_id : moved id = id := by
  funext intent
  cases intent <;> rfl

theorem moved_conditional (f : Nat → Nat) (taken : Bool) (target : Nat) :
    (conditional taken target).moved f = conditional taken (f target) := by
  cases taken <;> rfl

section Resolvers

variable {bad : Stop → Prop} {f : Nat → Nat} {tokens : List String} {c c' : Context}
variable {m : Mnemonic} {first second third : String}

theorem lineOf_mapped (h : Context.Matches bad f tokens c c') (token : String) :
    Mapped f (lineOf c token) (lineOf c' token) := by
  rw [Mapped, lineOf, lineOf, h.line]
  cases c.symbols.line? token <;> rfl

theorem comparand_relaxes (h : Context.Matches bad f tokens c c') (hsecond : second ∈ tokens) :
    Relaxes bad id (comparand c second) (comparand c' second) := by
  rw [comparand, comparand]
  split
  · refine .behind h.halt fun r hr => ?_
    exact h.integer second hsecond r (.register (Token.register_eq_ok.mp hr))
  · exact .defect h.halt (.same fun _ _ => rfl)

theorem access_mapped (h : Context.Matches bad f tokens c c') (hsecond : second ∈ tokens)
    (register : Register) :
    Mapped (moved f) (access c m register second) (access c' m register second) := by
  refine .behind fun (offset, base) hlocation => ?_
  dsimp only
  rw [h.cell second hsecond base (.base hlocation)]
  split
  · split <;> rfl
  · rfl

theorem ofPair_mapped (h : Context.Matches bad f tokens c c') (hsecond : second ∈ tokens) :
    Mapped (moved f) (ofPair c m first second) (ofPair c' m first second) := by
  refine .behind fun rs _ => ?_
  split
  · exact .behind fun rt _ => rfl
  · split
    · exact access_mapped h hsecond rs
    · rfl

theorem ofTripleImmediate_relaxes (h : Context.Matches bad f tokens c c')
    (hsecond : second ∈ tokens) {rd : Register} (hfirst : first ∈ tokens)
    (hrd : Token.Names first rd) :
    Relaxes bad (moved f) (ofTripleImmediate c m rd second third)
      (ofTripleImmediate c' m rd second third) := by
  rw [ofTripleImmediate, ofTripleImmediate]
  cases m.pairTest? with
  | some condition =>
      refine .check h.halt (lineOf_mapped h third) fun target _ => ?_
      refine .bind (h.integer first hfirst rd hrd) fun a => ?_
      refine .bind (comparand_relaxes h hsecond) fun b => ?_
      rw [← moved_conditional]
      exact .ok _
  | none =>
      refine .behind h.halt fun rs _ => ?_
      exact .behind h.halt fun value _ => .ok _

theorem ofTriple_relaxes (h : Context.Matches bad f tokens c c') (hfirst : first ∈ tokens)
    (hsecond : second ∈ tokens) :
    Relaxes bad (moved f) (ofTriple c m first second third)
      (ofTriple c' m first second third) := by
  refine .behind h.halt fun rd hrd => ?_
  split
  · refine .behind h.halt fun rs _ => ?_
    exact .behind h.halt fun rt _ => .ok _
  · exact ofTripleImmediate_relaxes h hsecond hfirst (.register (Token.register_eq_ok.mp hrd))

theorem ofSingle_mapped (token : String) :
    Mapped (moved f) (ofSingle m token) (ofSingle m token) := by
  rw [ofSingle]
  split
  · split <;> rfl
  · exact .behind fun rd _ => rfl

theorem ofConstant_mapped :
    Mapped (moved f) (ofConstant m first second) (ofConstant m first second) := by
  refine .behind fun rd _ => ?_
  dsimp only
  split
  · rfl
  · split <;> rfl

theorem ofCombination_mapped :
    Mapped (moved f) (ofCombination m first second third) (ofCombination m first second third) :=
  .behind fun _ _ => .behind fun _ _ => .behind fun _ _ => rfl

theorem ofJumpFormat_mapped (h : Context.Matches bad f tokens c c') (operands : List String) :
    Mapped (moved f) (ofJumpFormat c m operands) (ofJumpFormat c' m operands) := by
  rw [ofJumpFormat.eq_def, ofJumpFormat.eq_def]
  split
  · refine .bind (lineOf_mapped h _) fun target _ => ?_
    split <;> rfl
  · rfl

theorem ofRegisterFormat_relaxes (h : Context.Matches bad f tokens c c') :
    Relaxes bad (moved f) (ofRegisterFormat c m tokens) (ofRegisterFormat c' m tokens) := by
  rw [ofRegisterFormat.eq_def, ofRegisterFormat.eq_def]
  split
  · exact .defect h.halt (ofSingle_mapped _)
  · exact .defect h.halt (ofPair_mapped h (by simp))
  · exact ofTriple_relaxes h (by simp) (by simp)
  · exact .error (h.halt _)

theorem ofZeroBranch_relaxes (h : Context.Matches bad f tokens c c') (condition : Word → Bool) :
    Relaxes bad (moved f) (ofZeroBranch c condition tokens)
      (ofZeroBranch c' condition tokens) := by
  rw [ofZeroBranch.eq_def, ofZeroBranch.eq_def]
  split
  · refine .behind h.halt fun r hr => ?_
    have hname := Token.register_eq_ok.mp hr
    refine .bind (h.integer _ (by simp) r (.register hname)) fun value => ?_
    refine .check h.halt (lineOf_mapped h _) fun target _ => ?_
    rw [← moved_conditional]
    exact .ok _
  · exact .error (h.halt _)

theorem ofImmediateFormat_relaxes (h : Context.Matches bad f tokens c c') :
    Relaxes bad (moved f) (ofImmediateFormat c m tokens) (ofImmediateFormat c' m tokens) := by
  rw [ofImmediateFormat.eq_def, ofImmediateFormat.eq_def]
  cases m.zeroTest? with
  | some condition => exact ofZeroBranch_relaxes h condition
  | none =>
      dsimp only
      split
      · exact .defect h.halt ofConstant_mapped
      · exact .defect h.halt ofCombination_mapped
      · exact .error (h.halt _)

theorem ofInstruction_relaxes (h : Context.Matches bad f tokens c c') (m : Mnemonic) :
    Relaxes bad (moved f) (ofInstruction c m tokens) (ofInstruction c' m tokens) := by
  rw [ofInstruction, ofInstruction]
  cases m.format with
  | register => exact ofRegisterFormat_relaxes h
  | immediate => exact ofImmediateFormat_relaxes h
  | jump => exact .defect h.halt (ofJumpFormat_mapped h tokens)

/-- A line is about to do the same in contexts that match for its operands. -/
theorem ofLine_relaxes {line : String} (hbad : ∀ d, ¬ bad (.halt d))
    (h : ∀ m tokens, Statement.ofLine line = .ok (.instruction m tokens) →
      Context.Matches bad f tokens c c') :
    Relaxes bad (moved f) (ofLine c line) (ofLine c' line) := by
  refine .behind hbad fun statement hstatement => ?_
  cases statement with
  | blank => exact .ok _
  | syscall => exact .ok _
  | instruction m tokens => exact ofInstruction_relaxes (h m tokens hstatement) m

end Resolvers

end Intent

end MipsText
