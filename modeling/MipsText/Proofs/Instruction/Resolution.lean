/-
# `MipsText.Proofs.Instruction.Resolution` — what the operands of a line can mean

`Intent.Resolves c m tokens intent` lists, one rule a shape, every way in which a
mnemonic and its operands come to an intent in a context.  `resolves` says that
nothing else happens, so whatever holds of all rules holds of all lines that
resolve, and `Resolves.eq_ok` that every rule is one that the machine follows.
Which complaint a line gives that does not resolve is not said here.
-/
import MipsText.Instruction.Intent
import MipsText.Proofs.Checked

namespace MipsText

namespace Token

theorem register_eq_ok {token : String} {r : Register} :
    Token.register token = .ok r ↔ Register.ofName? token = some r := by
  rw [Token.register]
  split
  · next found => simp [found]
  · next missing => simp [missing]

theorem immediate_eq_ok {token : String} {value : Word} :
    Token.immediate token = .ok value ↔ Token.immediate? token = some value := by
  rw [Token.immediate]
  split
  · next found => simp [found]
  · next missing => simp [missing]

end Token

/-! ## Branches -/

namespace Mnemonic

def pairBranches : List Mnemonic :=
  [.beq, .bne]

def zeroBranches : List Mnemonic :=
  [.beqz, .bnez, .bgez, .bgtz, .blez, .bltz]

theorem exists_pairTest {m : Mnemonic} (h : m ∈ pairBranches) :
    ∃ test, m.pairTest? = some test := by
  cases m <;> simp_all [pairBranches, pairTest?]

theorem exists_zeroTest {m : Mnemonic} (h : m ∈ zeroBranches) :
    ∃ test, m.zeroTest? = some test := by
  cases m <;> simp_all [zeroBranches, zeroTest?]

end Mnemonic

namespace Intent

open Checked

theorem lineOf_eq_ok {c : Context} {token : String} {line : Nat} :
    lineOf c token = .ok line ↔ c.symbols.line? token = some line := by
  rw [lineOf]
  split
  · next found => simp [found]
  · next missing => simp [missing]

/-! ## The rules -/

/-- `Resolves c m tokens intent`: in the context `c`, the mnemonic `m` with the
operands `tokens` is about to do `intent`. -/
inductive Resolves (c : Context) (m : Mnemonic) : List String → Intent → Prop
  | one {first : String} {rd : Register} : m.format = .register → m ≠ .jr →
      Register.ofName? first = some rd →
      Resolves c m [first] (.act m { rd := some rd })
  | ret {first : String} : m = .jr → Register.ofName? first = some .ra →
      Resolves c m [first] .ret
  | stay {first : String} : m = .jr → Register.ofName? first ≠ some .ra →
      Resolves c m [first] .nothing
  | two {first second : String} {rs rt : Register} : m.format = .register →
      Register.ofName? first = some rs → Token.namesRegister second = true →
      Register.ofName? second = some rt →
      Resolves c m [first, second] (.act m { rs := some rs, rt := some rt })
  | load {first second label : String} {r base : Register} {offset : Word} :
      m.loads = true → Register.ofName? first = some r →
      Token.namesRegister second = false → Token.location second = .ok (offset, base) →
      c.registers.get base = .ref label →
      Resolves c m [first, second] (.load r label offset)
  | store {first second label : String} {r base : Register} {offset : Word} :
      m.stores = true → Register.ofName? first = some r →
      Token.namesRegister second = false → Token.location second = .ok (offset, base) →
      c.registers.get base = .ref label →
      Resolves c m [first, second] (.store r label offset)
  | three {first second third : String} {rd rs rt : Register} : m.format = .register →
      Register.ofName? first = some rd → Register.ofName? second = some rs →
      Token.namesRegister third = true → Register.ofName? third = some rt →
      Resolves c m [first, second, third]
        (.act m { rd := some rd, rs := some rs, rt := some rt })
  | threeImmediate {first second third : String} {rd rs : Register} {value : Word} :
      m.format = .register → m.pairTest? = none →
      Register.ofName? first = some rd → Register.ofName? second = some rs →
      Token.namesRegister third = false → Token.immediate? third = some value →
      Resolves c m [first, second, third]
        (.act m { rd := some rd, rs := some rs, immediate := some value })
  | pairBranch {first second third : String} {r : Register} {a b : Word} {target : Nat}
      {test : Word → Word → Bool} : m.pairTest? = some test →
      Register.ofName? first = some r → Token.namesRegister third = false →
      c.symbols.line? third = some target → c.integer r = .ok a →
      comparand c second = .ok b →
      Resolves c m [first, second, third] (conditional (test a b) target)
  | zeroBranch {first second : String} {r : Register} {a : Word} {target : Nat}
      {test : Word → Bool} : m.zeroTest? = some test →
      Register.ofName? first = some r → c.integer r = .ok a →
      c.symbols.line? second = some target →
      Resolves c m [first, second] (conditional (test a) target)
  | constant {first second : String} {rd : Register} {value : Word} :
      m.format = .immediate → m.zeroTest? = none → Register.ofName? first = some rd →
      Token.namesRegister second = false → Token.immediate? second = some value →
      Resolves c m [first, second] (.act m { rd := some rd, immediate := some value })
  | label {first second : String} {rd : Register} :
      m.format = .immediate → m.zeroTest? = none → Register.ofName? first = some rd →
      Token.namesRegister second = false → Token.immediate? second = none →
      Resolves c m [first, second] (.act m { rd := some rd, label := some second })
  | combination {first second third : String} {rd rs : Register} {value : Word} :
      m.format = .immediate → m.zeroTest? = none →
      Register.ofName? first = some rd → Register.ofName? second = some rs →
      Token.immediate? third = some value →
      Resolves c m [first, second, third]
        (.act m { rd := some rd, rs := some rs, immediate := some value })
  | jump {token : String} {target : Nat} : m = .j →
      c.symbols.line? token = some target → Resolves c m [token] (.jump target)
  | call {token : String} {target : Nat} : m = .jal →
      c.symbols.line? token = some target → Resolves c m [token] (.call target)

/-! ## Every resolver follows the rules -/

section Resolvers

variable {c : Context} {m : Mnemonic} {intent : Intent}

theorem ofSingle_resolves {first : String} (hm : m.format = .register)
    (h : ofSingle m first = .ok intent) : Resolves c m [first] intent := by
  rw [ofSingle] at h
  split at h
  · next jr =>
      obtain rfl : _ = intent := Except.ok.inj h
      split
      · next isRa => exact .ret jr isRa
      · next notRa => exact .stay jr notRa
  · next notJr =>
      obtain ⟨rd, hrd, h⟩ := bind_eq_ok.mp h
      obtain rfl := pure_eq_ok.mp h
      exact .one hm notJr (Token.register_eq_ok.mp hrd)

theorem access_resolves {r : Register} {first second : String}
    (hmem : m.loads = true ∨ m.stores = true) (hr : Register.ofName? first = some r)
    (hs : Token.namesRegister second = false) (h : access c m r second = .ok intent) :
    Resolves c m [first, second] intent := by
  obtain ⟨⟨offset, base⟩, hloc, h⟩ := bind_eq_ok.mp h
  cases hbase : c.registers.get base with
  | int value => simp [hbase] at h
  | ref label =>
      simp only [hbase] at h
      split at h
      · next loads =>
          obtain rfl := Except.ok.inj h
          exact .load loads hr hs hloc hbase
      · next notLoads =>
          obtain rfl := Except.ok.inj h
          exact .store (hmem.resolve_left notLoads) hr hs hloc hbase

theorem ofPair_resolves {first second : String} (hm : m.format = .register)
    (h : ofPair c m first second = .ok intent) : Resolves c m [first, second] intent := by
  obtain ⟨rs, hrs, h⟩ := bind_eq_ok.mp h
  have hrs := Token.register_eq_ok.mp hrs
  split at h
  · next isRegister =>
      obtain ⟨rt, hrt, h⟩ := bind_eq_ok.mp h
      obtain rfl := pure_eq_ok.mp h
      exact .two hm hrs isRegister (Token.register_eq_ok.mp hrt)
  · next notRegister =>
      split at h
      · next memory =>
          exact access_resolves (Bool.or_eq_true_iff.mp memory) hrs
            (Bool.not_eq_true _ ▸ notRegister) h
      · exact absurd h throw_ne_ok

theorem ofTripleImmediate_resolves {first second third : String} {rd : Register}
    (hm : m.format = .register) (hrd : Register.ofName? first = some rd)
    (ht : Token.namesRegister third = false)
    (h : ofTripleImmediate c m rd second third = .ok intent) :
    Resolves c m [first, second, third] intent := by
  rw [ofTripleImmediate] at h
  split at h
  · next test htest =>
      obtain ⟨target, htarget, h⟩ := bind_eq_ok.mp h
      obtain ⟨a, ha, h⟩ := bind_eq_ok.mp h
      obtain ⟨b, hb, h⟩ := bind_eq_ok.mp h
      obtain rfl := pure_eq_ok.mp h
      exact .pairBranch htest hrd ht (lineOf_eq_ok.mp (liftDefect_eq_ok.mp htarget))
        (liftFault_eq_ok.mp ha) hb
  · next htest =>
      obtain ⟨rs, hrs, h⟩ := bind_eq_ok.mp h
      obtain ⟨value, hvalue, h⟩ := bind_eq_ok.mp h
      obtain rfl := pure_eq_ok.mp h
      exact .threeImmediate hm htest hrd (Token.register_eq_ok.mp (liftDefect_eq_ok.mp hrs)) ht
        (Token.immediate_eq_ok.mp (liftDefect_eq_ok.mp hvalue))

theorem ofTriple_resolves {first second third : String} (hm : m.format = .register)
    (h : ofTriple c m first second third = .ok intent) :
    Resolves c m [first, second, third] intent := by
  obtain ⟨rd, hrd, h⟩ := bind_eq_ok.mp h
  have hrd := Token.register_eq_ok.mp (liftDefect_eq_ok.mp hrd)
  split at h
  · next isRegister =>
      obtain ⟨rs, hrs, h⟩ := bind_eq_ok.mp h
      obtain ⟨rt, hrt, h⟩ := bind_eq_ok.mp h
      obtain rfl := pure_eq_ok.mp h
      exact .three hm hrd (Token.register_eq_ok.mp (liftDefect_eq_ok.mp hrs)) isRegister
        (Token.register_eq_ok.mp (liftDefect_eq_ok.mp hrt))
  · next notRegister =>
      exact ofTripleImmediate_resolves hm hrd (Bool.not_eq_true _ ▸ notRegister) h

theorem ofRegisterFormat_resolves {tokens : List String} (hm : m.format = .register)
    (h : ofRegisterFormat c m tokens = .ok intent) : Resolves c m tokens intent := by
  simp only [ofRegisterFormat] at h
  split at h
  · exact ofSingle_resolves hm (liftDefect_eq_ok.mp h)
  · exact ofPair_resolves hm (liftDefect_eq_ok.mp h)
  · exact ofTriple_resolves hm h
  · exact absurd h throw_ne_ok

theorem ofZeroBranch_resolves {tokens : List String} {test : Word → Bool}
    (htest : m.zeroTest? = some test) (h : ofZeroBranch c test tokens = .ok intent) :
    Resolves c m tokens intent := by
  simp only [ofZeroBranch] at h
  split at h
  · obtain ⟨r, hr, h⟩ := bind_eq_ok.mp h
    obtain ⟨a, ha, h⟩ := bind_eq_ok.mp h
    obtain ⟨target, htarget, h⟩ := bind_eq_ok.mp h
    obtain rfl := pure_eq_ok.mp h
    exact .zeroBranch htest (Token.register_eq_ok.mp (liftDefect_eq_ok.mp hr))
      (liftFault_eq_ok.mp ha) (lineOf_eq_ok.mp (liftDefect_eq_ok.mp htarget))
  · exact absurd h throw_ne_ok

theorem ofConstant_resolves {first second : String} (hm : m.format = .immediate)
    (hz : m.zeroTest? = none) (h : ofConstant m first second = .ok intent) :
    Resolves c m [first, second] intent := by
  obtain ⟨rd, hrd, h⟩ := bind_eq_ok.mp h
  have hrd := Token.register_eq_ok.mp hrd
  dsimp only at h
  split at h
  · obtain ⟨_, hthrow, -⟩ := bind_eq_ok.mp h
    exact absurd hthrow throw_ne_ok
  · next notRegister =>
      have hs : Token.namesRegister second = false := Bool.not_eq_true _ ▸ notRegister
      split at h
      · next value hvalue =>
          obtain rfl := pure_eq_ok.mp h
          exact .constant hm hz hrd hs hvalue
      · next hvalue =>
          obtain rfl := pure_eq_ok.mp h
          exact .label hm hz hrd hs hvalue

theorem ofCombination_resolves {first second third : String} (hm : m.format = .immediate)
    (hz : m.zeroTest? = none) (h : ofCombination m first second third = .ok intent) :
    Resolves c m [first, second, third] intent := by
  obtain ⟨rd, hrd, h⟩ := bind_eq_ok.mp h
  obtain ⟨rs, hrs, h⟩ := bind_eq_ok.mp h
  obtain ⟨value, hvalue, h⟩ := bind_eq_ok.mp h
  obtain rfl := pure_eq_ok.mp h
  exact .combination hm hz (Token.register_eq_ok.mp hrd) (Token.register_eq_ok.mp hrs)
    (Token.immediate_eq_ok.mp hvalue)

theorem ofImmediateFormat_resolves {tokens : List String} (hm : m.format = .immediate)
    (h : ofImmediateFormat c m tokens = .ok intent) : Resolves c m tokens intent := by
  simp only [ofImmediateFormat] at h
  split at h
  · next test htest => exact ofZeroBranch_resolves htest h
  · next hz =>
      split at h
      · exact ofConstant_resolves hm hz (liftDefect_eq_ok.mp h)
      · exact ofCombination_resolves hm hz (liftDefect_eq_ok.mp h)
      · exact absurd h throw_ne_ok

theorem ofJumpFormat_resolves {tokens : List String} (hm : m.format = .jump)
    (h : ofJumpFormat c m tokens = .ok intent) : Resolves c m tokens intent := by
  simp only [ofJumpFormat] at h
  split at h
  · obtain ⟨target, htarget, h⟩ := bind_eq_ok.mp h
    obtain rfl := pure_eq_ok.mp h
    have htarget := lineOf_eq_ok.mp htarget
    -- the only two mnemonics of this format
    have hj : m = .j ∨ m = .jal := by
      cases m <;> simp_all [Mnemonic.format]
    rcases hj with rfl | rfl
    · exact .jump rfl htarget
    · exact .call rfl htarget
  · exact absurd h throw_ne_ok

/-- Operands that resolve do so by one of the rules. -/
theorem resolves {tokens : List String} (h : ofInstruction c m tokens = .ok intent) :
    Resolves c m tokens intent := by
  rw [ofInstruction] at h
  split at h
  · next hm => exact ofRegisterFormat_resolves hm h
  · next hm => exact ofImmediateFormat_resolves hm h
  · next hm => exact ofJumpFormat_resolves hm (liftDefect_eq_ok.mp h)

end Resolvers

/-! ## Every rule is followed -/

section Rules

variable {c : Context} {m : Mnemonic}

theorem format_of_memory (h : m.loads = true ∨ m.stores = true) : m.format = .register := by
  cases m <;> simp_all [Mnemonic.loads, Mnemonic.stores, Mnemonic.format]

theorem format_of_pairTest? {test : Word → Word → Bool} (h : m.pairTest? = some test) :
    m.format = .register := by
  cases m <;> simp_all [Mnemonic.pairTest?, Mnemonic.format]

theorem format_of_zeroTest? {test : Word → Bool} (h : m.zeroTest? = some test) :
    m.format = .immediate := by
  cases m <;> simp_all [Mnemonic.zeroTest?, Mnemonic.format]

theorem ofInstruction_of_register (hm : m.format = .register) (tokens : List String) :
    ofInstruction c m tokens = ofRegisterFormat c m tokens := by
  rw [ofInstruction, hm]

theorem ofInstruction_of_immediate (hm : m.format = .immediate) (tokens : List String) :
    ofInstruction c m tokens = ofImmediateFormat c m tokens := by
  rw [ofInstruction, hm]

theorem ofPair_of_memory {first second label : String} {r base : Register} {offset : Word}
    (hm : m.loads = true ∨ m.stores = true) (hr : Register.ofName? first = some r)
    (hs : Token.namesRegister second = false) (hloc : Token.location second = .ok (offset, base))
    (hbase : c.registers.get base = .ref label) :
    ofPair c m first second =
      .ok (if m.loads then .load r label offset else .store r label offset) := by
  rw [ofPair, Token.register_eq_ok.mpr hr, ok_bind, if_neg (by simp [hs]),
    if_pos (by simpa using hm), access, hloc, ok_bind]
  dsimp only
  rw [hbase]
  cases m.loads <;> rfl

theorem Resolves.eq_ok {tokens : List String} {intent : Intent} (h : Resolves c m tokens intent) :
    ofInstruction c m tokens = .ok intent := by
  cases h with
  | one hm hjr hrd =>
      rw [ofInstruction_of_register hm, ofRegisterFormat, ofSingle, if_neg hjr,
        Token.register_eq_ok.mpr hrd]
      rfl
  | ret hm hra =>
      subst hm
      rw [ofInstruction_of_register rfl, ofRegisterFormat, ofSingle, if_pos rfl, if_pos hra]
      rfl
  | stay hm hra =>
      subst hm
      rw [ofInstruction_of_register rfl, ofRegisterFormat, ofSingle, if_pos rfl, if_neg hra]
      rfl
  | two hm hrs hsecond hrt =>
      rw [ofInstruction_of_register hm, ofRegisterFormat, ofPair, Token.register_eq_ok.mpr hrs,
        ok_bind, if_pos hsecond, Token.register_eq_ok.mpr hrt]
      rfl
  | load hm hr hs hloc hbase =>
      rw [ofInstruction_of_register (format_of_memory (Or.inl hm)), ofRegisterFormat,
        ofPair_of_memory (Or.inl hm) hr hs hloc hbase, if_pos hm]
      rfl
  | store hm hr hs hloc hbase =>
      have hloads : ¬ m.loads = true := by cases m <;> simp_all [Mnemonic.loads, Mnemonic.stores]
      rw [ofInstruction_of_register (format_of_memory (Or.inr hm)), ofRegisterFormat,
        ofPair_of_memory (Or.inr hm) hr hs hloc hbase, if_neg hloads]
      rfl
  | three hm hrd hrs hthird hrt =>
      rw [ofInstruction_of_register hm, ofRegisterFormat, ofTriple, Token.register_eq_ok.mpr hrd,
        liftDefect_ok, ok_bind, if_pos hthird, Token.register_eq_ok.mpr hrs,
        Token.register_eq_ok.mpr hrt]
      rfl
  | threeImmediate hm htest hrd hrs hthird hvalue =>
      rw [ofInstruction_of_register hm, ofRegisterFormat, ofTriple, Token.register_eq_ok.mpr hrd,
        liftDefect_ok, ok_bind, if_neg (by simp [hthird]), ofTripleImmediate, htest]
      dsimp only
      rw [Token.register_eq_ok.mpr hrs, Token.immediate_eq_ok.mpr hvalue]
      rfl
  | pairBranch htest hr hthird htarget ha hb =>
      rw [ofInstruction_of_register (format_of_pairTest? htest), ofRegisterFormat, ofTriple,
        Token.register_eq_ok.mpr hr, liftDefect_ok, ok_bind, if_neg (by simp [hthird]),
        ofTripleImmediate, htest]
      dsimp only
      rw [lineOf_eq_ok.mpr htarget, ha, hb]
      rfl
  | zeroBranch htest hr ha htarget =>
      rw [ofInstruction_of_immediate (format_of_zeroTest? htest), ofImmediateFormat, htest]
      dsimp only
      rw [ofZeroBranch, Token.register_eq_ok.mpr hr, liftDefect_ok, ok_bind, ha,
        lineOf_eq_ok.mpr htarget]
      rfl
  | constant hm hz hrd hsecond hvalue =>
      rw [ofInstruction_of_immediate hm, ofImmediateFormat, hz]
      dsimp only
      rw [ofConstant, Token.register_eq_ok.mpr hrd, ok_bind, hvalue]
      dsimp only
      rw [if_neg (by simp [hsecond])]
      rfl
  | label hm hz hrd hsecond hvalue =>
      rw [ofInstruction_of_immediate hm, ofImmediateFormat, hz]
      dsimp only
      rw [ofConstant, Token.register_eq_ok.mpr hrd, ok_bind, hvalue]
      dsimp only
      rw [if_neg (by simp [hsecond])]
      rfl
  | combination hm hz hrd hrs hvalue =>
      rw [ofInstruction_of_immediate hm, ofImmediateFormat, hz]
      dsimp only
      rw [ofCombination, Token.register_eq_ok.mpr hrd, Token.register_eq_ok.mpr hrs,
        Token.immediate_eq_ok.mpr hvalue]
      rfl
  | jump hm htarget =>
      subst hm
      show (ofJumpFormat c .j [_] : Except Stop Intent) = _
      rw [ofJumpFormat, lineOf_eq_ok.mpr htarget]
      rfl
  | call hm htarget =>
      subst hm
      show (ofJumpFormat c .jal [_] : Except Stop Intent) = _
      rw [ofJumpFormat, lineOf_eq_ok.mpr htarget]
      rfl

end Rules

end Intent

/-! ## Whole lines -/

namespace Statement

open Checked

/-- Does the line call a service?  Whatever follows the word does not count. -/
def callsService (line : String) : Bool :=
  let cs := Text.trim line.toList
  Text.startsWith cs "syscall" || Text.startsWith cs ".syscall"

theorem ofParts_ne_syscall {name operands : List Char} : ofParts name operands ≠ .ok .syscall := by
  unfold ofParts
  dsimp only
  split
  · split <;> simp
  · simp

theorem ofLine_eq_syscall {line : String} :
    ofLine line = .ok .syscall ↔ callsService line = true := by
  unfold ofLine callsService
  dsimp only
  split
  · next empty =>
      rw [List.isEmpty_iff.mp empty]
      exact ⟨fun h => absurd h (by simp), fun h => absurd h (by decide)⟩
  · split
    · next calls => simp [calls]
    · next notCalls =>
        refine ⟨fun h => ?_, fun h => absurd h notCalls⟩
        split at h
        · exact absurd h ofParts_ne_syscall
        · exact nomatch h

/-- The mnemonic of a line with an instruction. -/
def mnemonic? (line : String) : Option Mnemonic :=
  match ofLine line with
  | .ok (.instruction m _) => some m
  | _ => none

theorem mnemonic?_of_instruction {line : String} {m : Mnemonic} {tokens : List String}
    (h : ofLine line = .ok (.instruction m tokens)) : mnemonic? line = some m := by
  rw [mnemonic?, h]

end Statement

namespace Intent

open Checked

variable {c : Context} {line : String} {intent : Intent}

theorem ofLine_of_instruction {m : Mnemonic} {tokens : List String}
    (h : Statement.ofLine line = .ok (.instruction m tokens)) :
    ofLine c line = ofInstruction c m tokens := by
  rw [ofLine, h]
  rfl

theorem ofLine_cases (h : ofLine c line = .ok intent) :
    (Statement.ofLine line = .ok .blank ∧ intent = .nothing) ∨
    (Statement.callsService line = true ∧ intent = .service) ∨
    ∃ m tokens, Statement.ofLine line = .ok (.instruction m tokens) ∧
      Resolves c m tokens intent := by
  obtain ⟨statement, hstatement, h⟩ := bind_eq_ok.mp h
  have hstatement := liftDefect_eq_ok.mp hstatement
  cases statement with
  | blank => exact Or.inl ⟨hstatement, (pure_eq_ok.mp h).symm⟩
  | syscall =>
      exact Or.inr (Or.inl ⟨Statement.ofLine_eq_syscall.mp hstatement, (pure_eq_ok.mp h).symm⟩)
  | instruction m tokens => exact Or.inr (Or.inr ⟨m, tokens, hstatement, resolves h⟩)

theorem instruction_of_ofLine (h : ofLine c line = .ok intent) (hnothing : intent ≠ .nothing)
    (hservice : intent ≠ .service) : ∃ m tokens,
      Statement.ofLine line = .ok (.instruction m tokens) ∧ Resolves c m tokens intent := by
  rcases ofLine_cases h with ⟨-, h⟩ | ⟨-, h⟩ | h
  · exact absurd h hnothing
  · exact absurd h hservice
  · exact h

theorem conditional_ne {taken : Bool} {target : Nat} {intent : Intent}
    (hjump : ∀ i, intent ≠ .jump i) (hnothing : intent ≠ .nothing) :
    conditional taken target ≠ intent := by
  cases taken with
  | true => exact (hjump target).symm
  | false => exact hnothing.symm

theorem Resolves.ne_service {m : Mnemonic} {tokens : List String}
    (h : Resolves c m tokens intent) : intent ≠ .service := by
  cases h with
  | pairBranch => exact conditional_ne (by simp) (by simp)
  | zeroBranch => exact conditional_ne (by simp) (by simp)
  | _ => simp

/-- A service is called on the lines that say so, and on no other. -/
theorem callsService_of_ofLine (h : ofLine c line = .ok .service) :
    Statement.callsService line = true := by
  rcases ofLine_cases h with ⟨-, h⟩ | ⟨h, -⟩ | ⟨m, tokens, -, h⟩
  · exact nomatch h
  · exact h
  · exact absurd rfl h.ne_service

end Intent

end MipsText
