/-
# `MipsText.Proofs.Machine.Provenance` — where references come from

A reference gets into a register in two ways only: `la` puts it there, or `move` copies
it from a register that holds it.  So every reference that turns up in a run is written
on an `la` line of the program (`Program.Refers`), and only registers that an operand can
name ever hold one, which leaves out `hi` and `lo`.  Storage is reached through references
alone: the storage of a label that no `la` line names stays as it was assembled.

`Machine.Provenance` is the invariant of a run, and `Stepped.provenance` says that every
step keeps it.
-/
import MipsText.Proofs.Instruction.Spelling
import MipsText.Proofs.Machine.Control
import MipsText.Proofs.Machine.Footprint
import MipsText.Proofs.Symbols

namespace MipsText

/-! ## Labels in the text -/

/-- A token that is read as a label where a number could stand: it is not empty, has no
comma, is not meant to be a register and is no number. -/
def Token.IsLabel (token : String) : Prop :=
  token ≠ "" ∧ ',' ∉ token.toList ∧ Token.namesRegister token = false ∧
    Token.immediate? token = none
deriving Decidable

/-- `p.Refers label`: some line of `p` is an `la` with two operands, of which the second
is `label`, and this is read as a label. -/
def Program.Refers (p : Program) (label : String) : Prop :=
  Token.IsLabel label ∧ ∃ line ∈ p.lines, ∃ first, Statement.Spells line .la [first, label]

/-- The label that an `la` line names. -/
def Statement.referent? (line : String) : Option String :=
  match ofLine line with
  | .ok (.instruction .la [_, label]) => some label
  | _ => none

theorem Statement.referent?_eq_some {line label : String} :
    referent? line = some label ↔ ∃ first, Spells line .la [first, label] := by
  constructor
  · intro h
    unfold referent? at h
    split at h
    · next first found hline =>
        obtain rfl := Option.some.inj h
        exact ⟨first, (ofLine_eq_instruction.mp hline).1⟩
    · exact nomatch h
  · rintro ⟨first, hspells⟩
    have hline := ofLine_eq_instruction.mpr ⟨hspells, by simp, by simp⟩
    rw [referent?, hline]

instance (p : Program) (label : String) : Decidable (p.Refers label) :=
  decidable_of_iff (Token.IsLabel label ∧ ∃ line ∈ p.lines, Statement.referent? line = some label)
    (by simp only [Program.Refers, Statement.referent?_eq_some])

/-! ## References that a line makes -/

namespace Intent

variable {c : Context} {m : Mnemonic} {tokens : List String}

theorem Resolves.label_eq {mnemonic : Mnemonic} {o : Operands Register} {label : String}
    (h : Resolves c m tokens (.act mnemonic o)) (hlabel : o.label = some label) :
    ∃ first, tokens = [first, label] ∧ Token.namesRegister label = false ∧
      Token.immediate? label = none := by
  generalize hact : Intent.act mnemonic o = intent at h
  cases h with
  | pairBranch => exact absurd hact.symm (conditional_ne (by simp) (by simp))
  | zeroBranch => exact absurd hact.symm (conditional_ne (by simp) (by simp))
  | label _ _ _ hsecond hnumber =>
      cases hact
      obtain rfl := Option.some.inj hlabel
      exact ⟨_, rfl, hsecond, hnumber⟩
  | _ => cases hact <;> exact nomatch hlabel

theorem Resolves.held_of_store {r : Register} {label : String} {offset : Word}
    (h : Resolves c m tokens (.store r label offset)) :
    ∃ base, c.registers.get base = .ref label := by
  generalize hstore : Intent.store r label offset = intent at h
  cases h with
  | store _ _ _ _ hbase =>
      cases hstore
      exact ⟨_, hbase⟩
  | pairBranch => exact absurd hstore.symm (conditional_ne (by simp) (by simp))
  | zeroBranch => exact absurd hstore.symm (conditional_ne (by simp) (by simp))
  | _ => exact nomatch hstore

end Intent

theorem Mnemonic.eq_la_of_action {m : Mnemonic} (h : m.action = .reference) : m = .la := by
  cases m <;> simp_all [action]

namespace Machine

section Line

variable {m : Machine} {line : String} {intent : Intent} {change : Change} {label : String}

theorem Evaluates.of_set_ref {r : Register} (h : Evaluates m intent (.set r (.ref label))) :
    ∃ mnemonic o, intent = .act mnemonic o ∧ (o.rd = some r ∨ o.rs = some r) ∧
      ((∃ q, m.registers.get q = .ref label) ∨ mnemonic = .la ∧ o.label = some label) := by
  generalize hset : Change.set r (.ref label) = change at h
  cases h with
  | @act mnemonic o change hact =>
      subst hset
      refine ⟨mnemonic, o, rfl, ?_⟩
      generalize haction : mnemonic.action = action at hact
      generalize hcell : Cell.ref label = cell at hact
      cases Mnemonic.acts hact with
      | copy _ hrs => exact ⟨Or.inr hrs, Or.inl ⟨_, rfl⟩⟩
      | reference hlabel hrd =>
          cases hcell
          exact ⟨Or.inl hrd, Or.inr ⟨Mnemonic.eq_la_of_action haction, hlabel⟩⟩
      | _ => exact nomatch hcell
  | service hserved =>
      subst hset
      exact nomatch hserved
  | _ => exact nomatch hset

/-- A line that puts a reference into a register names this register; and it copies the
reference from another, or is an `la` that names the label. -/
theorem of_set_ref {r : Register} (hintent : Intent.ofLine m.toContext line = .ok intent)
    (h : Evaluates m intent (.set r (.ref label))) :
    (∃ token, Register.ofName? token = some r) ∧
      ((∃ q, m.registers.get q = .ref label) ∨
        Token.IsLabel label ∧ ∃ first, Statement.Spells line .la [first, label]) := by
  obtain ⟨mnemonic, o, rfl, hr, hfrom⟩ := h.of_set_ref
  obtain ⟨m', tokens, hline, hresolves⟩ := Intent.instruction_of_ofLine hintent nofun nofun
  obtain rfl := hresolves.act_mnemonic
  obtain ⟨token, -, hname⟩ := hresolves.named hr
  refine ⟨⟨token, hname⟩, hfrom.imp id ?_⟩
  rintro ⟨rfl, hlabel⟩
  obtain ⟨first, rfl, hregister, hnumber⟩ := hresolves.label_eq hlabel
  obtain ⟨hspells, -⟩ := Statement.ofLine_eq_instruction.mp hline
  have hempty : label ≠ "" := hspells.last_ne_empty rfl
  have hcomma : ',' ∉ label.toList := hspells.comma_notMem (by simp)
  exact ⟨⟨hempty, hcomma, hregister, hnumber⟩, first, hspells⟩

theorem held_of_label? (hintent : Intent.ofLine m.toContext line = .ok intent)
    (h : Evaluates m intent change) (hlabel : change.label? = some label) :
    ∃ r, m.registers.get r = .ref label := by
  cases h with
  | act hact =>
      rcases Mnemonic.Action.evaluate_shape hact with rfl | ⟨_, _, rfl⟩ | ⟨_, _, rfl⟩ <;>
        exact nomatch hlabel
  | store =>
      obtain rfl := Option.some.inj hlabel
      obtain ⟨_, _, -, hresolves⟩ := Intent.instruction_of_ofLine hintent nofun nofun
      exact hresolves.held_of_store
  | service hserved =>
      cases hserved with
      | readString _ _ hreference =>
          obtain rfl := Option.some.inj hlabel
          exact ⟨.a0, RegisterFile.reference_eq_ok.mp hreference⟩
      | _ => exact nomatch hlabel
  | _ => exact nomatch hlabel

end Line

/-! ## Changes -/

section Apply

variable {m : Machine} {change : Change} {label : String}

theorem get_apply_eq_ref {r : Register} (h : (m.apply change).registers.get r = .ref label) :
    m.registers.get r = .ref label ∨ change = .set r (.ref label) := by
  have before {f : RegisterFile} {q : Register} {value : Word}
      (h : (f.set q (.int value)).get r = .ref label) : f.get r = .ref label := by
    rw [RegisterFile.get_set] at h
    split at h
    · exact nomatch h
    · exact h
  cases change with
  | set q cell =>
      have h : (m.registers.set q cell).get r = .ref label := h
      rw [RegisterFile.get_set] at h
      split at h
      · next same => exact Or.inr (by rw [same, h])
      · exact Or.inl h
  | setResults hi lo => exact Or.inl (before (before h))
  | call target => exact Or.inl (before h)
  | tookInteger value rest => exact Or.inl (before h)
  | _ => exact Or.inl h

theorem apply_storage (h : change.label? ≠ some label) :
    (m.apply change).symbols.words[label]? = m.symbols.words[label]? ∧
      (m.apply change).symbols.strings[label]? = m.symbols.strings[label]? := by
  cases change with
  | store name i value =>
      have hname : name ≠ label := fun same => h (congrArg some same)
      exact ⟨(Symbols.words_setWord _ name label i value).trans (if_neg hname), rfl⟩
  | tookString name text rest =>
      have hname : name ≠ label := fun same => h (congrArg some same)
      exact ⟨(Symbols.words_turnIntoString _ name label text).trans (if_neg hname),
        (Symbols.strings_turnIntoString _ name label text).trans (if_neg hname)⟩
  | _ => exact ⟨rfl, rfl⟩

end Apply

/-! ## Steps and runs -/

/-- `Provenance p m`: every reference that `m` holds is written on a line of `p` and in a
register that operands can name, and `m` has changed no storage but that of labels that
are written so. -/
structure Provenance (p : Program) (m : Machine) : Prop where
  lines : m.lines = p.lines
  refers : ∀ r label, m.registers.get r = .ref label → p.Refers label
  named : ∀ r label, m.registers.get r = .ref label → r ≠ .hi ∧ r ≠ .lo
  storage : ∀ label, ¬ p.Refers label →
    m.symbols.words[label]? = p.symbols.words[label]? ∧
      m.symbols.strings[label]? = p.symbols.strings[label]?

theorem provenance_start (p : Program) (policy : ReferencePolicy) (input : Stream)
    (limit : Option Nat) : Provenance p (start p policy input limit) := by
  have hint : ∀ r, (start p policy input limit).registers.get r = .int 0 := by
    intro r
    exact Vector.getElem_replicate r.isLt
  refine ⟨rfl, ?_, ?_, fun _ _ => ⟨rfl, rfl⟩⟩
  · intro r label h
    exact nomatch (hint r).symm.trans h
  · intro r label h
    exact nomatch (hint r).symm.trans h

/-- Every step keeps the provenance of references. -/
theorem Stepped.provenance {p : Program} {m m' : Machine} {fault : Option Fault}
    (h : Stepped m m' fault) (hm : Provenance p m) : Provenance p m' := by
  cases h with
  | @changed line intent change _ hline hintent hchange =>
      have hmem : line ∈ p.lines := by
        rw [← hm.lines]
        exact Array.mem_of_getElem? hline
      refine ⟨(apply_lines m change).trans hm.lines, ?_, ?_, ?_⟩
      · intro r label hr
        rcases get_apply_eq_ref hr with hr | rfl
        · exact hm.refers r label hr
        · rcases (of_set_ref hintent hchange).2 with ⟨q, hq⟩ | ⟨hlabel, hspells⟩
          · exact hm.refers q label hq
          · exact ⟨hlabel, line, hmem, hspells⟩
      · intro r label hr
        rcases get_apply_eq_ref hr with hr | rfl
        · exact hm.named r label hr
        · obtain ⟨token, htoken⟩ := (of_set_ref hintent hchange).1
          exact Register.ne_results_of_ofName? htoken
      · intro label hlabel
        have hother : change.label? ≠ some label := by
          intro hchanged
          obtain ⟨r, hr⟩ := held_of_label? hintent hchange hchanged
          exact hlabel (hm.refers r label hr)
        obtain ⟨hwords, hstrings⟩ := apply_storage (m := m) hother
        exact ⟨hwords.trans (hm.storage label hlabel).1, hstrings.trans (hm.storage label hlabel).2⟩
  | _ => exact ⟨hm.lines, hm.refers, hm.named, hm.storage⟩

/-- References come from the text.  Over every run of a program, a reference in a register
is written on an `la` line, as a second operand that is read as a label; `hi` and `lo` hold
integers; and a label that no such line names has the words and the string that the
program has for it. -/
theorem run_provenance (p : Program) (policy : ReferencePolicy) (input : Stream)
    (limit : Option Nat) (n : Nat) :
    let m := (start p policy input limit).after n
    (∀ r label, m.registers.get r = .ref label → p.Refers label) ∧
    ((∃ a, m.registers.get .hi = .int a) ∧ ∃ b, m.registers.get .lo = .int b) ∧
    ∀ label, ¬ p.Refers label →
      m.symbols.words[label]? = p.symbols.words[label]? ∧
        m.symbols.strings[label]? = p.symbols.strings[label]? := by
  intro m
  have hm : Provenance p m :=
    after_induction (provenance_start p policy input limit)
      (fun m' hm' => (stepped m').provenance hm') n
  have integer {r : Register} (hr : r = .hi ∨ r = .lo) : ∃ a, m.registers.get r = .int a := by
    cases hcell : m.registers.get r with
    | int a => exact ⟨a, rfl⟩
    | ref label =>
        obtain ⟨hhi, hlo⟩ := hm.named r label hcell
        exact absurd hr (not_or.mpr ⟨hhi, hlo⟩)
  exact ⟨hm.refers, ⟨integer (Or.inl rfl), integer (Or.inr rfl)⟩, hm.storage⟩

/-- A reference that is copied and then read into: its label is written in the program,
and the other labels keep their storage. -/
theorem run_provenance_copied :
    let source := Stream.ofString (".data\nbuf: .space 4\nkept: .word 7\n.text\n" ++
      "LA $t0 , buf\nmove $a0, $t0\nli $v0, 8\nli $a1, 3\nsyscall\n")
    let p := (Assembly.ofLines source.lines).program
    let m := (start p .strict (Stream.ofString "hello\n") none).after 5
    m.registers.get .a0 = .ref "buf" ∧ p.Refers "buf" ∧
      m.symbols.strings["buf"]? = some "hel" ∧ m.symbols.words["buf"]? = none ∧
      ¬ p.Refers "kept" ∧ m.symbols.words["kept"]? = p.symbols.words["kept"]? := by
  intro source p m
  obtain ⟨ha0, hstring, hwords, hkept⟩ : m.registers.get .a0 = .ref "buf" ∧
      m.symbols.strings["buf"]? = some "hel" ∧ m.symbols.words["buf"]? = none ∧
      ¬ p.Refers "kept" := by
    decide +kernel
  have hrun := run_provenance p .strict (Stream.ofString "hello\n") none 5
  have hm : (start p .strict (Stream.ofString "hello\n") none).after 5 = m := rfl
  -- from here on the run is not to be evaluated again
  clear_value m
  simp only [hm] at hrun
  obtain ⟨hrefers, -, hstorage⟩ := hrun
  exact ⟨ha0, hrefers .a0 "buf" ha0, hstring, hwords, hkept, (hstorage "kept" hkept).1⟩

end Machine

end MipsText
