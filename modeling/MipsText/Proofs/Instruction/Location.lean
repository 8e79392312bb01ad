/-
# `MipsText.Proofs.Instruction.Location` — the tokens that are places in memory

A place in memory is written `offset(base)`.  The first parenthesis that opens ends the offset,
and the token has to end with one that closes; what stands in between is meant to be the base,
more parentheses included.  So a token with a good offset is wrong only about its base, and then
the base is named; any other token is wrong as a whole (`Token.Located`).

Numbers and names have neither blanks nor parentheses, so the token that is written with them is
taken apart where it was put together, and blanks around either of them do not count
(`located_of_padded`).
-/
import MipsText.Proofs.Instruction.Naming

namespace MipsText

namespace Token

theorem ne_paren_of_isBlank {b : Char} (h : Text.isBlank b = true) : b ≠ '(' := by
  rintro rfl
  exact absurd h (by decide)

theorem ne_paren_of_immediate? {cs : List Char} {offset : Word}
    (h : Text.immediate? cs = some offset) : ∀ c ∈ cs, c ≠ '(' := by
  have hall : Text.numeralChars.all (· != '(') = true := by decide
  intro c hc
  simpa using List.all_eq_true.mp hall c (Text.mem_numeralChars_of_immediate? h c hc)

theorem located_of_padded {numeral name : String} {before inside : List Char} {offset : Word}
    {base : Register} (hnumeral : Text.immediate? numeral.toList = some offset)
    (hname : Register.ofName? name = some base) (hbefore : Statement.Padded numeral before)
    (hinside : Statement.Padded name inside) :
    Located (String.ofList before ++ "(" ++ String.ofList inside ++ ")") (.ok (offset, base)) := by
  have hencloses : Encloses (String.ofList before ++ "(" ++ String.ofList inside ++ ")").toList
      before inside := by
    refine ⟨by simp, ?_⟩
    intro hparen
    have hchars : ∀ c ∈ before, c ≠ '(' :=
      hbefore.forall_mem (fun _ => ne_paren_of_isBlank) (ne_paren_of_immediate? hnumeral)
    exact hchars '(' hparen rfl
  refine .place hencloses (Or.inr ?_) ?_
  · rw [hbefore.trim_eq (Text.solid_of_immediate? hnumeral).trim_eq]
    exact hnumeral
  · rw [hinside.trim_eq (Register.solid_of_ofName? hname).trim_eq, String.ofList_toList]
    exact hname

theorem immediate_of_mem_texts {offset : Word} {numeral : String}
    (h : numeral ∈ [Text.decimal offset.toInt, "0x" ++ Text.hexadecimal offset.toNat]) :
    Text.Immediate numeral.toList offset.toInt := by
  rcases List.mem_pair.mp h with rfl | rfl
  · exact Text.immediate_of_eq_some (immediate?_text offset)
  · exact Text.immediate_of_eq_some (immediate?_hexadecimal offset)

/-- Places in memory are read by their grammar.  A token is read as a place if it is `x(y)` with
no opening parenthesis in `x`, and between blanks `x` is the offset, or is empty for the offset
zero, and `y` is the base.  The base is complained about if nothing else is wrong, and the token
in all other cases.  So a place that is written with a decimal or hexadecimal number and a name
of a register gives both of them back, whatever blanks there are around them. -/
theorem location_grammar :
    (∀ token : String,
      (∀ offset base, location token = .ok (offset, base) ↔
        ∃ before inside, Encloses token.toList before inside ∧
          Offset (Text.trim before) offset ∧
          Register.ofName? (String.ofList (Text.trim inside)) = some base) ∧
      (∀ name, location token = .error (.invalidRegister name) ↔
        ∃ before inside offset, Encloses token.toList before inside ∧
          Offset (Text.trim before) offset ∧ name = String.ofList (Text.trim inside) ∧
          Register.ofName? name = none) ∧
      (location token = .error (.invalidMemoryOperand token) ↔
        ∀ before inside offset, Encloses token.toList before inside →
          ¬Offset (Text.trim before) offset) ∧
      ∀ defect, location token = .error defect →
        (∃ name, defect = .invalidRegister name) ∨ defect = .invalidMemoryOperand token) ∧
    (∀ (offset : Word) (numeral : String),
      numeral ∈ [Text.decimal offset.toInt, "0x" ++ Text.hexadecimal offset.toNat] →
      Text.Immediate numeral.toList offset.toInt) ∧
    ∀ (offset : Word) (base : Register) (numeral name : String) (before inside : List Char),
      Text.Immediate numeral.toList offset.toInt → Register.Named name base →
      Statement.Padded numeral before → Statement.Padded name inside →
      location (String.ofList before ++ "(" ++ String.ofList inside ++ ")") =
        .ok (offset, base) := by
  refine ⟨?_, ?_, ?_⟩
  · intro token
    refine ⟨?_, ?_, ?_, ?_⟩
    · intro offset base
      rw [location_eq_iff]
      constructor
      · intro h
        cases h with
        | place hencloses hoffset hbase => exact ⟨_, _, hencloses, hoffset, hbase⟩
      · rintro ⟨before, inside, hencloses, hoffset, hbase⟩
        exact .place hencloses hoffset hbase
    · intro name
      rw [location_eq_iff]
      constructor
      · intro h
        cases h with
        | unknownBase hencloses hoffset hbase => exact ⟨_, _, _, hencloses, hoffset, rfl, hbase⟩
      · rintro ⟨before, inside, offset, hencloses, hoffset, rfl, hbase⟩
        exact .unknownBase hencloses hoffset hbase
    · rw [location_eq_iff]
      constructor
      · intro h
        cases h with
        | malformed hnone => exact hnone
      · exact .malformed
    · intro defect h
      cases location_eq_iff.mp h with
      | unknownBase => exact Or.inl ⟨_, rfl⟩
      | malformed => exact Or.inr rfl
  · intro offset numeral
    exact immediate_of_mem_texts
  · intro offset base numeral name before inside hnumeral hname hbefore hinside
    obtain ⟨w, hread, hw⟩ := hnumeral.read
    obtain rfl : w = offset := BitVec.eq_of_toInt_eq hw
    exact (located_of_padded hread hname.ofName?_eq hbefore hinside).location_eq

/-- A negative hexadecimal offset and a base by its number, between blanks; the decimal text of
the same offset and the name of the same base; and a base in parentheses of its own, which is no
register. -/
theorem location_grammar_nested :
    location "\t-0x10 ( $0029\t)" = .ok (-16, 29) ∧ location "-16($sp)" = .ok (-16, 29) ∧
      location "4(($a0))" = .error (.invalidRegister "($a0)") := by
  obtain ⟨hverdicts, htexts, hplaces⟩ := location_grammar
  refine ⟨?_, ?_, ?_⟩
  · have hoffset : Text.Figures 16 ['1', '0'] 16 :=
      ⟨by simp, [1, 0], .cons (by decide) (.cons (by decide) .nil), rfl⟩
    have hbase : Text.Figures 10 ['0', '0', '2', '9'] 29 := by
      refine ⟨by simp, [0, 0, 2, 9], ?_, rfl⟩
      exact .cons (by decide) (.cons (by decide) (.cons (by decide) (.cons (by decide) .nil)))
    have hsign : ['-'] ∈ Text.signs := by decide
    have hmark : ['0', 'x'] ∈ Text.hexMarks := by decide
    exact hplaces (-16) 29 "-0x10" "$0029" "\t-0x10 ".toList " $0029\t".toList
      (.hexadecimal hsign hmark hoffset (by decide) (by decide)) (.number (by decide) rfl hbase)
      ⟨['\t'], [' '], rfl, by decide, by decide⟩ ⟨[' '], ['\t'], rfl, by decide, by decide⟩
  · have htext := htexts (-16) "-16" List.mem_cons_self
    have hlt : (29 : Register).val < 32 := by decide
    have hname : Register.Named "$sp" 29 := Register.Named.name hlt
    exact hplaces (-16) 29 "-16" "$sp" "-16".toList "$sp".toList htext hname
      ⟨[], [], rfl, by decide, by decide⟩ ⟨[], [], rfl, by decide, by decide⟩
  · refine ((hverdicts "4(($a0))").2.1 "($a0)").mpr ⟨['4'], "($a0)".toList, 4, ?_, ?_, ?_, ?_⟩
    · exact ⟨rfl, by simp⟩
    · exact Or.inr rfl
    · decide +kernel
    · rfl

end Token

end MipsText
