/-
# `MipsText.Proofs.Instruction.Spelling` — how instructions and operands are written

`Statement.Spells line m tokens` says what an instruction looks like on its line: the
mnemonic in any mix of cases, a blank, and the operands between commas.
`ofLine_eq_instruction` says that these are the lines that are read as instructions,
so a fact about the instructions of a program is a fact about its text.  Operands hold
no comma, the last of them is not empty, and none of them names `hi` or `lo`.  Blanks around
an operand do not count (`Statement.Padded`).

`Token.Located` says which operands are places in memory, and what is wrong with the others;
`location_eq_iff` says that every operand is read so.  What begins with `$` is neither a number
nor a place in memory.
-/
import MipsText.Instruction.Statement
import MipsText.Instruction.Token
import MipsText.Proofs.Text.Splitting

namespace MipsText

/-! ## Registers -/

namespace Register

theorem ofNumber?_eq_some {n : Nat} {r : Register} :
    ofNumber? n = some r ↔ n = r.val ∧ r.val < 32 := by
  unfold ofNumber?
  constructor
  · intro h
    split at h
    · next hn =>
        obtain rfl := Option.some.inj h
        exact ⟨rfl, hn⟩
    · simp at h
  · rintro ⟨rfl, hr⟩
    rw [dif_pos hr]

theorem mem_wordNames {name : String} {r : Register} (h : wordNames.lookup name = some r) :
    (name, r) ∈ wordNames := by
  obtain ⟨before, behind, hsplit, -⟩ := List.lookup_eq_some_iff.mp h
  rw [hsplit]
  exact List.mem_append_right _ List.mem_cons_self

theorem Family.member?_eq_some {f : Family} {letter : Char} {digit : Nat} {r : Register} :
    f.member? letter digit = some r ↔ letter = f.letter ∧ f.first ≤ digit ∧ digit ≤ f.last ∧
      r.val = f.base + (digit - f.first) := by
  unfold member?
  split
  · next h =>
      rw [Option.some.injEq, Fin.ext_iff, eq_comm]
      exact ⟨fun hr => ⟨h.1, h.2.1, h.2.2, hr⟩, fun hr => hr.2.2.2⟩
  · next h =>
      refine ⟨fun hr => by simp at hr, fun hr => absurd ⟨hr.1, hr.2.1, hr.2.2.1⟩ h⟩

theorem exists_family {rest : List Char} {r : Register} (h : ofFamily? rest = some r) :
    ∃ letter c digit, rest = [letter, c] ∧ Text.digit? 10 c = some digit ∧
      ∃ f ∈ families, f.member? letter digit = some r := by
  unfold ofFamily? at h
  split at h
  · next letter c =>
      obtain ⟨digit, hdigit, hfound⟩ := Option.bind_eq_some_iff.mp h
      exact ⟨letter, c, digit, rfl, hdigit, List.exists_of_findSome?_eq_some hfound⟩
  · simp at h

theorem lt_of_ofName? {token : String} {r : Register} (h : ofName? token = some r) :
    r.val < 32 := by
  unfold ofName? at h
  split at h
  · split at h
    · next q hword =>
        obtain rfl := Option.some.inj h
        have hall : ∀ entry ∈ wordNames, entry.2.val < 32 := by decide
        exact hall _ (mem_wordNames hword)
    · split at h
      · obtain ⟨n, -, hn⟩ := Option.bind_eq_some_iff.mp h
        exact (ofNumber?_eq_some.mp hn).2
      · obtain ⟨_, _, _, -, -, f, -, hmember⟩ := exists_family h
        have hnameable := f.nameable
        obtain ⟨-, -, hlast, hr⟩ := Family.member?_eq_some.mp hmember
        omega
  · simp at h

theorem ne_results_of_ofName? {token : String} {r : Register} (h : ofName? token = some r) :
    r ≠ .hi ∧ r ≠ .lo := by
  have hlt := lt_of_ofName? h
  constructor
  · rintro rfl
    exact absurd hlt (by decide)
  · rintro rfl
    exact absurd hlt (by decide)

theorem namesRegister_of_ofName? {token : String} {r : Register}
    (h : ofName? token = some r) : Token.namesRegister token = true := by
  unfold ofName? at h
  split at h
  · next rest hdollar =>
      rw [Token.namesRegister, Text.startsWith_iff]
      exact ⟨rest, hdollar⟩
  · exact nomatch h

end Register

/-! ## Tokens -/

theorem Text.immediate?_dollar (cs : List Char) : immediate? ('$' :: cs) = none := rfl

theorem Token.immediate?_of_namesRegister {token : String} (h : namesRegister token = true) :
    immediate? token = none := by
  obtain ⟨rest, hrest⟩ := Text.startsWith_iff.mp h
  rw [immediate?, hrest]
  exact Text.immediate?_dollar rest

theorem Token.namesRegister_of_immediate? {token : String} {value : Word}
    (h : immediate? token = some value) : namesRegister token = false := by
  rw [Bool.eq_false_iff]
  intro hregister
  simp [immediate?_of_namesRegister hregister] at h

/-! ## Places in memory -/

namespace Token

/-- `Encloses cs before inside`: the text is `before(inside)`, where the parenthesis in front of
`inside` is the first one that opens.  More parentheses may stand in `inside`. -/
def Encloses (cs before inside : List Char) : Prop :=
  cs = before ++ '(' :: (inside ++ [')']) ∧ '(' ∉ before

/-- `Offset cs offset`: the text is a number, and this is the offset, or the text is empty and the
offset is zero. -/
def Offset (cs : List Char) (offset : Word) : Prop :=
  cs = [] ∧ offset = 0 ∨ Text.immediate? cs = some offset

/-- `Located token result`: what a token comes to as a place in memory.  The base is looked at
only behind a good offset. -/
inductive Located (token : String) : Except Defect (Word × Register) → Prop
  | place {before inside : List Char} {offset : Word} {base : Register} :
      Encloses token.toList before inside → Offset (Text.trim before) offset →
      Register.ofName? (String.ofList (Text.trim inside)) = some base →
      Located token (.ok (offset, base))
  | unknownBase {before inside : List Char} {offset : Word} :
      Encloses token.toList before inside → Offset (Text.trim before) offset →
      Register.ofName? (String.ofList (Text.trim inside)) = none →
      Located token (.error (.invalidRegister (String.ofList (Text.trim inside))))
  | malformed : (∀ before inside offset, Encloses token.toList before inside →
      ¬Offset (Text.trim before) offset) → Located token (.error (.invalidMemoryOperand token))

theorem splitLocation?_eq_some {cs offset base : List Char} :
    splitLocation? cs = some (offset, base) ↔
      ∃ before inside, Encloses cs before inside ∧ Text.trim before = offset ∧
        Text.trim inside = base := by
  unfold splitLocation?
  constructor
  · intro h
    split at h
    · next before rest hcut =>
        obtain ⟨paren, hparen, rfl, hbefore⟩ := Text.cut?_eq_some.mp hcut
        obtain rfl : paren = '(' := by simpa using hparen
        have hnot : '(' ∉ before := by
          intro hmem
          simpa using hbefore '(' hmem
        split at h
        · next hlast =>
            obtain ⟨rfl, rfl⟩ := Prod.mk.inj (Option.some.inj h)
            have hrest : rest.dropLast ++ [')'] = rest := List.dropLast_append_getLast? _ hlast
            exact ⟨before, rest.dropLast, ⟨by rw [hrest], hnot⟩, rfl, rfl⟩
        · simp at h
    · simp at h
  · rintro ⟨before, inside, ⟨rfl, hnot⟩, rfl, rfl⟩
    have hbefore : ∀ c ∈ before, (c == '(') = false := by
      intro c hc
      rw [beq_eq_false_iff_ne]
      rintro rfl
      exact hnot hc
    have hcut : Text.cut? (· == '(') (before ++ '(' :: (inside ++ [')'])) =
        some (before, inside ++ [')']) :=
      Text.cut?_eq_some.mpr ⟨'(', rfl, rfl, hbefore⟩
    rw [hcut]
    dsimp only
    rw [if_pos List.getLast?_concat, List.dropLast_concat]

/-- There is no other way to take the text apart. -/
theorem Encloses.splitLocation?_eq {cs before inside : List Char} (h : Encloses cs before inside) :
    splitLocation? cs = some (Text.trim before, Text.trim inside) :=
  splitLocation?_eq_some.mpr ⟨before, inside, h, rfl, rfl⟩

theorem offset?_eq_some {cs : List Char} {offset : Word} :
    offset? cs = some offset ↔ Offset cs offset := by
  cases cs with
  | nil =>
      have hnone : Text.immediate? [] = none := rfl
      rw [offset?, Offset, hnone]
      simp only [Option.some.injEq, true_and, reduceCtorEq, or_false]
      exact eq_comm
  | cons c cs => simp [offset?, Offset]

/-- Every token gets the verdict of the grammar. -/
theorem located (token : String) : Located token (location token) := by
  unfold location
  split
  · next hsplit =>
      refine .malformed ?_
      intro before inside offset hencloses _
      simp [hencloses.splitLocation?_eq] at hsplit
  · next trimmed base hsplit =>
      split
      · next hoffset =>
          refine .malformed ?_
          intro before inside offset hencloses hgood
          rw [hencloses.splitLocation?_eq] at hsplit
          obtain ⟨rfl, rfl⟩ := Prod.mk.inj (Option.some.inj hsplit)
          simp [offset?_eq_some.mpr hgood] at hoffset
      · next offset hoffset =>
          obtain ⟨before, inside, hencloses, rfl, rfl⟩ := splitLocation?_eq_some.mp hsplit
          have hgood := offset?_eq_some.mp hoffset
          unfold register
          split
          · next base hbase => exact .place hencloses hgood hbase
          · next hbase => exact .unknownBase hencloses hgood hbase

theorem Encloses.location_eq {token : String} {before inside : List Char} {offset : Word}
    (h : Encloses token.toList before inside) (hoffset : Offset (Text.trim before) offset) :
    location token =
      (register (String.ofList (Text.trim inside))).map fun base => (offset, base) := by
  simp only [location, h.splitLocation?_eq, offset?_eq_some.mpr hoffset]

theorem Located.location_eq {token : String} {result : Except Defect (Word × Register)}
    (h : Located token result) : location token = result := by
  cases h with
  | place hencloses hoffset hbase =>
      rw [hencloses.location_eq hoffset, register, hbase]
      rfl
  | unknownBase hencloses hoffset hbase =>
      rw [hencloses.location_eq hoffset, register, hbase]
      rfl
  | malformed hnone =>
      -- both other verdicts are of a token that has a good offset
      generalize hread : location token = read
      cases hread ▸ located token with
      | place hencloses hoffset => exact absurd hoffset (hnone _ _ _ hencloses)
      | unknownBase hencloses hoffset => exact absurd hoffset (hnone _ _ _ hencloses)
      | malformed => rfl

theorem location_eq_iff {token : String} {result : Except Defect (Word × Register)} :
    location token = result ↔ Located token result := by
  constructor
  · rintro rfl
    exact located token
  · intro h
    exact h.location_eq

theorem namesRegister_of_location {token : String} {place : Word × Register}
    (h : location token = .ok place) : namesRegister token = false := by
  rw [Bool.eq_false_iff]
  intro hregister
  obtain ⟨rest, hrest⟩ := Text.startsWith_iff.mp hregister
  have hdollar : Text.isBlank '$' = false := rfl
  cases location_eq_iff.mp h with
  | @place before inside _ _ hencloses hoffset =>
      have htext : '$' :: rest = before ++ '(' :: (inside ++ [')']) := hrest.symm.trans hencloses.1
      -- the offset begins as the token does
      cases before with
      | nil => simp at htext
      | cons c cs =>
          obtain rfl : '$' = c := (List.cons.inj htext).1
          have htrim : Text.trim ('$' :: cs) = '$' :: Text.trimEnd cs := by
            rw [Text.trim, Text.trimStart, List.dropWhile_cons_of_neg (by simp [hdollar])]
            exact Text.trimEnd_append_cons [] cs hdollar
          simp [htrim, Offset, Text.immediate?_dollar] at hoffset

end Token

/-! ## Mnemonics -/

namespace Mnemonic

theorem find?_name (m : Mnemonic) : (all.find? fun other => other.name == m.name) = some m := by
  cases m <;> rfl

theorem ofName?_eq_some {s : String} {m : Mnemonic} :
    ofName? s = some m ↔ lowerCase s = m.name := by
  unfold ofName?
  constructor
  · intro h
    have hname : m.name = lowerCase s := by simpa using List.find?_some h
    exact hname.symm
  · intro h
    rw [h]
    exact find?_name m

end Mnemonic

/-! ## Lines -/

namespace Statement

/-- `Spells line m tokens`: the line is the mnemonic `m`, in any mix of cases, a blank,
and operands that are `tokens`. -/
def Spells (line : String) (m : Mnemonic) (tokens : List String) : Prop :=
  ∃ name blank operands, Text.trim line.toList = name ++ blank :: operands ∧
    (∀ c ∈ name, Text.isBlank c = false) ∧ Text.isBlank blank = true ∧
    Mnemonic.lowerCase (String.ofList name) = m.name ∧ Statement.tokens operands = tokens

theorem ofParts_eq_instruction {name operands : List Char} {m : Mnemonic} {tokens : List String} :
    ofParts name operands = .ok (.instruction m tokens) ↔
      (1 ≤ tokens.length ∧ tokens.length ≤ 3) ∧ Statement.tokens operands = tokens ∧
        Mnemonic.lowerCase (String.ofList name) = m.name := by
  rw [← Mnemonic.ofName?_eq_some]
  unfold ofParts
  dsimp only
  constructor
  · intro h
    split at h
    · next hcount =>
        split at h
        · next found hfound =>
            obtain ⟨rfl, rfl⟩ := Statement.instruction.inj (Except.ok.inj h)
            exact ⟨hcount, rfl, hfound⟩
        · exact nomatch h
    · exact nomatch h
  · rintro ⟨hcount, rfl, hname⟩
    rw [if_pos hcount, hname]

theorem startsWith_of_name {name operands : List Char} {blank : Char} {m : Mnemonic}
    {word : String} (hword : word ∈ ["syscall", ".syscall"]) (hblank : Text.isBlank blank = true)
    (hname : Mnemonic.lowerCase (String.ofList name) = m.name) :
    Text.startsWith (name ++ blank :: operands) word = false := by
  have hletters : ∀ word ∈ ["syscall", ".syscall"], word.toList.any Text.isBlank = false := by
    decide
  have hnone : ∀ word ∈ ["syscall", ".syscall"], ∀ m ∈ Mnemonic.all,
      (word.toList.map Char.toLower).isPrefixOf m.name.toList = false := by
    decide
  have hend : blank ∉ word.toList := by
    intro hmem
    exact List.any_eq_false.mp (hletters word hword) blank hmem hblank
  rw [Text.startsWith_append_cons hend, Bool.eq_false_iff]
  intro hstarts
  obtain ⟨rest, rfl⟩ := Text.startsWith_iff.mp hstarts
  have hlower : m.name.toList = (word.toList ++ rest).map Char.toLower := by
    rw [← hname, Mnemonic.lowerCase, String.toList_ofList, String.toList_ofList]
  have hbegins : (word.toList.map Char.toLower).isPrefixOf m.name.toList = true := by
    rw [hlower, List.map_append, List.isPrefixOf_iff_prefix]
    exact List.prefix_append _ _
  have hmem : m ∈ Mnemonic.all := List.mem_of_find?_eq_some m.find?_name
  exact absurd (hbegins.symm.trans (hnone word hword m hmem)) (by simp)

/-- The lines that are read as an instruction are those that spell it, with one to
three operands. -/
theorem ofLine_eq_instruction {line : String} {m : Mnemonic} {tokens : List String} :
    ofLine line = .ok (.instruction m tokens) ↔
      Spells line m tokens ∧ 1 ≤ tokens.length ∧ tokens.length ≤ 3 := by
  unfold ofLine
  dsimp only
  constructor
  · intro h
    split at h
    · exact nomatch h
    · split at h
      · exact nomatch h
      · split at h
        · next name operands hcut =>
            obtain ⟨blank, hblank, hline, hname⟩ := Text.cut?_eq_some.mp hcut
            obtain ⟨hcount, htokens, hm⟩ := ofParts_eq_instruction.mp h
            exact ⟨⟨name, blank, operands, hline, hname, hblank, hm, htokens⟩, hcount⟩
        · exact nomatch h
  · rintro ⟨⟨name, blank, operands, hline, hname, hblank, hm, htokens⟩, hcount⟩
    have hnot : ∀ word ∈ ["syscall", ".syscall"],
        Text.startsWith (name ++ blank :: operands) word = false := by
      intro word hword
      exact startsWith_of_name hword hblank hm
    have hcut : Text.cut? Text.isBlank (name ++ blank :: operands) = some (name, operands) :=
      Text.cut?_eq_some.mpr ⟨blank, hblank, rfl, hname⟩
    rw [hline, if_neg (by simp), hnot "syscall" (by simp), hnot ".syscall" (by simp),
      if_neg (by simp), hcut]
    exact ofParts_eq_instruction.mpr ⟨hcount, htokens, hm⟩

/-! ## Operands -/

theorem Spells.comma_notMem {line token : String} {m : Mnemonic} {tokens : List String}
    (h : Spells line m tokens) (htoken : token ∈ tokens) : ',' ∉ token.toList := by
  obtain ⟨-, -, operands, -, -, -, -, rfl⟩ := h
  unfold Statement.tokens dropTrailingEmpty at htoken
  obtain ⟨piece, hpiece, rfl⟩ := List.mem_map.mp htoken
  rw [List.mem_reverse] at hpiece
  have hmem := (List.dropWhile_suffix List.isEmpty).mem hpiece
  rw [List.mem_reverse] at hmem
  obtain ⟨raw, hraw, rfl⟩ := List.mem_map.mp hmem
  intro hcomma
  rw [String.toList_ofList] at hcomma
  have hsep := Text.not_sep_of_mem_pieces hraw ',' (Text.mem_of_mem_trim hcomma)
  exact absurd hsep (by simp)

theorem Spells.last_ne_empty {line token : String} {m : Mnemonic} {tokens : List String}
    (h : Spells line m tokens) (htoken : tokens.getLast? = some token) : token ≠ "" := by
  obtain ⟨-, -, operands, -, -, -, -, rfl⟩ := h
  unfold Statement.tokens dropTrailingEmpty at htoken
  rw [List.getLast?_map, List.getLast?_reverse] at htoken
  obtain ⟨piece, hpiece, rfl⟩ := Option.map_eq_some_iff.mp htoken
  have hhead := List.head?_dropWhile_not List.isEmpty
    ((Text.pieces (· == ',') operands).map Text.trim).reverse
  rw [hpiece] at hhead
  intro hempty
  have hnil : piece = [] := by simpa using congrArg String.toList hempty
  simp [hnil] at hhead

/-! ## Operands between blanks -/

/-- `Padded token piece`: the piece is the token between blanks. -/
def Padded (token : String) (piece : List Char) : Prop :=
  ∃ front back, piece = front ++ (token.toList ++ back) ∧ Text.AllBlank front ∧
    Text.AllBlank back

section Padded

theorem padded_self (token : String) : Padded token token.toList :=
  ⟨[], [], by simp, nofun, nofun⟩

variable {token : String} {piece : List Char}

theorem Padded.trim_eq (h : Padded token piece) (htoken : Text.trim token.toList = token.toList) :
    Text.trim piece = token.toList := by
  obtain ⟨front, back, rfl, hfront, hback⟩ := h
  rw [Text.trim_blanks_append hfront, Text.trim_append_blanks hback, htoken]

theorem Padded.forall_mem {P : Char → Prop} (hP : ∀ b, Text.isBlank b = true → P b)
    (h : Padded token piece) (htoken : ∀ c ∈ token.toList, P c) : ∀ c ∈ piece, P c := by
  obtain ⟨front, back, rfl, hfront, hback⟩ := h
  intro c hc
  rw [List.mem_append, List.mem_append] at hc
  rcases hc with hc | hc | hc
  · exact hP c (hfront c hc)
  · exact htoken c hc
  · exact hP c (hback c hc)

end Padded

end Statement

end MipsText
