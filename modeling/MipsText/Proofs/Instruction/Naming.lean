/-
# `MipsText.Proofs.Instruction.Naming` — register names and register numbers correspond

`Register.Named token r` says how a register can be written: by its conventional name, or by
its number in decimal digits behind `$`.  There may be any number of digits, zeros in front
included; what counts is what they are worth.  Both ways are there for the first 32 registers
only.

The names are printed from a table and read back by a decoder, which knows a few whole words
and takes the others apart into the letter of a family and a digit.  What it reads is in the
table (`name_of_word`, `name_of_family`) and everything in the table is read
(`Named.ofName?_eq`), so a token is read as the register that it names (`ofName?_eq_some`).

Messages and diagnostics show registers by their conventional names.  `Register.ShownIn` says
that the register can be found again from there.
-/
import MipsText.Failure.Fault
import MipsText.Proofs.Instruction.Spelling
import MipsText.Proofs.Text.Immediate

namespace MipsText

namespace Register

/-! ## Names -/

/-- `Named token r`: the token is a way to write the register. -/
inductive Named : String → Register → Prop
  | name {r : Register} : r.val < 32 → Named r.name r
  | number {token : String} {cs : List Char} {r : Register} : r.val < 32 →
      token.toList = '$' :: cs → Text.Figures 10 cs r.val → Named token r

theorem name_of_word {name : String} {r : Register} (h : wordNames.lookup name = some r) :
    r.name.toList = '$' :: name.toList := by
  have hall : ∀ entry ∈ wordNames, entry.2.name.toList = '$' :: entry.1.toList := by
    decide +kernel
  exact hall _ (mem_wordNames h)

/-- So are a letter and a digit.  The digit is the only figure for its value, so the finitely
many members of the families are what there is to check. -/
theorem name_of_family {rest : List Char} {r : Register} (h : ofFamily? rest = some r) :
    r.name.toList = '$' :: rest := by
  have hall : ∀ f ∈ families, ∀ digit < 10, ∀ q : Register, f.first ≤ digit → digit ≤ f.last →
      q.val = f.base + (digit - f.first) →
        q.name.toList = ['$', f.letter, digit.digitChar] := by
    decide +kernel
  obtain ⟨letter, c, digit, rfl, hdigit, f, hf, hmember⟩ := exists_family h
  obtain ⟨rfl, hfirst, hlast, hr⟩ := Family.member?_eq_some.mp hmember
  obtain ⟨hfigure, hlt⟩ := Text.digit?_eq_some.mp hdigit
  rw [hfigure.eq_digitChar hlt]
  exact hall f hf digit hlt r hfirst hlast hr

theorem named_of_ofName? {token : String} {r : Register} (h : ofName? token = some r) :
    Named token r := by
  have hr := lt_of_ofName? h
  have of_name {rest : List Char} (hdollar : token.toList = '$' :: rest)
      (hname : r.name.toList = '$' :: rest) : Named token r := by
    rw [String.toList_inj.mp (hdollar.trans hname.symm)]
    exact .name hr
  unfold ofName? at h
  split at h
  · next rest hdollar =>
      split at h
      · next q hword =>
          obtain rfl := Option.some.inj h
          have hname := name_of_word hword
          rw [String.toList_ofList] at hname
          exact of_name hdollar hname
      · split at h
        · obtain ⟨n, hn, hnumber⟩ := Option.bind_eq_some_iff.mp h
          obtain ⟨rfl, -⟩ := ofNumber?_eq_some.mp hnumber
          exact .number hr hdollar (Text.natural64?_eq_some.mp hn).1
        · exact of_name hdollar (name_of_family h)
  · simp at h

theorem lookup_wordNames {cs : List Char} {n : Nat} (h : Text.Figures 10 cs n) :
    wordNames.lookup (String.ofList cs) = none := by
  rw [Option.eq_none_iff_forall_ne_some]
  intro r hr
  have hall : ∀ entry ∈ wordNames, Text.natural? 10 entry.1.toList = none := by decide +kernel
  have hnone := hall _ (mem_wordNames hr)
  rw [String.toList_ofList, Text.natural?_eq_some.mpr (Text.digits_iff.mpr h)] at hnone
  simp at hnone

/-- Every way to write a register is read as this register. -/
theorem Named.ofName?_eq {token : String} {r : Register} (h : Named token r) :
    ofName? token = some r := by
  cases h with
  | name hr =>
      have hall : ∀ r : Register, r.val < 32 → ofName? r.name = some r := by decide +kernel
      exact hall r hr
  | @number _ cs _ hr hdollar hfigures =>
      have hread : Text.natural64? cs = some r.val :=
        Text.natural64?_eq_some.mpr ⟨hfigures, by omega⟩
      unfold ofName?
      split
      · next rest hrest =>
          obtain rfl := (List.cons.inj (hdollar.symm.trans hrest)).2
          rw [lookup_wordNames hfigures]
          dsimp only
          rw [if_pos hfigures.all_isDigit, hread]
          exact ofNumber?_eq_some.mpr ⟨rfl, hr⟩
      · next hother => exact absurd hdollar (hother cs)

theorem ofName?_eq_some {token : String} {r : Register} :
    ofName? token = some r ↔ Named token r :=
  ⟨named_of_ofName?, Named.ofName?_eq⟩

theorem solid_of_ofName? {token : String} {r : Register} (h : ofName? token = some r) :
    Text.Solid token.toList := by
  cases ofName?_eq_some.mp h with
  | name =>
      have hall : ∀ r : Register,
          r.name.toList.all (fun c => !Text.isBlank c && c != ',') = true ∧ r.name.toList ≠ [] := by
        decide +kernel
      obtain ⟨hchars, hne⟩ := hall r
      simp only [List.all_eq_true, Bool.and_eq_true, Bool.not_eq_true', bne_iff_ne] at hchars
      exact ⟨hne, fun c hc => (hchars c hc).1, fun hcomma => (hchars _ hcomma).2 rfl⟩
  | @number _ cs _ _ hdollar hfigures =>
      have hdigits := Text.digits_iff.mpr hfigures
      have hfront : ∀ c ∈ ['$'], Text.isBlank c = false ∧ c ≠ ',' := by simp [Text.isBlank]
      rw [hdollar]
      exact (Text.solid_of_numeralChars hfigures.1 hdigits.mem_numeralChars).behind hfront

/-! ## Names in complaints -/

/-- The registers that the words of a text are read as. -/
def mentioned (cs : List Char) : List Register :=
  (Text.words cs).filterMap fun word => ofName? (String.ofList word)

/-- `r.ShownIn message diagnostic`: just one word of the message is read as a register, and it
is read as `r`; the diagnostic has the name of `r` between quotes. -/
structure ShownIn (r : Register) (message diagnostic : String) : Prop where
  message : mentioned message.toList = [r]
  diagnostic : ∃ kind, diagnostic = kind ++ "(\"" ++ r.name ++ "\")"

theorem mentioned_of_not_dollar {cs : List Char} (h : '$' ∉ cs) : mentioned cs = [] := by
  rw [mentioned, List.filterMap_eq_nil_iff]
  intro word hword
  rw [Option.eq_none_iff_forall_ne_some]
  intro r hr
  obtain ⟨rest, hdollar⟩ := Text.startsWith_iff.mp (namesRegister_of_ofName? hr)
  rw [String.toList_ofList] at hdollar
  have hmem : '$' ∈ word := hdollar ▸ List.mem_cons_self
  exact h (Text.mem_of_mem_pieces (List.mem_of_mem_filter hword) hmem)

theorem mentioned_name {r : Register} {before behind : String} {first last : List Char}
    (hr : r.val < 32) (hbefore : before.toList = first ++ [' ']) (hfirst : '$' ∉ first)
    (hbehind : behind.toList = ' ' :: last) (hlast : '$' ∉ last) :
    mentioned (before ++ r.name ++ behind).toList = [r] := by
  have hname : ofName? r.name = some r := ofName?_eq_some.mpr (.name hr)
  have hblank : Text.isBlank ' ' = true := rfl
  have htext : (before ++ r.name ++ behind).toList =
      first ++ ' ' :: (r.name.toList ++ ' ' :: last) := by
    rw [String.toList_append, String.toList_append, hbefore, hbehind]
    simp
  have hnone := mentioned_of_not_dollar hfirst
  have hnone' := mentioned_of_not_dollar hlast
  rw [mentioned] at hnone hnone' ⊢
  rw [htext, Text.words_append_cons hblank, Text.words_append_cons hblank, List.filterMap_append,
    List.filterMap_append, hnone, hnone', (solid_of_ofName? hname).words_eq]
  simp [hname]

theorem tuple_quote_name (r : Register) (kind : String) :
    Text.tuple kind [Text.quote r.name] = kind ++ "(\"" ++ r.name ++ "\")" := by
  have hall : ∀ r : Register, Text.quote r.name = "\"" ++ r.name ++ "\"" := by decide +kernel
  rw [← String.toList_inj]
  simp [Text.tuple, hall r]

end Register

def Fault.register? : Fault → Option Register
  | .referenceNotInteger r | .notReference r => some r
  | _ => none

def Defect.register? : Defect → Option Register
  | .baseNotReference r => some r
  | _ => none

theorem Fault.shownIn {f : Fault} {r : Register} (hr : r.val < 32) (h : f.register? = some r) :
    r.ShownIn f.message f.diagnostic := by
  have hbefore : "register ".toList = "register".toList ++ [' '] := rfl
  cases f with
  | referenceNotInteger q =>
      obtain rfl : q = r := Option.some.inj h
      have hbehind : " holds a reference where an integer is required".toList =
          ' ' :: "holds a reference where an integer is required".toList := rfl
      refine ⟨?_, _, q.tuple_quote_name _⟩
      exact Register.mentioned_name hr hbefore (by simp) hbehind (by simp)
  | notReference q =>
      obtain rfl : q = r := Option.some.inj h
      have hbehind : " does not hold a reference".toList =
          ' ' :: "does not hold a reference".toList := rfl
      refine ⟨?_, _, q.tuple_quote_name _⟩
      exact Register.mentioned_name hr hbefore (by simp) hbehind (by simp)
  | _ => simp [register?] at h

theorem Defect.shownIn {d : Defect} {r : Register} (hr : r.val < 32) (h : d.register? = some r) :
    r.ShownIn d.message d.diagnostic := by
  cases d with
  | baseNotReference q =>
      obtain rfl : q = r := Option.some.inj h
      have hbefore : "base register ".toList = "base register".toList ++ [' '] := rfl
      have hbehind : " does not hold a reference".toList =
          ' ' :: "does not hold a reference".toList := rfl
      refine ⟨?_, _, q.tuple_quote_name _⟩
      exact Register.mentioned_name hr hbefore (by simp) hbehind (by simp)
  | _ => simp [register?] at h

/-- Names and numbers of registers correspond.  A token is read as a register if this is one of
the first 32 and the token is its name, or `$` and digits that are worth its number.  So no
token names `hi` or `lo`; and the name that is shown for a register which a fault or a halt is
about leads back to this register. -/
theorem Register.names_correspond :
    (∀ (token : String) (r : Register), ofName? token = some r ↔
      r.val < 32 ∧ (token = r.name ∨
        ∃ cs, token.toList = '$' :: cs ∧ Text.Figures 10 cs r.val)) ∧
    (∀ token, ofName? token ≠ some .hi ∧ ofName? token ≠ some .lo) ∧
    ∀ r : Register, r.val < 32 → ofName? r.name = some r ∧
      (∀ f : Fault, f.register? = some r → r.ShownIn f.message f.diagnostic) ∧
      ∀ d : Defect, d.register? = some r → r.ShownIn d.message d.diagnostic := by
  refine ⟨?_, ?_, ?_⟩
  · intro token r
    rw [ofName?_eq_some]
    constructor
    · intro h
      cases h with
      | name hr => exact ⟨hr, Or.inl rfl⟩
      | number hr hdollar hfigures => exact ⟨hr, Or.inr ⟨_, hdollar, hfigures⟩⟩
    · rintro ⟨hr, rfl | ⟨cs, hdollar, hfigures⟩⟩
      · exact .name hr
      · exact .number hr hdollar hfigures
  · intro token
    constructor
    · intro h
      exact (ne_results_of_ofName? h).1 rfl
    · intro h
      exact (ne_results_of_ofName? h).2 rfl
  · intro r hr
    refine ⟨ofName?_eq_some.mpr (.name hr), ?_, ?_⟩
    · intro f hf
      exact f.shownIn hr hf
    · intro d hd
      exact d.shownIn hr hd

/-- A number with zeros in front, a digit of another script, and a fault about `$sp`. -/
theorem Register.names_correspond_padded :
    ofName? "$0029" = some 29 ∧ ofName? "$٢" = none ∧
      mentioned (Fault.notReference 29).message.toList = [29] := by
  obtain ⟨hnames, -, hshown⟩ := names_correspond
  have hdigits : Text.Figures 10 ['0', '0', '2', '9'] 29 := by
    refine ⟨by simp, [0, 0, 2, 9], ?_, rfl⟩
    exact .cons (by decide) (.cons (by decide) (.cons (by decide) (.cons (by decide) .nil)))
  refine ⟨(hnames "$0029" 29).mpr ⟨by decide, Or.inr ⟨_, rfl, hdigits⟩⟩, by decide +kernel, ?_⟩
  exact ((hshown 29 (by decide)).2.1 (.notReference 29) rfl).message

end MipsText
