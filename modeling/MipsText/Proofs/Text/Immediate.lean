/-
# `MipsText.Proofs.Text.Immediate` — the numbers that an instruction may carry

`Immediate cs v` is the grammar of these numbers: decimal digits behind an optional sign, or
hexadecimal digits behind an optional sign and a mark.  A decimal number has to be the signed
reading of a word.  A hexadecimal one gives the bits of a word, in any number of digits, and a
minus sign in front of it takes the complement of these bits.

The reader strips a sign to look for the mark, and reads decimal digits with the sign still in
front of them.  No text is read in both ways, as no decimal number has a mark
(`hexDigits?_of_digits`), so it accepts the grammar (`Immediate.read`) and nothing else
(`immediate_of_eq_some`).  The texts that numbers are written as are in the grammar, with these
numbers.
-/
import Mathlib.Data.List.Forall2
import Mathlib.Data.Nat.Digits.Defs
import Mathlib.Tactic.IntervalCases
import MipsText.Instruction.Token
import MipsText.Proofs.Text.Numeral
import MipsText.Proofs.Text.Splitting

namespace MipsText

namespace Text

/-- `IsFigure c d`: the character is the digit that is worth `d`.  A letter counts in either
case. -/
def IsFigure (c : Char) (d : Nat) : Prop :=
  "0123456789abcdef".toList[d]? = some c ∨ "0123456789ABCDEF".toList[d]? = some c
deriving Decidable

/-- `Figures base cs n`: the text is one or more digits of the base, the first of which counts
most, and together they are worth `n`. -/
def Figures (base : Nat) (cs : List Char) (n : Nat) : Prop :=
  cs ≠ [] ∧ ∃ ds, List.Forall₂ (fun c d => IsFigure c d ∧ d < base) cs ds ∧
    Nat.ofDigits base ds.reverse = n

/-- The number that 32 bits stand for as a two's complement, when they are worth `n` as they
stand. -/
def twosComplement (n : Nat) : Int :=
  if n < 0x80000000 then n else n - 0x100000000

def signs : List (List Char) :=
  [[], ['+'], ['-']]

/-- What announces hexadecimal digits. -/
def hexMarks : List (List Char) :=
  [['0', 'x'], ['0', 'X']]

/-- `Immediate cs v`: the text is a number that an instruction may carry, and is worth `v`. -/
inductive Immediate : List Char → Int → Prop
  | decimal {sign cs : List Char} {n : Nat} {v : Int} : sign ∈ signs → Figures 10 cs n →
      v = (if sign = ['-'] then -(n : Int) else n) → -0x80000000 ≤ v → v < 0x80000000 →
      Immediate (sign ++ cs) v
  | hexadecimal {sign mark cs : List Char} {n : Nat} {v : Int} : sign ∈ signs →
      mark ∈ hexMarks → Figures 16 cs n → n < 0x100000000 →
      v = twosComplement (if sign = ['-'] then (0x100000000 - n) % 0x100000000 else n) →
      Immediate (sign ++ (mark ++ cs)) v

/-! ## Digits -/

theorem digit?_eq_some {base : Nat} {c : Char} {d : Nat} :
    digit? base c = some d ↔ IsFigure c d ∧ d < base := by
  -- each range of characters is short enough to be looked through
  have range {low high : Char} {k : Nat} (hhigh : high.toNat < 103)
      (hall : ∀ n < 103, low.toNat ≤ n ∧ n ≤ high.toNat →
        IsFigure (Char.ofNat n) (n - low.toNat + k))
      (h : low ≤ c ∧ c ≤ high) : IsFigure c (c.toNat - low.toNat + k) := by
    have hc := hall c.toNat (Nat.lt_of_le_of_lt h.2 hhigh) h
    rwa [Char.ofNat_toNat] at hc
  constructor
  · intro h
    obtain ⟨hvalue, hbase⟩ := Option.filter_eq_some_iff.mp h
    refine ⟨?_, of_decide_eq_true hbase⟩
    split at hvalue
    · next hdigit =>
        obtain rfl := Option.some.inj hvalue
        exact range (k := 0) (by decide) (by decide) hdigit
    · split at hvalue
      · next hlower =>
          obtain rfl := Option.some.inj hvalue
          exact range (by decide) (by decide) hlower
      · split at hvalue
        · next hupper =>
            obtain rfl := Option.some.inj hvalue
            exact range (by decide) (by decide) hupper
        · simp at hvalue
  · rintro ⟨h, hbase⟩
    refine Option.filter_eq_some_iff.mpr ⟨?_, decide_eq_true hbase⟩
    rcases h with h | h
    · have hd : d < 16 := (List.getElem?_eq_some_iff.mp h).1
      interval_cases d <;> obtain rfl := Option.some.inj h <;> rfl
    · have hd : d < 16 := (List.getElem?_eq_some_iff.mp h).1
      interval_cases d <;> obtain rfl := Option.some.inj h <;> rfl

/-- Digits behind others that are worth `n`: these move up by as many places. -/
theorem digitsFrom?_eq_some {base n m : Nat} {cs : List Char} :
    digitsFrom? base n cs = some m ↔
      ∃ ds, List.Forall₂ (fun c d => IsFigure c d ∧ d < base) cs ds ∧
        n * base ^ ds.length + Nat.ofDigits base ds.reverse = m := by
  induction cs generalizing n with
  | nil => simp [digitsFrom?]
  | cons c cs ih =>
      rw [digitsFrom?, Option.bind_eq_some_iff]
      constructor
      · rintro ⟨d, hd, h⟩
        obtain ⟨ds, hds, rfl⟩ := ih.mp h
        refine ⟨d :: ds, .cons (digit?_eq_some.mp hd) hds, ?_⟩
        rw [Nat.ofDigits_reverse_cons, List.length_cons]
        ring
      · rintro ⟨_, hds, rfl⟩
        cases hds with
        | @cons _ d _ ds hd hds =>
            refine ⟨d, digit?_eq_some.mpr hd, ih.mpr ⟨ds, hds, ?_⟩⟩
            rw [Nat.ofDigits_reverse_cons, List.length_cons]
            ring

theorem digits_iff {base : Nat} {cs : List Char} {n : Nat} :
    Digits base cs n ↔ Figures base cs n := by
  rw [← natural?_eq_some]
  cases cs with
  | nil => simp [natural?, Figures]
  | cons c cs =>
      rw [natural?_of_ne_nil (List.cons_ne_nil c cs), digitsFrom?_eq_some]
      simp [Figures]

theorem natural64?_eq_some {cs : List Char} {n : Nat} :
    natural64? cs = some n ↔ Figures 10 cs n ∧ n < 0x10000000000000000 := by
  rw [natural64?, Option.filter_eq_some_iff, natural?_eq_some, digits_iff, decide_eq_true_iff]

theorem Figures.all_isDigit {cs : List Char} {n : Nat} (h : Figures 10 cs n) :
    cs.all isDigit = true := by
  obtain ⟨-, ds, hds, -⟩ := h
  induction hds with
  | nil => rfl
  | cons hd _ ih =>
      rw [List.all_cons, ih, isDigit, digit?_eq_some.mpr hd]
      rfl

theorem IsFigure.eq_digitChar {c : Char} {d : Nat} (h : IsFigure c d) (hd : d < 10) :
    c = d.digitChar := by
  rcases h with h | h <;> interval_cases d <;> exact (Option.some.inj h).symm

/-- The characters that numbers are written with. -/
def numeralChars : List Char :=
  "+-xX0123456789abcdefABCDEF".toList

theorem mem_numeralChars_of_digit? {base : Nat} {c : Char} {d : Nat} (h : digit? base c = some d) :
    c ∈ numeralChars := by
  have hall : ("0123456789abcdef".toList ++ "0123456789ABCDEF".toList).all
      numeralChars.contains = true := by decide
  have hmem : c ∈ "0123456789abcdef".toList ++ "0123456789ABCDEF".toList := by
    rcases (digit?_eq_some.mp h).1 with hlower | hupper
    · exact List.mem_append_left _ (List.mem_of_getElem? hlower)
    · exact List.mem_append_right _ (List.mem_of_getElem? hupper)
  exact List.contains_iff_mem.mp (List.all_eq_true.mp hall c hmem)

theorem Digits.mem_numeralChars {base : Nat} {cs : List Char} {n : Nat} (h : Digits base cs n) :
    ∀ c ∈ cs, c ∈ numeralChars := by
  induction h with
  | one hd =>
      intro c hc
      rw [List.mem_singleton.mp hc]
      exact mem_numeralChars_of_digit? hd
  | more _ hd ih =>
      intro c hc
      rcases List.mem_append.mp hc with hc | hc
      · exact ih c hc
      · rw [List.mem_singleton.mp hc]
        exact mem_numeralChars_of_digit? hd

theorem solid_of_numeralChars {cs : List Char} (hne : cs ≠ []) (h : ∀ c ∈ cs, c ∈ numeralChars) :
    Solid cs := by
  have hall : numeralChars.all (fun c => !isBlank c && c != ',') = true := by decide
  simp only [List.all_eq_true, Bool.and_eq_true, Bool.not_eq_true', bne_iff_ne] at hall
  exact ⟨hne, fun c hc => (hall c (h c hc)).1, fun hcomma => (hall _ (h _ hcomma)).2 rfl⟩

/-! ## Reading -/

theorem exists_sign (cs : List Char) :
    ∃ sign ∈ signs, cs = sign ++ (splitSign cs).2 := by
  unfold splitSign
  split
  · exact ⟨['-'], by simp [signs], rfl⟩
  · exact ⟨['+'], by simp [signs], rfl⟩
  · exact ⟨[], by simp [signs], rfl⟩

theorem hexDigits?_eq_some {cs digits : List Char} :
    hexDigits? cs = some digits ↔ ∃ mark ∈ hexMarks, cs = mark ++ digits := by
  constructor
  · intro h
    unfold hexDigits? at h
    split at h
    · obtain rfl := Option.some.inj h
      exact ⟨['0', 'x'], by simp [hexMarks], rfl⟩
    · obtain rfl := Option.some.inj h
      exact ⟨['0', 'X'], by simp [hexMarks], rfl⟩
    · simp at h
  · rintro ⟨mark, hmark, rfl⟩
    rcases List.mem_pair.mp hmark with rfl | rfl
    · rfl
    · rfl

/-- A decimal number has no mark: neither of its letters is a decimal digit. -/
theorem hexDigits?_of_digits {cs : List Char} {n : Nat} (h : Digits 10 cs n) :
    hexDigits? cs = none := by
  rw [Option.eq_none_iff_forall_ne_some]
  intro digits hhex
  obtain ⟨mark, hmark, rfl⟩ := hexDigits?_eq_some.mp hhex
  have hread := natural?_eq_some.mpr h
  rcases List.mem_pair.mp hmark with rfl | rfl
  · exact nomatch hread
  · exact nomatch hread

theorem bits?_eq_some {cs : List Char} {w : Word} :
    bits? cs = some w ↔ Digits 16 cs w.toNat := by
  rw [bits?, Option.bind_eq_some_iff]
  constructor
  · rintro ⟨n, hn, h⟩
    split at h
    · next hlt =>
        obtain rfl := Option.some.inj h
        rw [BitVec.toNat_ofNat, Nat.mod_eq_of_lt hlt]
        exact natural?_eq_some.mp hn
    · simp at h
  · intro h
    refine ⟨w.toNat, natural?_eq_some.mpr h, ?_⟩
    rw [if_pos w.isLt, BitVec.ofNat_toNat, BitVec.setWidth_eq]

theorem toInt_eq_twosComplement (w : Word) : w.toInt = twosComplement w.toNat := by
  rw [BitVec.toInt_eq_toNat_cond, twosComplement]
  split <;> split <;> omega

theorem decimal_iff {cs : List Char} {v : Int} :
    Decimal cs v ↔ ∃ sign ∈ signs, ∃ rest n, cs = sign ++ rest ∧ Digits 10 rest n ∧
      v = if sign = ['-'] then -(n : Int) else n := by
  constructor
  · intro h
    cases h with
    | plain h => exact ⟨[], by simp [signs], _, _, rfl, h, rfl⟩
    | plus h => exact ⟨['+'], by simp [signs], _, _, rfl, h, rfl⟩
    | minus h => exact ⟨['-'], by simp [signs], _, _, rfl, h, rfl⟩
  · rintro ⟨sign, hsign, rest, n, rfl, h, rfl⟩
    simp only [signs, List.mem_cons, List.not_mem_nil, or_false] at hsign
    rcases hsign with rfl | rfl | rfl
    · exact .plain h
    · exact .plus h
    · exact .minus h

theorem immediate?_of_decimal {cs : List Char} {w : Word} (h : Decimal cs w.toInt) :
    immediate? cs = some w := by
  have hnone : hexDigits? (splitSign cs).2 = none := by
    generalize w.toInt = v at h
    cases h with
    | plain h =>
        rw [splitSign_of_digits h]
        exact hexDigits?_of_digits h
    | plus h => exact hexDigits?_of_digits h
    | minus h => exact hexDigits?_of_digits h
  simp only [immediate?, hnone]
  exact integer?_eq_some.mpr h

theorem splitSign_of_mark {sign mark : List Char} (hsign : sign ∈ signs) (hmark : mark ∈ hexMarks)
    (cs : List Char) :
    splitSign (sign ++ (mark ++ cs)) = (decide (sign = ['-']), mark ++ cs) := by
  simp only [signs, hexMarks, List.mem_cons, List.not_mem_nil, or_false] at hsign hmark
  rcases hsign with rfl | rfl | rfl <;> rcases hmark with rfl | rfl <;> rfl

theorem immediate?_of_mark {sign mark : List Char} (hsign : sign ∈ signs) (hmark : mark ∈ hexMarks)
    (cs : List Char) :
    immediate? (sign ++ (mark ++ cs)) =
      (bits? cs).map fun w => if sign = ['-'] then -w else w := by
  have hhex : hexDigits? (mark ++ cs) = some cs := hexDigits?_eq_some.mpr ⟨mark, hmark, rfl⟩
  simp only [immediate?, splitSign_of_mark hsign hmark, hhex, decide_eq_true_eq]

theorem toInt_signed (sign : List Char) (w : Word) :
    (if sign = ['-'] then -w else w).toInt =
      twosComplement
        (if sign = ['-'] then (0x100000000 - w.toNat) % 0x100000000 else w.toNat) := by
  split
  · rw [toInt_eq_twosComplement, BitVec.toNat_neg]
  · exact toInt_eq_twosComplement w

theorem immediate_of_eq_some {cs : List Char} {w : Word} (h : immediate? cs = some w) :
    Immediate cs w.toInt := by
  cases hhex : hexDigits? (splitSign cs).2 with
  | none =>
      simp only [immediate?, hhex] at h
      obtain ⟨sign, hsign, rest, n, rfl, hdigits, hv⟩ := decimal_iff.mp (integer?_eq_some.mp h)
      exact .decimal hsign (digits_iff.mp hdigits) hv (BitVec.le_toInt w) BitVec.toInt_lt
  | some digits =>
      obtain ⟨sign, hsign, hcs⟩ := exists_sign cs
      obtain ⟨mark, hmark, hbody⟩ := hexDigits?_eq_some.mp hhex
      rw [hbody] at hcs
      subst hcs
      rw [immediate?_of_mark hsign hmark] at h
      obtain ⟨u, hu, rfl⟩ := Option.map_eq_some_iff.mp h
      exact .hexadecimal hsign hmark (digits_iff.mp (bits?_eq_some.mp hu)) u.isLt
        (toInt_signed sign u)

/-- What is in the grammar is read, as what it is worth. -/
theorem Immediate.read {cs : List Char} {v : Int} (h : Immediate cs v) :
    ∃ w, immediate? cs = some w ∧ w.toInt = v := by
  cases h with
  | @decimal sign digits n _ hsign hfigures hvalue hlow hhigh =>
      have hword : (BitVec.ofInt 32 v).toInt = v :=
        wordOfInt?_eq_some.mp (if_pos ⟨hlow, hhigh⟩)
      refine ⟨BitVec.ofInt 32 v, immediate?_of_decimal ?_, hword⟩
      rw [hword]
      exact decimal_iff.mpr ⟨sign, hsign, digits, n, rfl, digits_iff.mpr hfigures, hvalue⟩
  | @hexadecimal sign mark digits n _ hsign hmark hfigures hlt hvalue =>
      have hn : (BitVec.ofNat 32 n).toNat = n := by
        rw [BitVec.toNat_ofNat, Nat.mod_eq_of_lt hlt]
      have hbits : bits? digits = some (BitVec.ofNat 32 n) := by
        rw [bits?_eq_some, hn]
        exact digits_iff.mpr hfigures
      refine ⟨if sign = ['-'] then -BitVec.ofNat 32 n else BitVec.ofNat 32 n, ?_, ?_⟩
      · rw [immediate?_of_mark hsign hmark, hbits, Option.map_some]
      · rw [toInt_signed, hn, hvalue]

theorem mem_numeralChars_of_immediate? {cs : List Char} {w : Word} (h : immediate? cs = some w) :
    ∀ c ∈ cs, c ∈ numeralChars := by
  have hall : (signs ++ hexMarks).all (·.all numeralChars.contains) = true := by decide
  simp only [List.all_eq_true, List.contains_iff_mem] at hall
  have hsigns (sign : List Char) (h : sign ∈ signs) := hall sign (List.mem_append_left _ h)
  have hmarks (mark : List Char) (h : mark ∈ hexMarks) := hall mark (List.mem_append_right _ h)
  intro c hc
  cases immediate_of_eq_some h with
  | decimal hsign hfigures =>
      rcases List.mem_append.mp hc with hc | hc
      · exact hsigns _ hsign c hc
      · exact (digits_iff.mpr hfigures).mem_numeralChars c hc
  | hexadecimal hsign hmark hfigures =>
      rw [List.mem_append, List.mem_append] at hc
      rcases hc with hc | hc | hc
      · exact hsigns _ hsign c hc
      · exact hmarks _ hmark c hc
      · exact (digits_iff.mpr hfigures).mem_numeralChars c hc

theorem solid_of_immediate? {cs : List Char} {w : Word} (h : immediate? cs = some w) :
    Solid cs := by
  refine solid_of_numeralChars ?_ (mem_numeralChars_of_immediate? h)
  rintro rfl
  simp [immediate?, splitSign, hexDigits?, integer?, natural?] at h

/-! ## Writing -/

theorem isFigure_digitChar {d : Nat} (h : d < 16) : IsFigure d.digitChar d := by
  have hall : ∀ d < 16, IsFigure d.digitChar d := by decide
  exact hall d h

theorem digits_toDigits {base : Nat} (hlow : 1 < base) (hhigh : base ≤ 16) (n : Nat) :
    Digits base (Nat.toDigits base n) n := by
  induction n using Nat.strong_induction_on with
  | _ n ih =>
      have hdigit {d : Nat} (hd : d < base) : digit? base d.digitChar = some d :=
        digit?_eq_some.mpr ⟨isFigure_digitChar (Nat.lt_of_lt_of_le hd hhigh), hd⟩
      rw [Nat.toDigits_eq_if hlow]
      split
      · next hn => exact .one (hdigit hn)
      · next hn =>
          have hless : n / base < n := Nat.div_lt_self (by omega) hlow
          have hlast := hdigit (Nat.mod_lt n (by omega))
          have hmore := Digits.more (ih (n / base) hless) hlast
          rwa [Nat.div_add_mod'] at hmore

theorem decimal_text (i : Int) : Decimal (decimal i).toList i := by
  cases i with
  | ofNat n =>
      show Decimal n.repr.toList n
      rw [Nat.toList_repr]
      exact .plain (digits_toDigits (by decide) (by decide) n)
  | negSucc n =>
      show Decimal ("-" ++ (n + 1).repr).toList _
      rw [String.toList_append, Nat.toList_repr]
      exact .minus (digits_toDigits (by decide) (by decide) (n + 1))

end Text

namespace Token

theorem immediate?_text (w : Word) : immediate? (Word.text w) = some w :=
  Text.immediate?_of_decimal (Text.decimal_text w.toInt)

theorem immediate?_hexadecimal (w : Word) :
    immediate? ("0x" ++ Text.hexadecimal w.toNat) = some w := by
  have hdigits : Text.Digits 16 (Nat.toDigits 16 w.toNat) w.toNat :=
    Text.digits_toDigits (by decide) (by decide) w.toNat
  have htext : ("0x" ++ Text.hexadecimal w.toNat).toList =
      [] ++ (['0', 'x'] ++ Nat.toDigits 16 w.toNat) := by
    simp [Text.hexadecimal]
  rw [immediate?, htext, Text.immediate?_of_mark (by decide) (by decide),
    Text.bits?_eq_some.mpr hdigits]
  rfl

end Token

/-- Numbers are read by their grammar.  A text is read as a number if it is in the grammar, and
as the number that it is worth there.  So both texts of a word give it back: the decimal one of
its signed reading, and the hexadecimal one of its bits. -/
theorem Token.immediate_grammar :
    (∀ (token : String) (v : Int),
      (immediate? token).map BitVec.toInt = some v ↔ Text.Immediate token.toList v) ∧
    (∀ w : Word, immediate? (Text.decimal w.toInt) = some w) ∧
    ∀ w : Word, immediate? ("0x" ++ Text.hexadecimal w.toNat) = some w := by
  refine ⟨?_, ?_, ?_⟩
  · intro token v
    rw [Option.map_eq_some_iff]
    constructor
    · rintro ⟨w, hw, rfl⟩
      exact Text.immediate_of_eq_some hw
    · intro h
      exact h.read
  · exact immediate?_text
  · exact immediate?_hexadecimal

end MipsText
