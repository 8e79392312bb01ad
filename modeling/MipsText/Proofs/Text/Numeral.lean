/-
# `MipsText.Proofs.Text.Numeral` — what a number looks like

`Digits base cs n` says what digits are worth: the last one counts by itself, and those
before it count `base` times.  `Decimal cs i` is a decimal number with an optional sign.
Neither mentions how a number is read, and the readers accept these texts and no others, with
these values (`natural?_eq_some`, `integer?_eq_some`).  The signed reader wants a value that
is the signed reading of a word, and gives this word.
-/
import Mathlib.Data.List.Induction
import MipsText.Text.Numeral

namespace MipsText.Text

/-- `Digits base cs n`: the text is one or more digits of the base, and is worth `n`. -/
inductive Digits (base : Nat) : List Char → Nat → Prop
  | one {c : Char} {d : Nat} : digit? base c = some d → Digits base [c] d
  | more {cs : List Char} {c : Char} {n d : Nat} : Digits base cs n → digit? base c = some d →
      Digits base (cs ++ [c]) (n * base + d)

/-- `Decimal cs i`: the text is decimal digits behind an optional sign, and is worth `i`. -/
inductive Decimal : List Char → Int → Prop
  | plain {cs : List Char} {n : Nat} : Digits 10 cs n → Decimal cs n
  | plus {cs : List Char} {n : Nat} : Digits 10 cs n → Decimal ('+' :: cs) n
  | minus {cs : List Char} {n : Nat} : Digits 10 cs n → Decimal ('-' :: cs) (-n)

/-! ## Digits -/

section Digits

variable {base : Nat}

theorem Digits.exists_cons {cs : List Char} {n : Nat} (h : Digits base cs n) :
    ∃ c rest, cs = c :: rest ∧ (digit? base c).isSome = true := by
  induction h with
  | one hd => exact ⟨_, [], rfl, by rw [hd]; rfl⟩
  | more _ _ ih =>
      obtain ⟨c, rest, rfl, hc⟩ := ih
      exact ⟨c, _, rfl, hc⟩

theorem natural?_of_ne_nil {cs : List Char} (h : cs ≠ []) :
    natural? base cs = digitsFrom? base 0 cs := by
  cases cs with
  | nil => exact absurd rfl h
  | cons c rest => rfl

theorem digitsFrom?_concat (n : Nat) (cs : List Char) (c : Char) :
    digitsFrom? base n (cs ++ [c]) =
      (digitsFrom? base n cs).bind fun m => (digit? base c).map fun d => m * base + d := by
  induction cs generalizing n with
  | nil =>
      rw [List.nil_append, digitsFrom?, digitsFrom?]
      cases digit? base c <;> rfl
  | cons x xs ih =>
      rw [List.cons_append, digitsFrom?, digitsFrom?]
      cases digit? base x with
      | none => rfl
      | some d => exact ih _

theorem natural?_eq_some {cs : List Char} {n : Nat} :
    natural? base cs = some n ↔ Digits base cs n := by
  constructor
  · intro h
    induction cs using List.reverseRecOn generalizing n with
    | nil => simp [natural?] at h
    | append_singleton cs c ih =>
        rw [natural?_of_ne_nil (by simp), digitsFrom?_concat] at h
        obtain ⟨m, hm, h⟩ := Option.bind_eq_some_iff.mp h
        obtain ⟨d, hd, rfl⟩ := Option.map_eq_some_iff.mp h
        by_cases hcs : cs = []
        · subst hcs
          obtain rfl : 0 = m := Option.some.inj hm
          rw [Nat.zero_mul, Nat.zero_add]
          exact .one hd
        · exact .more (ih ((natural?_of_ne_nil hcs).trans hm)) hd
  · intro h
    induction h with
    | one hd =>
        rw [natural?_of_ne_nil (by simp), digitsFrom?, hd]
        simp [digitsFrom?]
    | more hcs hd ih =>
        obtain ⟨_, _, rfl, -⟩ := hcs.exists_cons
        rw [natural?_of_ne_nil (by simp), digitsFrom?_concat]
        rw [natural?_of_ne_nil (by simp)] at ih
        rw [ih, hd]
        rfl

end Digits

/-! ## Signed numbers -/

theorem wordOfInt?_eq_some {i : Int} {w : Word} : wordOfInt? i = some w ↔ w.toInt = i := by
  rw [wordOfInt?]
  constructor
  · intro h
    split at h
    · next hrange =>
        obtain rfl := Option.some.inj h
        rw [BitVec.toInt_ofInt]
        exact Int.bmod_eq_of_le (by omega) (by omega)
    · simp at h
  · rintro rfl
    have hlow : -0x80000000 ≤ w.toInt := BitVec.le_toInt w
    have hhigh : w.toInt < 0x80000000 := BitVec.toInt_lt
    rw [if_pos ⟨hlow, hhigh⟩, BitVec.ofInt_toInt]

theorem splitSign_of_digits {cs : List Char} {n : Nat} (h : Digits 10 cs n) :
    splitSign cs = (false, cs) := by
  obtain ⟨c, rest, rfl, hc⟩ := h.exists_cons
  unfold splitSign
  split
  · next heq =>
      obtain ⟨rfl, -⟩ := List.cons.inj heq
      exact absurd hc (by decide)
  · next heq =>
      obtain ⟨rfl, -⟩ := List.cons.inj heq
      exact absurd hc (by decide)
  · rfl

/-- The numbers that are read as a word are the decimal ones that are the signed reading of
this word. -/
theorem integer?_eq_some {cs : List Char} {w : Word} :
    integer? cs = some w ↔ Decimal cs w.toInt := by
  have hread : integer? cs = some w ↔ ∃ n, Digits 10 (splitSign cs).2 n ∧
      w.toInt = withSign (splitSign cs).1 n := by
    simp only [integer?, Option.bind_eq_some_iff, natural?_eq_some, wordOfInt?_eq_some]
  rw [hread]
  constructor
  · rintro ⟨n, hdigits, hw⟩
    rw [hw]
    revert hdigits
    unfold splitSign
    split
    · exact .minus
    · exact .plus
    · exact .plain
  · intro h
    generalize hi : w.toInt = i at h
    cases h with
    | plain hdigits =>
        rw [splitSign_of_digits hdigits]
        exact ⟨_, hdigits, rfl⟩
    | plus hdigits => exact ⟨_, hdigits, rfl⟩
    | minus hdigits => exact ⟨_, hdigits, rfl⟩

end MipsText.Text
