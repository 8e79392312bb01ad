/-
# `MipsText.Register` — the registers and their names

There are 34 registers.  The first 32 can be named in a program, by the
conventional name (`$t0`) or by number (`$8`, leading zeros allowed).  The last
two, `hi` and `lo`, hold the results of divisions and products; no operand names
them.

Registers are shown by a table of names.  Names are not looked up there, but taken
apart: a few are words, the others are a letter for a family of registers and a
digit for a member of it.
-/
import MipsText.Text.Numeral

namespace MipsText

abbrev registerCount : Nat := 34

/-- A register, by its number. -/
abbrev Register := Fin registerCount

namespace Register

def v0 : Register := 2
def a0 : Register := 4
def a1 : Register := 5
/-- Where a call leaves the line it was made on. -/
def ra : Register := 31
/-- Where a division leaves its quotient. -/
def hi : Register := 32
/-- Where a division leaves its remainder, and a multiplication its product. -/
def lo : Register := 33

def names : Vector String registerCount := #v[
  "$zero", "$at", "$v0", "$v1", "$a0", "$a1", "$a2", "$a3",
  "$t0", "$t1", "$t2", "$t3", "$t4", "$t5", "$t6", "$t7",
  "$s0", "$s1", "$s2", "$s3", "$s4", "$s5", "$s6", "$s7",
  "$t8", "$t9", "$k0", "$k1", "$gp", "$sp", "$fp", "$ra",
  "hi", "lo"]

def name (r : Register) : String :=
  names.get r

def all : List Register :=
  List.finRange registerCount

def ofNumber? (n : Nat) : Option Register :=
  if h : n < 32 then some ⟨n, Nat.lt_trans h (by decide)⟩ else none

/-- The names that are words, without their `$`. -/
def wordNames : List (String × Register) :=
  [("zero", 0), ("at", 1), ("gp", 28), ("sp", 29), ("fp", 30), ("ra", 31)]

/-- Registers in a row that share a letter: the digit `first` stands for the register with
number `base`, and the digits up to `last` for those behind it. -/
structure Family where
  letter : Char
  first : Nat
  last : Nat
  base : Nat
  /-- Operands may use all of them. -/
  nameable : base + (last - first) < 32 := by decide

/-- The member of a family for a letter and a digit. -/
def Family.member? (f : Family) (letter : Char) (digit : Nat) : Option Register :=
  if h : letter = f.letter ∧ f.first ≤ digit ∧ digit ≤ f.last then
    some ⟨f.base + (digit - f.first), by have := f.nameable; unfold registerCount; omega⟩
  else none

/-- The families; that of `t` is in two parts. -/
def families : List Family :=
  [{ letter := 'v', first := 0, last := 1, base := 2 },
    { letter := 'a', first := 0, last := 3, base := 4 },
    { letter := 't', first := 0, last := 7, base := 8 },
    { letter := 't', first := 8, last := 9, base := 24 },
    { letter := 's', first := 0, last := 7, base := 16 },
    { letter := 'k', first := 0, last := 1, base := 26 }]

/-- The register that a letter and a digit stand for. -/
def ofFamily? : List Char → Option Register
  | [letter, c] =>
      (Text.digit? 10 c).bind fun digit => families.findSome? fun f => f.member? letter digit
  | _ => none

/-- The register that an operand names: behind `$`, a word, a number below 32, or a letter and
a digit. -/
def ofName? (token : String) : Option Register :=
  match token.toList with
  | '$' :: rest =>
      match wordNames.lookup (String.ofList rest) with
      | some r => some r
      | none =>
          if rest.all Text.isDigit then (Text.natural64? rest).bind ofNumber? else ofFamily? rest
  | _ => none

/-- A number that is not the number of a register. -/
structure OutOfRange where
  index : Nat
deriving DecidableEq

def OutOfRange.message (e : OutOfRange) : String :=
  "index out of bounds: the len is " ++ registerCount.repr ++ " but the index is " ++ e.index.repr

def ofIndex (n : Nat) : Except OutOfRange Register :=
  if h : n < registerCount then .ok ⟨n, h⟩ else .error ⟨n⟩

end Register

end MipsText
