/-
# `MipsText.Word` — arithmetic on machine words

A word is 32 bits.  Sums, differences and products wrap; comparisons answer
with the word one or zero; a shift counts its amount modulo 32.
-/

namespace MipsText

/-- A machine word. -/
abbrev Word := BitVec 32

namespace Word

/-- The word that stands for a truth value. -/
def ofBool (b : Bool) : Word :=
  if b then 1 else 0

/-- How far a shift by `w` goes. -/
def shiftAmount (w : Word) : Nat :=
  w.toNat % 32

def shiftLeft (a b : Word) : Word :=
  a <<< shiftAmount b

/-- Shifts the bits of `a` down, filling with zeros. -/
def shiftRight (a b : Word) : Word :=
  a >>> shiftAmount b

/-- Shifts the bits of `a` down, filling with its sign. -/
def shiftRightSigned (a b : Word) : Word :=
  a.sshiftRight (shiftAmount b)

def nor (a b : Word) : Word :=
  ~~~(a ||| b)

def lessSigned (a b : Word) : Word :=
  ofBool (a.slt b)

def lessUnsigned (a b : Word) : Word :=
  ofBool (a.ult b)

/-- A quotient with its remainder. -/
structure Division where
  quotient : Word
  remainder : Word
deriving DecidableEq

/-- Signed division toward zero; the remainder has the sign of the dividend.
The one quotient that does not fit wraps to the least word. -/
def divideSigned (a b : Word) : Division :=
  ⟨a.sdiv b, a.srem b⟩

def divideUnsigned (a b : Word) : Division :=
  ⟨a / b, a % b⟩

end Word

end MipsText
