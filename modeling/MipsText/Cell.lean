/-
# `MipsText.Cell` — what a register holds

A register holds an integer or a reference to a label.  References are not
addresses: they cannot be computed with, only copied and followed.
-/
import MipsText.Text.Numeral

namespace MipsText

/-- The content of a register. -/
inductive Cell where
  | int (value : Word)
  | ref (label : String)
deriving DecidableEq

namespace Cell

instance : Inhabited Cell := ⟨.int 0⟩

/-- How a cell is shown: a number, or `&` and a label. -/
def text : Cell → String
  | .int value => Word.text value
  | .ref label => "&" ++ label

end Cell

end MipsText
