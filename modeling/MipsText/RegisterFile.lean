/-
# `MipsText.RegisterFile` — the cells of all registers

`get` and `set` see whole cells.  `integer` and `reference` ask for one kind
of cell; how an integer is read from a reference is a policy of the machine and
not part of the file.
-/
import MipsText.Cell
import MipsText.Failure.Fault

namespace MipsText

/-- What reading an integer from a register that holds a reference gives. -/
inductive ReferencePolicy where
  /-- A fault. -/
  | strict
  /-- The number zero. -/
  | zero
deriving DecidableEq

/-- The cells of all registers. -/
structure RegisterFile where
  cells : Vector Cell registerCount
deriving DecidableEq

namespace RegisterFile

def initial : RegisterFile :=
  ⟨Vector.replicate registerCount (.int 0)⟩

def get (f : RegisterFile) (r : Register) : Cell :=
  f.cells.get r

def set (f : RegisterFile) (r : Register) (c : Cell) : RegisterFile :=
  ⟨f.cells.setIfInBounds r.val c⟩

def integer (policy : ReferencePolicy) (f : RegisterFile) (r : Register) : Except Fault Word :=
  match f.get r, policy with
  | .int value, _ => .ok value
  | .ref _, .zero => .ok 0
  | .ref _, .strict => .error (.referenceNotInteger r)

def reference (f : RegisterFile) (r : Register) : Except Fault String :=
  match f.get r with
  | .ref label => .ok label
  | .int _ => .error (.notReference r)

def toList (f : RegisterFile) : List (Register × Cell) :=
  Register.all.map fun r => (r, f.get r)

theorem get_set (f : RegisterFile) (r q : Register) (c : Cell) :
    (f.set r c).get q = if r = q then c else f.get q := by
  have h : (f.set r c).get q = if r.val = q.val then c else f.get q :=
    Vector.getElem_setIfInBounds q.isLt
  rw [h]
  simp only [Fin.val_inj]

@[simp] theorem get_set_self (f : RegisterFile) (r : Register) (c : Cell) :
    (f.set r c).get r = c := by
  simp [get_set]

theorem get_set_of_ne (f : RegisterFile) {r q : Register} (h : q ≠ r) (c : Cell) :
    (f.set r c).get q = f.get q := by
  rw [get_set, if_neg (Ne.symm h)]

end RegisterFile

end MipsText
