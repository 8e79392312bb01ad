/-
# `MipsText.Text.Split` — cutting a list at separators

Source text is cut at commas, colons, blanks and line ends.  All of these cuts
are one of two operations on lists:

  * `cut? p xs` divides `xs` around its first element in `p`;
  * `pieces p xs` divides `xs` around every element in `p`, so that it always
    has one piece more than `xs` has separators, empty pieces included.
-/

namespace MipsText.Text

variable {α : Type}

/-- What stands before and after the first element satisfying `p`, if there is
one; that element itself belongs to neither side. -/
def cut? (p : α → Bool) (xs : List α) : Option (List α × List α) :=
  match xs.dropWhile (fun x => !p x) with
  | [] => none
  | _ :: rest => some (xs.takeWhile (fun x => !p x), rest)

/-- Puts `x` in front of the first piece of a non-empty list of pieces. -/
def consHead (x : α) : List (List α) → List (List α)
  | [] => [[x]]
  | piece :: rest => (x :: piece) :: rest

/-- The stretches between the elements satisfying `p`, in order. -/
def pieces (p : α → Bool) (xs : List α) : List (List α) :=
  xs.foldr (fun x acc => if p x then [] :: acc else consHead x acc) [[]]

@[simp] theorem pieces_nil (p : α → Bool) : pieces p [] = [[]] := rfl

theorem pieces_cons (p : α → Bool) (x : α) (xs : List α) :
    pieces p (x :: xs) = if p x then [] :: pieces p xs else consHead x (pieces p xs) := rfl

theorem pieces_ne_nil (p : α → Bool) (xs : List α) : pieces p xs ≠ [] := by
  cases xs with
  | nil => simp
  | cons x xs =>
      rw [pieces_cons]
      split
      · simp
      · cases pieces p xs <;> simp [consHead]

end MipsText.Text
