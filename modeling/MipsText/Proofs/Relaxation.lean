/-
# `MipsText.Proofs.Relaxation` — checks that differ in one complaint

`Relaxes bad f x y` compares two versions of a checked computation.  The second never
complains of anything in `bad`.  The first is the same computation, up to a renaming `f` of
its results, unless it complains of something in `bad`.  The relation goes through sequences
of checks, so two versions that read the same things in the same order are compared check by
check: `bind` goes on behind a check that may be bad, `check` behind one that never is, and
`behind` where this is the same check in both versions.
-/
import MipsText.Proofs.Checked

namespace MipsText.Checked

variable {ε ε' α α' β β' : Type} {bad : ε → Prop} {f : β → β'}

/-- `Relaxes bad f x y`: `y` has no complaint in `bad`, and it is `x` with its result renamed by
`f` unless `x` has such a complaint. -/
structure Relaxes (bad : ε → Prop) (f : α → α') (x : Except ε α) (y : Except ε α') : Prop where
  clean : ∀ e, y = .error e → ¬ bad e
  agrees : y = x.map f ∨ ∃ e, x = .error e ∧ bad e

namespace Relaxes

theorem of_mapped {x : Except ε β} {y : Except ε β'} (h : Mapped f x y)
    (hclean : ∀ e, x = .error e → ¬ bad e) : Relaxes bad f x y := by
  obtain rfl : y = x.map f := h
  refine ⟨fun e he => ?_, Or.inl rfl⟩
  cases x with
  | error e' =>
      obtain rfl : e' = e := Except.error.inj he
      exact hclean e' rfl
  | ok b => exact nomatch he

theorem ok (b : β) : Relaxes bad f (.ok b) (.ok (f b)) :=
  .of_mapped rfl fun _ h => nomatch h

theorem error {e : ε} (h : ¬ bad e) : Relaxes bad f (.error e) (.error e) := by
  refine .of_mapped rfl fun e' he => ?_
  obtain rfl := Except.error.inj he
  exact h

/-- A computation that never complains of anything bad, compared with itself. -/
theorem refl {x : Except ε α} (h : ∀ e, x = .error e → ¬ bad e) : Relaxes bad id x x :=
  .of_mapped (.same fun _ _ => rfl) h

theorem spoiled {e : ε} (he : bad e) (b : β') : Relaxes bad f (.error e) (.ok b) :=
  ⟨fun _ h => (nomatch h), Or.inr ⟨e, rfl, he⟩⟩

theorem mapped {x : Except ε β} {y : Except ε β'} (h : Relaxes (fun _ => False) f x y) :
    Mapped f x y :=
  h.agrees.resolve_right fun ⟨_, _, hbad⟩ => hbad

theorem bind {x y : Except ε α} {g : α → Except ε β} {g' : α → Except ε β'}
    (h : Relaxes bad id x y) (hg : ∀ a, Relaxes bad f (g a) (g' a)) :
    Relaxes bad f (x >>= g) (y >>= g') where
  clean e he := by
    rcases bind_eq_error.mp he with hy | ⟨a, -, hg'⟩
    · exact h.clean e hy
    · exact (hg a).clean e hg'
  agrees := by
    rcases h.agrees with rfl | ⟨e, rfl, he⟩
    · cases x with
      | error e => exact Or.inl rfl
      | ok a => exact (hg a).agrees
    · exact Or.inr ⟨e, rfl, he⟩

/-- Renaming complaints keeps the comparison, as long as it tells the bad ones apart. -/
theorem mapError {bad' : ε' → Prop} {x : Except ε β} {y : Except ε β'} {r : ε → ε'}
    (h : Relaxes bad f x y) (hr : ∀ e, bad' (r e) ↔ bad e) :
    Relaxes bad' f (x.mapError r) (y.mapError r) where
  clean e' he' := by
    obtain ⟨e, hy, rfl⟩ := mapError_eq_error.mp he'
    exact fun hbad => h.clean e hy ((hr e).mp hbad)
  agrees := by
    rcases h.agrees with rfl | ⟨e, rfl, he⟩
    · exact Or.inl (by cases x <;> rfl)
    · exact Or.inr ⟨r e, rfl, (hr e).mpr he⟩

/-! ## Reasons to stop -/

section Stop

variable {bad : Stop → Prop} (hbad : ∀ d, ¬ bad (.halt d))

include hbad

theorem defect {x : Except Defect β} {y : Except Defect β'} (h : Mapped f x y) :
    Relaxes bad f (liftM x) (liftM y) := by
  refine .of_mapped h.defect fun e he => ?_
  obtain ⟨d, -, rfl⟩ := mapError_eq_error.mp he
  exact hbad d

/-- What follows such a check is reached with what the check gave. -/
theorem check {r : α → α'} {x : Except Defect α} {y : Except Defect α'} {g : α → Except Stop β}
    {g' : α' → Except Stop β'} (h : Mapped r x y)
    (hg : ∀ a, x = .ok a → Relaxes bad f (g a) (g' (r a))) :
    Relaxes bad f (liftM x >>= g) (liftM y >>= g') := by
  obtain rfl : y = x.map r := h
  cases x with
  | error d => exact .error (hbad d)
  | ok a => exact hg a rfl

theorem behind {x : Except Defect α} {g : α → Except Stop β} {g' : α → Except Stop β'}
    (hg : ∀ a, x = .ok a → Relaxes bad f (g a) (g' a)) :
    Relaxes bad f (liftM x >>= g) (liftM x >>= g') :=
  .check hbad (r := id) (.same fun _ _ => rfl) hg

end Stop

end Relaxes

end MipsText.Checked
