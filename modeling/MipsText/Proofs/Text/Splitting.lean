/-
# `MipsText.Proofs.Text.Splitting` — what trimming and cutting give

Trimming a second time changes nothing.  A cut puts its text back together around
the separator, and a list whose every piece is followed by a separator, or all but the
last, is cut into just these pieces.  What is put at an end of a list goes to the piece
at that end.  A solid text has no blanks and no commas, so neither trimming nor cutting
reaches it.
-/
import Mathlib.Data.List.DropRight
import MipsText.Text.Blank

namespace MipsText.Text

/-! ## Trimming -/

def AllBlank (cs : List Char) : Prop :=
  ∀ c ∈ cs, isBlank c = true

instance (cs : List Char) : Decidable (AllBlank cs) :=
  List.decidableBAll _ cs

theorem trimStart_trimStart (cs : List Char) : trimStart (trimStart cs) = trimStart cs :=
  List.dropWhile_idempotent isBlank cs

theorem trimEnd_trimEnd (cs : List Char) : trimEnd (trimEnd cs) = trimEnd cs :=
  List.rdropWhile_idempotent isBlank cs

/-- Trimming the back does not lay blanks bare at the front. -/
theorem trimStart_trimEnd {cs : List Char} (h : trimStart cs = cs) :
    trimStart (trimEnd cs) = trimEnd cs := by
  obtain ⟨back, hback⟩ : trimEnd cs <+: cs := List.rdropWhile_prefix isBlank cs
  cases hfront : trimEnd cs with
  | nil => rfl
  | cons c front =>
      rw [hfront, List.cons_append] at hback
      rw [← hback] at h
      rw [trimStart] at h ⊢
      rw [List.dropWhile_cons] at h ⊢
      split
      · next blank =>
          -- a blank at the front would have been dropped from `cs` itself
          rw [if_pos blank] at h
          have hlen := congrArg List.length h
          have hle := (List.dropWhile_suffix isBlank (l := front ++ back)).length_le
          simp only [List.length_cons] at hlen
          omega
      · rfl

@[simp] theorem trim_trim (cs : List Char) : trim (trim cs) = trim cs := by
  simp only [trim]
  rw [trimStart_trimEnd (trimStart_trimStart cs), trimEnd_trimEnd]

theorem trimEnd_blanks {bs : List Char} (h : AllBlank bs) : trimEnd bs = [] := by
  rw [trimEnd, List.dropWhile_eq_nil_iff.mpr fun b hb => h b (List.mem_reverse.mp hb)]
  rfl

/-- What stands before a character that is no blank is out of reach from the back. -/
theorem trimEnd_append_cons {c : Char} (cs ds : List Char) (h : isBlank c = false) :
    trimEnd (cs ++ c :: ds) = cs ++ c :: trimEnd ds := by
  have hfront : (c :: cs.reverse).dropWhile isBlank = c :: cs.reverse :=
    List.dropWhile_cons_of_neg (by simp [h])
  rw [trimEnd, List.reverse_append, List.reverse_cons, List.append_assoc,
    List.singleton_append, List.dropWhile_append, hfront, trimEnd]
  split
  · next hempty => simp [List.isEmpty_iff.mp hempty]
  · simp

theorem trim_append_cons {c d : Char} (cs ds : List Char) (hc : isBlank c = false)
    (hd : isBlank d = false) : trim (c :: cs ++ d :: ds) = c :: cs ++ d :: trimEnd ds := by
  rw [trim, trimStart, List.cons_append, List.dropWhile_cons_of_neg (by simp [hc]),
    ← List.cons_append, trimEnd_append_cons _ _ hd]

theorem trimEnd_append {ds : List Char} (h : ∃ d ∈ ds, isBlank d = false) (cs : List Char) :
    trimEnd (cs ++ ds) = cs ++ trimEnd ds := by
  obtain ⟨d, hd, hblank⟩ := h
  obtain ⟨front, back, rfl⟩ := List.append_of_mem hd
  rw [← List.append_assoc, trimEnd_append_cons _ _ hblank, trimEnd_append_cons _ _ hblank,
    List.append_assoc]

theorem trim_cons_blank {b : Char} (cs : List Char) (h : isBlank b = true) :
    trim (b :: cs) = trim cs := by
  rw [trim, trim, trimStart, trimStart, List.dropWhile_cons_of_pos h]

theorem trim_blanks_append {bs : List Char} (h : AllBlank bs) (cs : List Char) :
    trim (bs ++ cs) = trim cs := by
  rw [trim, trimStart, List.dropWhile_append_of_pos h]
  rfl

theorem trim_append_blanks {bs : List Char} (h : AllBlank bs) (cs : List Char) :
    trim (cs ++ bs) = trim cs := by
  have hback : ∀ ds : List Char, trimEnd (ds ++ bs) = trimEnd ds := by
    intro ds
    rw [trimEnd, List.reverse_append,
      List.dropWhile_append_of_pos fun b hb => h b (List.mem_reverse.mp hb)]
    rfl
  rw [trim, trim, trimStart, List.dropWhile_append]
  split
  · next hempty =>
      rw [List.dropWhile_eq_nil_iff.mpr h, trimStart, List.isEmpty_iff.mp hempty]
  · exact hback _

theorem trim_trimEnd (cs : List Char) : trim (trimEnd cs) = trim cs := by
  have hcs : trimEnd cs ++ cs.rtakeWhile isBlank = cs := List.rdropWhile_append_rtakeWhile
  conv => rhs; rw [← hcs]
  exact (trim_append_blanks (fun b hb => List.mem_rtakeWhile_imp hb) _).symm

theorem trim_blanks {bs : List Char} (h : AllBlank bs) : trim bs = [] := by
  have hempty := trim_blanks_append h []
  rwa [List.append_nil] at hempty

theorem exists_eq_trim (cs : List Char) : ∃ front back, cs = front ++ (trim cs ++ back) ∧
    (∀ b ∈ front, isBlank b = true) ∧ ∀ b ∈ back, isBlank b = true := by
  refine ⟨cs.takeWhile isBlank, (trimStart cs).rtakeWhile isBlank, ?_, ?_, ?_⟩
  · have hback : trim cs ++ (trimStart cs).rtakeWhile isBlank = trimStart cs :=
      List.rdropWhile_append_rtakeWhile
    rw [hback]
    exact List.takeWhile_append_dropWhile.symm
  · intro b hb
    exact List.mem_takeWhile_imp hb
  · intro b hb
    exact List.mem_rtakeWhile_imp hb

theorem mem_of_mem_trim {c : Char} {cs : List Char} (h : c ∈ trim cs) : c ∈ cs := by
  obtain ⟨front, back, hcs, -, -⟩ := exists_eq_trim cs
  rw [hcs]
  exact List.mem_append_right front (List.mem_append_left back h)

theorem trim_of_not_blank {cs : List Char} (h : ∀ c ∈ cs, isBlank c = false) : trim cs = cs := by
  have hdrop : ∀ ds : List Char, (∀ d ∈ ds, isBlank d = false) → ds.dropWhile isBlank = ds := by
    intro ds hds
    cases ds with
    | nil => rfl
    | cons d ds => exact List.dropWhile_cons_of_neg (by simp [hds d List.mem_cons_self])
  rw [trim, trimStart, trimEnd, hdrop cs h,
    hdrop cs.reverse fun c hc => h c (List.mem_reverse.mp hc), List.reverse_reverse]

/-! ## Beginnings -/

theorem startsWith_iff {cs : List Char} {head : String} :
    startsWith cs head = true ↔ ∃ rest, cs = head.toList ++ rest := by
  rw [startsWith]
  rw [List.isPrefixOf_iff_prefix]
  exact ⟨fun ⟨rest, h⟩ => ⟨rest, h.symm⟩, fun ⟨rest, h⟩ => ⟨rest, h.symm⟩⟩

theorem startsWith_append_cons {cs rest : List Char} {c : Char} {head : String}
    (hc : c ∉ head.toList) : startsWith (cs ++ c :: rest) head = startsWith cs head := by
  rw [Bool.eq_iff_iff, startsWith, startsWith, List.isPrefixOf_iff_prefix,
    List.isPrefixOf_iff_prefix]
  refine ⟨fun h => ?_, fun h => h.trans (List.prefix_append cs _)⟩
  rcases List.prefix_or_prefix_of_prefix h (List.prefix_append cs (c :: rest)) with h' | ⟨more, h'⟩
  · exact h'
  · cases more with
    | nil => exact ⟨[], by simpa using h'.symm⟩
    | cons d more =>
        rw [← h', List.prefix_append_right_inj, List.cons_prefix_cons] at h
        exact absurd (h' ▸ List.mem_append_right cs (h.1 ▸ List.mem_cons_self)) hc

theorem after?_eq_some {cs rest : List Char} {head : String} :
    after? cs head = some rest ↔ cs = head.toList ++ rest := by
  have hlength : head.length = head.toList.length := String.length_toList.symm
  rw [after?]
  constructor
  · intro h
    split at h
    · next starts =>
        obtain ⟨tail, rfl⟩ := startsWith_iff.mp starts
        rw [hlength, List.drop_left] at h
        rw [Option.some.inj h]
    · exact nomatch h
  · rintro rfl
    rw [if_pos (startsWith_iff.mpr ⟨rest, rfl⟩), hlength, List.drop_left]

/-! ## Cutting -/

variable {α : Type} {p : α → Bool}

theorem cut?_eq_some {xs before rest : List α} :
    cut? p xs = some (before, rest) ↔
      ∃ x, p x = true ∧ xs = before ++ x :: rest ∧ ∀ y ∈ before, p y = false := by
  rw [cut?]
  constructor
  · intro h
    split at h
    · exact nomatch h
    · next x tail hdrop =>
        obtain ⟨rfl, rfl⟩ := Prod.mk.inj (Option.some.inj h)
        refine ⟨x, ?_, ?_, ?_⟩
        · have := List.head?_dropWhile_not (fun x => !p x) xs
          simpa [hdrop] using this
        · rw [← hdrop, List.takeWhile_append_dropWhile]
        · intro y hy
          simpa using List.mem_takeWhile_imp hy
  · rintro ⟨x, hx, rfl, hbefore⟩
    have htake : before.takeWhile (fun x => !p x) = before :=
      List.takeWhile_eq_self_iff.mpr fun y hy => by simp [hbefore y hy]
    have hdrop : before.dropWhile (fun x => !p x) = [] :=
      List.dropWhile_eq_nil_iff.mpr fun y hy => by simp [hbefore y hy]
    rw [List.dropWhile_append, List.takeWhile_append, hdrop, htake]
    simp [hx]

theorem not_sep_of_mem_pieces {xs piece : List α} (h : piece ∈ pieces p xs) :
    ∀ x ∈ piece, p x = false := by
  induction xs generalizing piece with
  | nil =>
      rw [pieces_nil, List.mem_singleton] at h
      simp [h]
  | cons y ys ih =>
      rw [pieces_cons] at h
      split at h
      · rcases List.mem_cons.mp h with rfl | h
        · simp
        · exact ih h
      · next hy =>
          cases hys : pieces p ys with
          | nil => exact absurd hys (pieces_ne_nil p ys)
          | cons first others =>
              rw [hys, consHead] at h
              rw [hys] at ih
              rcases List.mem_cons.mp h with rfl | h
              · intro x hx
                rcases List.mem_cons.mp hx with rfl | hx
                · simpa using hy
                · exact ih List.mem_cons_self x hx
              · exact ih (List.mem_cons_of_mem _ h)

theorem mem_of_mem_pieces {xs piece : List α} {x : α} (h : piece ∈ pieces p xs) (hx : x ∈ piece) :
    x ∈ xs := by
  induction xs generalizing piece with
  | nil =>
      rw [pieces_nil, List.mem_singleton] at h
      exact h ▸ hx
  | cons y ys ih =>
      obtain ⟨first, others, hys⟩ := List.exists_cons_of_ne_nil (pieces_ne_nil p ys)
      rw [pieces_cons, hys] at h
      rw [hys] at ih
      split at h
      · rcases List.mem_cons.mp h with rfl | h
        · exact absurd hx List.not_mem_nil
        · exact List.mem_cons_of_mem y (ih h hx)
      · rcases List.mem_cons.mp h with rfl | h
        · rcases List.mem_cons.mp hx with rfl | hx
          · exact List.mem_cons_self
          · exact List.mem_cons_of_mem y (ih List.mem_cons_self hx)
        · exact List.mem_cons_of_mem y (ih (List.mem_cons_of_mem first h) hx)

/-- Every piece but the last has a separator behind it. -/
theorem length_pieces_add_le (xs : List α) :
    (pieces p xs).length + ((pieces p xs).getLast?.getD []).length ≤ xs.length + 1 := by
  induction xs with
  | nil => simp
  | cons x xs ih =>
      obtain ⟨first, rest, hpieces⟩ := List.exists_cons_of_ne_nil (pieces_ne_nil p xs)
      rw [hpieces] at ih
      rw [pieces_cons, hpieces]
      split
      · rw [List.getLast?_cons_cons]
        simp only [List.length_cons] at ih ⊢
        omega
      · cases rest with
        | nil =>
            simp only [consHead, List.getLast?_singleton, Option.getD_some, List.length_cons,
              List.length_nil] at ih ⊢
            omega
        | cons second rest =>
            rw [consHead, List.getLast?_cons_cons]
            rw [List.getLast?_cons_cons] at ih
            simp only [List.length_cons] at ih ⊢
            omega

theorem pieces_append_sep {xs ys : List α} {sep : α} (hxs : ∀ x ∈ xs, p x = false)
    (hsep : p sep = true) : pieces p (xs ++ sep :: ys) = xs :: pieces p ys := by
  induction xs with
  | nil => rw [List.nil_append, pieces_cons, if_pos hsep]
  | cons x xs ih =>
      have hx : p x = false := hxs x List.mem_cons_self
      rw [List.cons_append, pieces_cons, ih fun y hy => hxs y (List.mem_cons_of_mem _ hy)]
      simp [hx, consHead]

theorem pieces_append_cons {sep : α} (hsep : p sep = true) (xs ys : List α) :
    pieces p (xs ++ sep :: ys) = pieces p xs ++ pieces p ys := by
  induction xs with
  | nil => rw [List.nil_append, pieces_cons, if_pos hsep, pieces_nil, List.singleton_append]
  | cons x xs ih =>
      rw [List.cons_append, pieces_cons, pieces_cons, ih]
      split
      · rw [List.cons_append]
      · obtain ⟨first, rest, hxs⟩ := List.exists_cons_of_ne_nil (pieces_ne_nil p xs)
        rw [hxs, List.cons_append, consHead, consHead, List.cons_append]

/-- Pieces that are each followed by a separator come back, with the empty piece
behind the last separator. -/
theorem pieces_terminated {sep : α} (hsep : p sep = true) {ls : List (List α)}
    (hls : ∀ l ∈ ls, ∀ x ∈ l, p x = false) :
    pieces p (ls.flatMap fun l => l ++ [sep]) = ls ++ [[]] := by
  induction ls with
  | nil => rfl
  | cons l ls ih =>
      have hl := hls l List.mem_cons_self
      rw [List.flatMap_cons, List.append_assoc, List.singleton_append,
        pieces_append_sep hl hsep, ih fun l' hl' => hls l' (List.mem_cons_of_mem _ hl'),
        List.cons_append]

theorem pieces_of_not_sep {xs : List α} (h : ∀ x ∈ xs, p x = false) : pieces p xs = [xs] := by
  induction xs with
  | nil => rfl
  | cons x xs ih =>
      have hx : p x = false := h x List.mem_cons_self
      rw [pieces_cons, ih fun y hy => h y (List.mem_cons_of_mem _ hy)]
      simp [hx, consHead]

theorem pieces_intercalate {sep : α} (hsep : p sep = true) {ls : List (List α)}
    (hls : ∀ l ∈ ls, ∀ x ∈ l, p x = false) (hne : ls ≠ []) :
    pieces p ([sep].intercalate ls) = ls := by
  induction ls with
  | nil => exact absurd rfl hne
  | cons l ls ih =>
      have hl := hls l List.mem_cons_self
      cases ls with
      | nil =>
          rw [List.intercalate_singleton]
          exact pieces_of_not_sep hl
      | cons l' ls =>
          rw [List.intercalate_cons_cons, List.append_assoc, List.singleton_append,
            pieces_append_sep hl hsep,
            ih (fun k hk => hls k (List.mem_cons_of_mem _ hk)) (List.cons_ne_nil _ _)]

theorem pieces_not_sep_append {ys : List α} (hys : ∀ y ∈ ys, p y = false) (xs : List α) :
    ∃ first rest, pieces p xs = first :: rest ∧ pieces p (ys ++ xs) = (ys ++ first) :: rest := by
  induction ys with
  | nil =>
      obtain ⟨first, rest, hxs⟩ := List.exists_cons_of_ne_nil (pieces_ne_nil p xs)
      exact ⟨first, rest, hxs, hxs⟩
  | cons y ys ih =>
      obtain ⟨first, rest, hxs, happend⟩ := ih fun z hz => hys z (List.mem_cons_of_mem _ hz)
      have hy : p y = false := hys y List.mem_cons_self
      refine ⟨first, rest, hxs, ?_⟩
      rw [List.cons_append, pieces_cons, happend]
      simp [hy, consHead]

theorem pieces_append_not_sep {ys : List α} (hys : ∀ y ∈ ys, p y = false) (xs : List α) :
    ∃ others last, pieces p xs = others ++ [last] ∧
      pieces p (xs ++ ys) = others ++ [last ++ ys] := by
  induction xs with
  | nil => exact ⟨[], [], rfl, pieces_of_not_sep hys⟩
  | cons x xs ih =>
      obtain ⟨others, last, hxs, happend⟩ := ih
      rw [List.cons_append, pieces_cons, pieces_cons, hxs, happend]
      split
      · exact ⟨[] :: others, last, rfl, rfl⟩
      · cases others with
        | nil => exact ⟨[], x :: last, rfl, rfl⟩
        | cons first others => exact ⟨(x :: first) :: others, last, rfl, rfl⟩

theorem forall_mem_intercalate {P : α → Prop} {sep : α} {ls : List (List α)} (hsep : P sep)
    (h : ∀ l ∈ ls, ∀ x ∈ l, P x) : ∀ x ∈ [sep].intercalate ls, P x := by
  induction ls with
  | nil => simp [List.intercalate]
  | cons l ls ih =>
      obtain ⟨hl, hls⟩ := List.forall_mem_cons.mp h
      cases ls with
      | nil => simpa [List.intercalate] using hl
      | cons l' ls =>
          intro x hx
          rw [List.intercalate_cons_cons, List.mem_append, List.mem_append,
            List.mem_singleton] at hx
          rcases hx with (hx | rfl) | hx
          · exact hl x hx
          · exact hsep
          · exact ih hls x hx

/-! ## Pieces between blanks -/

section Blanks

variable {p : Char → Bool} (hp : ∀ b, isBlank b = true → p b = false)

include hp

theorem map_trim_pieces_blanks_append {bs : List Char} (h : AllBlank bs)
    (cs : List Char) : (pieces p (bs ++ cs)).map trim = (pieces p cs).map trim := by
  obtain ⟨first, rest, hcs, happend⟩ := pieces_not_sep_append (fun b hb => hp b (h b hb)) cs
  rw [hcs, happend, List.map_cons, List.map_cons, trim_blanks_append h]

theorem map_trim_pieces_append_blanks {bs : List Char} (h : AllBlank bs)
    (cs : List Char) : (pieces p (cs ++ bs)).map trim = (pieces p cs).map trim := by
  obtain ⟨others, last, hcs, happend⟩ := pieces_append_not_sep (fun b hb => hp b (h b hb)) cs
  rw [hcs, happend, List.map_append, List.map_append, List.map_singleton, List.map_singleton,
    trim_append_blanks h]

theorem map_trim_pieces_trim (cs : List Char) :
    (pieces p (trim cs)).map trim = (pieces p cs).map trim := by
  obtain ⟨front, back, hcs, hfront, hback⟩ := exists_eq_trim cs
  conv => rhs; rw [hcs]
  rw [map_trim_pieces_blanks_append hp hfront, map_trim_pieces_append_blanks hp hback]

end Blanks

/-! ## Solid texts -/

/-- `Solid cs`: the text is not empty, and has neither blanks nor commas. -/
structure Solid (cs : List Char) : Prop where
  ne_nil : cs ≠ []
  not_blank : ∀ c ∈ cs, isBlank c = false
  not_comma : ',' ∉ cs

theorem Solid.trim_eq {cs : List Char} (h : Solid cs) : trim cs = cs :=
  trim_of_not_blank h.not_blank

theorem Solid.behind {front cs : List Char} (hfront : ∀ c ∈ front, isBlank c = false ∧ c ≠ ',')
    (h : Solid cs) : Solid (front ++ cs) := by
  refine ⟨by simp [h.ne_nil], ?_, ?_⟩
  · intro c hc
    rcases List.mem_append.mp hc with hc | hc
    · exact (hfront c hc).1
    · exact h.not_blank c hc
  · intro hcomma
    rcases List.mem_append.mp hcomma with hcomma | hcomma
    · exact (hfront _ hcomma).2 rfl
    · exact h.not_comma hcomma

theorem Solid.words_eq {cs : List Char} (h : Solid cs) : words cs = [cs] := by
  rw [words, pieces_of_not_sep h.not_blank]
  simp [h.ne_nil]

theorem words_append_cons {b : Char} (hb : isBlank b = true) (cs ds : List Char) :
    words (cs ++ b :: ds) = words cs ++ words ds := by
  rw [words, pieces_append_cons hb, List.filter_append]
  rfl

end MipsText.Text
