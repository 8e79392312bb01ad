/-
# `MipsText.Proofs.Source.Quotation` — the grammar of string literals

A literal is a quote, items, and a quote that closes it.  An item is a character other than
a quote and a backslash, or a backslash with one of seven letters behind it.  `Items body s`
says this of the text between the quotes.  `Judged cs result` is the verdict of the grammar
on a text: the string of its items, or what is wrong with it.

Two scanners read a literal.  The one that looks for the closing quote remembers whether the
last character escapes the next one; that is the parity of the backslashes at the end of what
it has seen, and this is the invariant of its run (`beforeQuote?_eq_none`).  The one that
decodes takes a backslash and its letter at a time.  Over whole items both go alike
(`Items.beforeQuote?_append`, `Items.unescape_append`), so a quote never closes a literal
between a backslash and its letter, and no text that is decoded ends in half an escape
(`exists_items`).
-/
import Mathlib.Algebra.Ring.Parity
import Mathlib.Data.List.DropRight
import MipsText.Proofs.Checked
import MipsText.Source.Literal

namespace MipsText.Source

open Checked

/-! ## The grammar -/

/-- The letters that may stand behind a backslash, each with what it stands for there. -/
def escapes : List (Char × Char) :=
  [('n', '\n'), ('r', '\r'), ('t', '\t'), ('0', '\x00'), ('\\', '\\'), ('\'', '\''), ('"', '"')]

/-- `Items body s`: the text is a sequence of items, and they stand for `s`. -/
inductive Items : List Char → List Char → Prop
  | nil : Items [] []
  | plain {c : Char} {body s : List Char} : c ≠ '"' → c ≠ '\\' → Items body s →
      Items (c :: body) (c :: s)
  | escape {letter c : Char} {body s : List Char} : (letter, c) ∈ escapes → Items body s →
      Items ('\\' :: letter :: body) (c :: s)

/-- `Escaped before`: the character behind this text is escaped, as the text ends in an odd
number of backslashes. -/
def Escaped (before : List Char) : Prop :=
  Odd (before.rtakeWhile (· == '\\')).length

/-- `Closed body`: some quote of the text is not escaped. -/
def Closed (body : List Char) : Prop :=
  ∃ before behind, body = before ++ '"' :: behind ∧ ¬Escaped before

/-- `Judged cs result`: this is what the text comes to as a literal. -/
inductive Judged (cs : List Char) : Except LiteralError String → Prop
  | notQuoted : (∀ body, Text.trim cs ≠ '"' :: body) → Judged cs (.error .notQuoted)
  | unterminated {body : List Char} : Text.trim cs = '"' :: body → ¬Closed body →
      Judged cs (.error .unterminated)
  | string {body rest s : List Char} : Text.trim cs = '"' :: (body ++ '"' :: rest) →
      Items body s → Judged cs (.ok (String.ofList s))
  | unknownEscape {good s rest : List Char} {c : Char} :
      Text.trim cs = '"' :: (good ++ '\\' :: c :: rest) → Items good s →
      (∀ d, (c, d) ∉ escapes) → Closed (good ++ '\\' :: c :: rest) →
      Judged cs (.error (.escape (.unknownEscape c)))

theorem escape?_eq_some {letter c : Char} : escape? letter = some c ↔ (letter, c) ∈ escapes := by
  constructor
  · intro h
    unfold escape? at h
    split at h
    case h_8 => simp at h
    all_goals
      obtain rfl := Option.some.inj h
      simp [escapes]
  · intro h
    simp only [escapes, List.mem_cons, Prod.mk.injEq, List.not_mem_nil, or_false] at h
    rcases h with h | h | h | h | h | h | h
    all_goals
      obtain ⟨rfl, rfl⟩ := h
      rfl

theorem escape?_eq_none {letter : Char} : escape? letter = none ↔ ∀ c, (letter, c) ∉ escapes := by
  rw [Option.eq_none_iff_forall_ne_some]
  exact forall_congr' fun c => not_congr escape?_eq_some

/-! ## The closing quote -/

section Closing

variable (c : Char) (cs : List Char)

theorem beforeQuote?_quote : beforeQuote? false ('"' :: cs) = some [] := by
  rw [beforeQuote?, if_pos ⟨rfl, rfl⟩]

theorem beforeQuote?_backslash :
    beforeQuote? false ('\\' :: c :: cs) = (beforeQuote? false cs).map ('\\' :: c :: ·) := by
  rw [beforeQuote?, if_neg (by simp), beforeQuote?, if_neg (by simp)]
  simp [Function.comp_def]

variable {c}

theorem beforeQuote?_plain (hquote : c ≠ '"') (hbackslash : c ≠ '\\') :
    beforeQuote? false (c :: cs) = (beforeQuote? false cs).map (c :: ·) := by
  rw [beforeQuote?, if_neg (by simp [hquote])]
  simp [hbackslash]

end Closing

theorem escaped_concat {before : List Char} {c : Char} :
    Escaped (before ++ [c]) ↔ c = '\\' ∧ ¬Escaped before := by
  unfold Escaped
  by_cases hc : c = '\\'
  · subst hc
    rw [List.rtakeWhile_concat_pos _ _ _ (by simp), List.length_append, List.length_singleton,
      Nat.odd_add_one]
    simp
  · rw [List.rtakeWhile_concat_neg _ _ _ (by simpa using hc)]
    simp [hc]

/-- The search goes on while every quote is escaped.  Its memory is whether what it has seen
escapes the next character. -/
theorem beforeQuote?_eq_none {escaped : Bool} {seen cs : List Char}
    (h : escaped = true ↔ Escaped seen) :
    beforeQuote? escaped cs = none ↔
      ∀ before behind, cs = before ++ '"' :: behind → Escaped (seen ++ before) := by
  induction cs generalizing escaped seen with
  | nil => simp [beforeQuote?]
  | cons c cs ih =>
      have hnext : (decide (c = '\\') && !escaped) = true ↔ Escaped (seen ++ [c]) := by
        rw [escaped_concat, ← h]
        simp
      rw [beforeQuote?]
      constructor
      · intro hnone before behind hcs
        split at hnone
        · simp at hnone
        · next hopen =>
            cases before with
            | nil =>
                obtain ⟨rfl, -⟩ := List.cons.inj hcs
                rw [List.append_nil, ← h]
                simpa using hopen
            | cons d before =>
                obtain ⟨rfl, htail⟩ := List.cons.inj hcs
                have hlater := (ih hnext).mp (Option.map_eq_none_iff.mp hnone) before behind htail
                rwa [List.append_assoc, List.singleton_append] at hlater
      · intro hall
        have hopen : ¬(c = '"' ∧ escaped = false) := by
          rintro ⟨rfl, hfalse⟩
          have hfirst := h.mpr (List.append_nil seen ▸ hall [] cs rfl)
          simp [hfalse] at hfirst
        rw [if_neg hopen, Option.map_eq_none_iff, ih hnext]
        intro before behind htail
        rw [List.append_assoc, List.singleton_append]
        exact hall (c :: before) behind (by rw [htail, List.cons_append])

theorem beforeQuote?_eq_none_iff {body : List Char} :
    beforeQuote? false body = none ↔ ¬Closed body := by
  have hstart : false = true ↔ Escaped [] := by simp [Escaped]
  rw [beforeQuote?_eq_none hstart, Closed]
  push Not
  rfl

theorem eq_append_of_beforeQuote? {escaped : Bool} {cs inner : List Char}
    (h : beforeQuote? escaped cs = some inner) : ∃ rest, cs = inner ++ '"' :: rest := by
  induction cs generalizing escaped inner with
  | nil => simp [beforeQuote?] at h
  | cons c cs ih =>
      rw [beforeQuote?] at h
      split at h
      · next hquote =>
          obtain rfl := Option.some.inj h
          exact ⟨cs, by rw [hquote.1, List.nil_append]⟩
      · obtain ⟨inner', hinner, rfl⟩ := Option.map_eq_some_iff.mp h
        obtain ⟨rest, rfl⟩ := ih hinner
        exact ⟨rest, rfl⟩

/-! ## Items -/

namespace Items

variable {body s : List Char}

theorem beforeQuote?_append (h : Items body s) (cs : List Char) :
    beforeQuote? false (body ++ cs) = (beforeQuote? false cs).map (body ++ ·) := by
  induction h with
  | nil => simp
  | plain hquote hbackslash _ ih =>
      rw [List.cons_append, beforeQuote?_plain _ hquote hbackslash, ih, Option.map_map]
      rfl
  | escape _ _ ih =>
      rw [List.cons_append, List.cons_append, beforeQuote?_backslash, ih, Option.map_map]
      rfl

theorem unescape_append (h : Items body s) (cs : List Char) :
    unescape (body ++ cs) = (unescape cs).map (s ++ ·) := by
  induction h with
  | nil =>
      rw [List.nil_append]
      cases unescape cs <;> rfl
  | plain _ hbackslash _ ih =>
      rw [List.cons_append, unescape, ih]
      · cases unescape cs <;> rfl
      · exact fun hc => absurd hc hbackslash
      · exact fun _ _ hc => absurd hc hbackslash
  | escape hletter _ ih =>
      rw [List.cons_append, List.cons_append, unescape, escape?_eq_some.mpr hletter, ih]
      cases unescape cs <;> rfl

end Items

/-- What stands before the closing quote is items, up to a backslash with another letter or up
to the end. -/
theorem exists_items {inner rest : List Char}
    (h : beforeQuote? false (inner ++ '"' :: rest) = some inner) :
    ∃ good s, Items good s ∧ (inner = good ∨
      ∃ c bad, inner = good ++ '\\' :: c :: bad ∧ ∀ d, (c, d) ∉ escapes) := by
  fun_induction unescape inner with
  | case1 => exact ⟨[], [], .nil, Or.inl rfl⟩
  | case2 =>
      -- the quote would be escaped by the backslash before it
      rw [List.singleton_append, beforeQuote?_backslash] at h
      obtain ⟨_, -, hinner⟩ := Option.map_eq_some_iff.mp h
      simp at hinner
  | case3 letter cs d hletter ih =>
      rw [List.cons_append, List.cons_append, beforeQuote?_backslash] at h
      obtain ⟨_, hcs, hinner⟩ := Option.map_eq_some_iff.mp h
      obtain rfl := (List.cons.inj (List.cons.inj hinner).2).2
      obtain ⟨good, s, hgood, hend⟩ := ih hcs
      refine ⟨'\\' :: letter :: good, d :: s, .escape (escape?_eq_some.mp hletter) hgood, ?_⟩
      rcases hend with rfl | ⟨c, bad, rfl, hbad⟩
      · exact Or.inl rfl
      · exact Or.inr ⟨c, bad, rfl, hbad⟩
  | case4 letter cs hletter =>
      exact ⟨[], [], .nil, Or.inr ⟨letter, cs, rfl, escape?_eq_none.mp hletter⟩⟩
  | case5 c cs hlone hpair ih =>
      have hbackslash : c ≠ '\\' := by
        rintro rfl
        cases cs with
        | nil => exact hlone rfl rfl
        | cons d ds => exact hpair d ds rfl rfl
      have hquote : c ≠ '"' := by
        rintro rfl
        rw [List.cons_append, beforeQuote?_quote] at h
        simp at h
      rw [List.cons_append, beforeQuote?_plain _ hquote hbackslash] at h
      obtain ⟨_, hcs, hinner⟩ := Option.map_eq_some_iff.mp h
      obtain rfl := (List.cons.inj hinner).2
      obtain ⟨good, s, hgood, hend⟩ := ih hcs
      refine ⟨c :: good, c :: s, .plain hquote hbackslash hgood, ?_⟩
      rcases hend with rfl | ⟨letter, bad, rfl, hbad⟩
      · exact Or.inl rfl
      · exact Or.inr ⟨letter, bad, rfl, hbad⟩

/-! ## Literals -/

section Literal

variable {cs body : List Char} {result : Except LiteralError String}

theorem literal_of_quote (h : Text.trim cs = '"' :: body) :
    literal cs =
      match beforeQuote? false body with
      | none => .error .unterminated
      | some inner =>
          match unescape inner with
          | .ok text => .ok (String.ofList text)
          | .error e => .error (.escape e) := by
  rw [literal, h]
  rfl

theorem Judged.literal_eq (h : Judged cs result) : literal cs = result := by
  cases h with
  | notQuoted hstart =>
      unfold literal
      split
      · next body hbody => exact absurd hbody (hstart body)
      · rfl
  | unterminated htext hopen =>
      rw [literal_of_quote htext, beforeQuote?_eq_none_iff.mpr hopen]
  | @string body rest s htext hitems =>
      have hfound : beforeQuote? false (body ++ '"' :: rest) = some body := by
        rw [hitems.beforeQuote?_append, beforeQuote?_quote, Option.map_some, List.append_nil]
      have hread : unescape body = .ok s := by
        have happend := hitems.unescape_append []
        rw [List.append_nil, unescape] at happend
        rw [happend, Except.map, List.append_nil]
      rw [literal_of_quote htext, hfound]
      dsimp only
      rw [hread]
  | @unknownEscape good s rest c htext hitems hbad hclosed =>
      have hsome := mt beforeQuote?_eq_none_iff.mp (not_not.mpr hclosed)
      rw [hitems.beforeQuote?_append, beforeQuote?_backslash] at hsome
      cases hrest : beforeQuote? false rest with
      | none => simp [hrest] at hsome
      | some bad =>
          have hread : unescape (good ++ '\\' :: c :: bad) = .error (.unknownEscape c) := by
            rw [hitems.unescape_append, unescape, escape?_eq_none.mpr hbad]
            rfl
          rw [literal_of_quote htext, hitems.beforeQuote?_append, beforeQuote?_backslash, hrest]
          dsimp only [Option.map_some]
          rw [hread]

theorem exists_judged (cs : List Char) : ∃ result, Judged cs result := by
  by_cases hquote : ∃ body, Text.trim cs = '"' :: body
  · obtain ⟨body, htext⟩ := hquote
    by_cases hclosed : Closed body
    · cases hfound : beforeQuote? false body with
      | none => exact absurd hclosed (beforeQuote?_eq_none_iff.mp hfound)
      | some inner =>
          obtain ⟨rest, rfl⟩ := eq_append_of_beforeQuote? hfound
          obtain ⟨good, s, hgood, rfl | ⟨c, bad, rfl, hbad⟩⟩ := exists_items hfound
          · exact ⟨_, .string htext hgood⟩
          · rw [List.append_assoc, List.cons_append, List.cons_append] at htext hclosed
            exact ⟨_, .unknownEscape htext hgood hbad hclosed⟩
    · exact ⟨_, .unterminated htext hclosed⟩
  · refine ⟨_, .notQuoted ?_⟩
    intro body htext
    exact hquote ⟨body, htext⟩

theorem literal_eq_iff : literal cs = result ↔ Judged cs result := by
  constructor
  · rintro rfl
    obtain ⟨result, h⟩ := exists_judged cs
    rw [h.literal_eq]
    exact h
  · intro h
    exact h.literal_eq

end Literal

/-! ## What is said -/

theorem EscapeError.toList_message_unknownEscape (c : Char) :
    (unknownEscape c).message.toList = "unknown escape `\\".toList ++ [c, '`'] := by
  show ("unknown escape `\\" ++ c.toString ++ "`").toList = _
  rw [String.toList_append, String.toList_append, Char.toString_eq_singleton,
    String.toList_singleton, List.append_assoc]
  rfl

/-- Different complaints are put in different words: the third letter tells them apart. -/
theorem LiteralError.message_inj {e e' : LiteralError} (h : e.message = e'.message) : e = e' := by
  have hthird : ∀ e : LiteralError, e.message.toList[2]? =
      match e with
      | .notQuoted => some 'p'
      | .unterminated => some 't'
      | .escape .trailingBackslash => some 'a'
      | .escape (.unknownEscape _) => some 'k' := by
    intro e
    rcases e with _ | _ | _ | c
    · rfl
    · rfl
    · rfl
    · rw [message, EscapeError.toList_message_unknownEscape]
      rfl
  have hsame := hthird e
  rw [h, hthird e'] at hsame
  rcases e with _ | _ | _ | c <;> rcases e' with _ | _ | _ | c' <;> simp at hsame ⊢
  rw [← String.toList_inj, message, message, EscapeError.toList_message_unknownEscape,
    EscapeError.toList_message_unknownEscape] at h
  exact (List.cons.inj (List.append_cancel_left h)).1

/-- Literals are read by their grammar.  A text is read as a string if between blanks it is a
quote, items that stand for this string, a quote, and anything.  It is no quoted string if it
does not begin with a quote, and it is unterminated if no quote behind the first is without a
backslash that escapes it.  In all other cases the first escape that does not exist is named.
Nothing else is ever wrong; in particular no backslash is left over. -/
theorem literal_grammar (text : String) :
    let read := (literal text.toList).mapError LiteralError.message
    let trimmed := Text.trim text.toList
    (∀ s, read = .ok s ↔ ∃ body rest, trimmed = '"' :: (body ++ '"' :: rest) ∧
      Items body s.toList) ∧
    (read = .error "expected a quoted string" ↔ ∀ body, trimmed ≠ '"' :: body) ∧
    (read = .error "unterminated string" ↔ ∃ body, trimmed = '"' :: body ∧ ¬Closed body) ∧
    (∀ c : Char, read = .error ("unknown escape `\\" ++ c.toString ++ "`") ↔
      ∃ good s rest, trimmed = '"' :: (good ++ '\\' :: c :: rest) ∧ Items good s ∧
        (∀ d, (c, d) ∉ escapes) ∧ Closed (good ++ '\\' :: c :: rest)) ∧
    ((∃ s, read = .ok s) ∨ read = .error "expected a quoted string" ∨
      read = .error "unterminated string" ∨
      ∃ c : Char, read = .error ("unknown escape `\\" ++ c.toString ++ "`")) ∧
    read ≠ .error "trailing backslash" := by
  intro read trimmed
  have hok : ∀ s, read = .ok s ↔ Judged text.toList (.ok s) := by
    intro s
    rw [← literal_eq_iff]
    exact mapError_eq_ok
  have herror : ∀ e : LiteralError, read = .error e.message ↔ Judged text.toList (.error e) := by
    intro e
    rw [← literal_eq_iff]
    constructor
    · intro h
      obtain ⟨e', he', hmessage⟩ := mapError_eq_error.mp h
      rw [he', LiteralError.message_inj hmessage]
    · intro h
      exact mapError_eq_error.mpr ⟨e, h, rfl⟩
  refine ⟨?_, ?_, ?_, ?_, ?_, ?_⟩
  · intro s
    rw [hok]
    constructor
    · intro h
      generalize hs : (Except.ok s : Except LiteralError String) = result at h
      cases h with
      | string htext hitems =>
          obtain rfl := Except.ok.inj hs
          exact ⟨_, _, htext, by rwa [String.toList_ofList]⟩
      | _ => simp at hs
    · rintro ⟨body, rest, htext, hitems⟩
      have hstring := Judged.string htext hitems
      rwa [String.ofList_toList] at hstring
  · refine (herror .notQuoted).trans ⟨?_, .notQuoted⟩
    intro h
    cases h with
    | notQuoted hstart => exact hstart
  · refine (herror .unterminated).trans ⟨?_, ?_⟩
    · intro h
      cases h with
      | unterminated htext hopen => exact ⟨_, htext, hopen⟩
    · rintro ⟨body, htext, hopen⟩
      exact .unterminated htext hopen
  · intro c
    refine (herror (.escape (.unknownEscape c))).trans ⟨?_, ?_⟩
    · intro h
      cases h with
      | unknownEscape htext hitems hbad hclosed => exact ⟨_, _, _, htext, hitems, hbad, hclosed⟩
    · rintro ⟨good, s, rest, htext, hitems, hbad, hclosed⟩
      exact .unknownEscape htext hitems hbad hclosed
  · obtain ⟨result, h⟩ := exists_judged text.toList
    cases id h with
    | notQuoted => exact Or.inr (Or.inl ((herror _).mpr h))
    | unterminated => exact Or.inr (Or.inr (Or.inl ((herror _).mpr h)))
    | string => exact Or.inl ⟨_, (hok _).mpr h⟩
    | unknownEscape => exact Or.inr (Or.inr (Or.inr ⟨_, (herror _).mpr h⟩))
  · intro h
    cases (herror (.escape .trailingBackslash)).mp h

end MipsText.Source
