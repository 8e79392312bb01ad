/-
# `MipsText.Proofs.Console.Buffering` — that input is taken by lines cannot be noticed

The input of a program is a buffer: the rest of the line that was taken last, and the bytes
that were not taken yet.  `Plain` is a reader without a buffer, whose state is the text that
is left and nothing else.

`Input.Buffers i cs` ties the two together.  The text that is left is the pending part with
the unread part behind it; and as long as something is pending, it goes right up to the end
of its line, so that no number goes on in the unread part.  Every call keeps this, and is
answered alike by both readers.  Every call comes to an end too: skipping blanks recurses on
the bytes that are unread.

What a call takes away is blanks, or turns up in its answer, or is the end of a line
(`Accounts`).  So the answers, one after the other, account for the text up to what is left.
-/
import MipsText.Console.Input
import MipsText.Proofs.Source.Encoding
import MipsText.Proofs.Text.Numeral

namespace MipsText

/-! ## The first line of a text -/

namespace Text

/-- The text up to its first line feed, which is included, and what follows. -/
def splitLine : List Char → List Char × List Char
  | [] => ([], [])
  | c :: cs => if c = '\n' then ([c], cs) else (c :: (splitLine cs).1, (splitLine cs).2)

theorem splitLine_append (cs : List Char) : (splitLine cs).1 ++ (splitLine cs).2 = cs := by
  fun_induction splitLine cs with
  | case1 => rfl
  | case2 cs => rfl
  | case3 c cs hc ih => rw [List.cons_append, ih]

theorem splitLine_fst_ne_nil {cs : List Char} (h : cs ≠ []) : (splitLine cs).1 ≠ [] := by
  fun_cases splitLine cs with
  | case1 => exact absurd rfl h
  | case2 cs => simp
  | case3 c cs hc => simp

theorem splitLine_cases (cs : List Char) :
    (∃ line, '\n' ∉ line ∧ (splitLine cs).1 = line ++ ['\n']) ∨
      '\n' ∉ cs ∧ splitLine cs = (cs, []) := by
  fun_induction splitLine cs with
  | case1 => exact Or.inr ⟨List.not_mem_nil, rfl⟩
  | case2 cs => exact Or.inl ⟨[], List.not_mem_nil, rfl⟩
  | case3 c cs hc ih =>
      rcases ih with ⟨line, hline, hfirst⟩ | ⟨hnone, hall⟩
      · refine Or.inl ⟨c :: line, ?_, by rw [hfirst, List.cons_append]⟩
        exact List.not_mem_cons_of_ne_of_not_mem (Ne.symm hc) hline
      · refine Or.inr ⟨List.not_mem_cons_of_ne_of_not_mem (Ne.symm hc) hnone, ?_⟩
        rw [hall]

theorem splitLine_of_append {xs ys rest : List Char}
    (h : splitLine (xs ++ (ys ++ rest)) = (xs ++ ys, rest)) (hys : ys ≠ []) :
    splitLine (ys ++ rest) = (ys, rest) := by
  induction xs with
  | nil => exact h
  | cons x xs ih =>
      rw [List.cons_append, splitLine] at h
      split at h
      · obtain ⟨hline, -⟩ := Prod.mk.inj h
        have hempty := (List.append_eq_nil_iff.mp (List.cons.inj hline).2.symm).2
        exact absurd hempty hys
      · obtain ⟨hline, hrest⟩ := Prod.mk.inj h
        exact ih (Prod.ext (List.cons.inj hline).2 hrest)

theorem not_of_mem_head?_dropWhile {p : Char → Bool} {cs : List Char} {c : Char}
    (h : c ∈ (cs.dropWhile p).head?) : p c = false := by
  have hstop := List.head?_dropWhile_not p cs
  rwa [Option.mem_def.mp h] at hstop

theorem trimStart_append (cs ds : List Char) :
    trimStart (cs ++ ds) = if (trimStart cs).isEmpty then trimStart ds else trimStart cs ++ ds :=
  List.dropWhile_append

theorem takeWhile_splitLine (cs : List Char) :
    (cs.takeWhile fun c => !isBlank c) = (splitLine cs).1.takeWhile fun c => !isBlank c := by
  fun_induction splitLine cs with
  | case1 => rfl
  | case2 cs => rfl
  | case3 c cs hc ih => rw [List.takeWhile_cons, List.takeWhile_cons, ih]

theorem dropWhile_splitLine (cs : List Char) :
    (cs.dropWhile fun c => !isBlank c) =
      ((splitLine cs).1.dropWhile fun c => !isBlank c) ++ (splitLine cs).2 := by
  fun_induction splitLine cs with
  | case1 => rfl
  | case2 cs => rfl
  | case3 c cs hc ih =>
      rw [List.dropWhile_cons, List.dropWhile_cons, ih]
      split
      · rfl
      · rw [List.cons_append, splitLine_append]

end Text

namespace Stream

open Text

theorem ofString_append (cs ds : List Char) :
    ofString (String.ofList (cs ++ ds)) =
      { bytes := (ofString (String.ofList cs)).bytes ++ (ofString (String.ofList ds)).bytes } := by
  have hbytes : ∀ cs : List Char, ofString (String.ofList cs) =
      { bytes := cs.flatMap String.utf8EncodeChar } := by
    intro cs
    rw [← congrArg (List.flatMap String.utf8EncodeChar) (String.toList_ofList (l := cs)),
      ← bytes_ofString]
    rfl
  rw [hbytes, hbytes, hbytes, List.flatMap_append]

theorem decodeLine_ofString (cs : List Char) :
    decodeLine (ofString (String.ofList cs)).bytes = .ok (some (String.ofList cs)) := by
  rw [decodeLine, decode?_ofString]

theorem takeLine_ofString_nil :
    (ofString (String.ofList [])).takeLine = (.ok none, ofString (String.ofList [])) := by
  rfl

theorem takeLine_ofString_last {cs : List Char} (hne : cs ≠ []) (h : '\n' ∉ cs) :
    (ofString (String.ofList cs)).takeLine =
      (.ok (some (String.ofList cs)), ofString (String.ofList [])) := by
  have hfeed : ∀ b ∈ (ofString (String.ofList cs)).bytes, (!isLineFeed b) = true := by
    intro b hb
    rw [not_isLineFeed_of_mem_ofString (by rwa [String.toList_ofList]) b hb]
    rfl
  have hbytes : (ofString (String.ofList cs)).bytes ≠ [] := by
    intro hempty
    have hdecoded := decodeLine_ofString cs
    rw [hempty] at hdecoded
    exact hne (String.ofList_injective (Option.some.inj (Except.ok.inj hdecoded)).symm)
  rw [takeLine, List.takeWhile_eq_self_iff.mpr hfeed, List.dropWhile_eq_nil_iff.mpr hfeed]
  show (if (ofString (String.ofList cs)).bytes.isEmpty then _ else _) = _
  rw [if_neg (by simpa using hbytes), decodeLine_ofString]
  rfl

theorem takeLine_ofString_of_ne_nil {cs : List Char} (h : cs ≠ []) :
    (ofString (String.ofList cs)).takeLine =
      (.ok (some (String.ofList (splitLine cs).1)), ofString (String.ofList (splitLine cs).2)) := by
  rcases splitLine_cases cs with ⟨line, hline, hfirst⟩ | ⟨hnone, hall⟩
  · have hbytes : ofString (String.ofList cs) =
        { bytes := (ofString (String.ofList line)).bytes ++
            10 :: (ofString (String.ofList (splitLine cs).2)).bytes } := by
      conv => lhs; rw [← splitLine_append cs, hfirst, ofString_append, ofString_append]
      rw [List.append_assoc]
      rfl
    have hfeed : ∀ b ∈ (ofString (String.ofList line)).bytes, isLineFeed b = false :=
      not_isLineFeed_of_mem_ofString (by rwa [String.toList_ofList])
    have hten : isLineFeed 10 = true := rfl
    have htake := takeLine_append hfeed hten (ofString (String.ofList (splitLine cs).2))
    rw [hbytes, hfirst, ← decodeLine_ofString, ofString_append]
    exact htake
  · rw [hall]
    exact takeLine_ofString_last h hnone

end Stream

namespace Console

open Text

inductive Request
  | integer
  | line

inductive Answer
  | integer (result : Except Fault Word)
  | line (result : Except Fault String)

def askAll {σ : Type} (ask : σ → Request → Answer × σ) (s : σ) : List Request → List Answer × σ
  | [] => ([], s)
  | request :: requests =>
      let (answer, s) := ask s request
      let (answers, s) := askAll ask s requests
      (answer :: answers, s)

def Input.ask (i : Input) : Request → Answer × Input
  | .integer => i.takeInteger.map .integer id
  | .line => i.takeLine.map .line id

/-! ## A reader without a buffer -/

namespace Plain

def takeInteger (cs : List Char) : Except Fault Word × List Char :=
  let cs := trimStart cs
  if cs.isEmpty then (.error .endOfInput, [])
  else
    let token := cs.takeWhile fun c => !isBlank c
    match integer? token with
    | some value => (.ok value, cs.dropWhile fun c => !isBlank c)
    | none => (.error (.invalidInput (String.ofList token)), cs)

def takeLine (cs : List Char) : Except Fault String × List Char :=
  if cs.isEmpty then (.error .endOfInput, [])
  else (.ok (Input.withoutEnd (String.ofList (splitLine cs).1)), (splitLine cs).2)

def ask (cs : List Char) : Request → Answer × List Char
  | .integer => (takeInteger cs).map .integer id
  | .line => (takeLine cs).map .line id

variable {cs : List Char}

theorem takeInteger_of_blank (h : trimStart cs = []) :
    takeInteger cs = (.error .endOfInput, []) := by
  rw [takeInteger, h]
  rfl

theorem takeInteger_of_ne_nil (h : trimStart cs ≠ []) :
    takeInteger cs =
      match integer? ((trimStart cs).takeWhile fun c => !isBlank c) with
      | some value => (.ok value, (trimStart cs).dropWhile fun c => !isBlank c)
      | none => (.error (.invalidInput (String.ofList
          ((trimStart cs).takeWhile fun c => !isBlank c))), trimStart cs) := by
  rw [takeInteger, if_neg (by simpa using h)]

theorem takeLine_of_ne_nil (h : cs ≠ []) :
    takeLine cs =
      (.ok (Input.withoutEnd (String.ofList (splitLine cs).1)), (splitLine cs).2) := by
  rw [takeLine, if_neg (by simpa using h)]

end Plain

/-! ## What the buffer holds -/

namespace Input

/-- `i.Buffers cs`: what is left to read is `cs`, and what is pending of it, if anything,
is its first line. -/
inductive Buffers : Input → List Char → Prop
  | unread (cs : List Char) :
      Buffers { pending := "", unread := Stream.ofString (String.ofList cs) } cs
  | pending {line rest : List Char} (hne : line ≠ [])
      (hline : splitLine (line ++ rest) = (line, rest)) :
      Buffers { pending := String.ofList line, unread := Stream.ofString (String.ofList rest) }
        (line ++ rest)

variable {i : Input} {cs : List Char}

/-- The front of the first line may go, and then the line may be used up. -/
theorem buffers_of_append {front line rest : List Char}
    (h : splitLine (front ++ (line ++ rest)) = (front ++ line, rest)) :
    Buffers { pending := String.ofList line, unread := Stream.ofString (String.ofList rest) }
      (line ++ rest) := by
  by_cases hline : line = []
  · subst hline
    exact .unread rest
  · exact .pending hline (splitLine_of_append h hline)

theorem buffers_splitLine (h : cs ≠ []) :
    Buffers { pending := String.ofList (splitLine cs).1
              unread := Stream.ofString (String.ofList (splitLine cs).2) } cs := by
  have hne := splitLine_fst_ne_nil h
  have hline := splitLine_append cs
  generalize hsplit : splitLine cs = split at hne hline ⊢
  obtain ⟨line, rest⟩ := split
  subst hline
  exact .pending hne hsplit

theorem buffers_takeLine (h : i.Buffers cs) :
    i.takeLine.1 = (Plain.takeLine cs).1 ∧ i.takeLine.2.Buffers (Plain.takeLine cs).2 := by
  cases h with
  | unread cs =>
      by_cases hcs : cs = []
      · subst hcs
        exact ⟨rfl, .unread []⟩
      · have hpending : "".isEmpty = true := rfl
        rw [takeLine, if_pos hpending, Stream.takeLine_ofString_of_ne_nil hcs,
          Plain.takeLine_of_ne_nil hcs]
        exact ⟨rfl, .unread _⟩
  | @pending line rest hne hline =>
      have hpending : ¬(String.ofList line).isEmpty = true := by simpa using hne
      rw [takeLine, if_neg hpending, Plain.takeLine_of_ne_nil (by simp [hne]), hline]
      exact ⟨rfl, .unread rest⟩

theorem trimStart_of_pending (h : i.Buffers cs) (hblank : trimStart i.pending.toList = []) :
    ∃ rest, i.unread = Stream.ofString (String.ofList rest) ∧ trimStart cs = trimStart rest := by
  cases h with
  | unread cs => exact ⟨cs, rfl, rfl⟩
  | @pending line rest hne hline =>
      rw [String.toList_ofList] at hblank
      exact ⟨rest, rfl, by rw [trimStart_append, if_pos (List.isEmpty_iff.mpr hblank)]⟩

/-- What skipping blanks gives when `cs` is behind them: nothing, or a line that begins with
something else and is pending now. -/
inductive Skipped : List Char → Except Fault (List Char) × Input → Prop
  | nothing {i : Input} (hrest : i.Buffers []) : Skipped [] (.error .endOfInput, i)
  | found {line rest : List Char} (hne : line ≠ [])
      (hline : splitLine (line ++ rest) = (line, rest)) :
      Skipped (line ++ rest) (.ok line,
        { pending := String.ofList line, unread := Stream.ofString (String.ofList rest) })

theorem takeLine_of_blank (h : i.Buffers cs) (hblank : trimStart i.pending.toList = []) :
    (trimStart cs = [] ∧ i.unread.takeLine = (.ok none, Stream.ofString (String.ofList []))) ∨
      ∃ rest, rest ≠ [] ∧ trimStart cs = trimStart rest ∧
        i.unread.takeLine = (.ok (some (String.ofList (splitLine rest).1)),
          Stream.ofString (String.ofList (splitLine rest).2)) := by
  obtain ⟨rest, hunread, htrim⟩ := trimStart_of_pending h hblank
  rw [hunread]
  by_cases hrest : rest = []
  · subst hrest
    exact .inl ⟨htrim, Stream.takeLine_ofString_nil⟩
  · exact .inr ⟨rest, hrest, htrim, Stream.takeLine_ofString_of_ne_nil hrest⟩

theorem skipped_skipBlanks (h : i.Buffers cs) : Skipped (trimStart cs) i.skipBlanks := by
  -- a line of blanks is dropped and the next one taken, so the text changes from turn to turn
  fun_induction skipBlanks i generalizing cs with
  | @case1 i line hblank text unread htake ih =>
      rcases takeLine_of_blank h (List.isEmpty_iff.mp hblank) with
        ⟨-, hnone⟩ | ⟨rest, hrest, htrim, hsome⟩
      · simp [hnone] at htake
      · obtain ⟨htext, rfl⟩ := Prod.mk.inj (hsome.symm.trans htake)
        obtain rfl := Option.some.inj (Except.ok.inj htext)
        rw [htrim]
        exact ih (buffers_splitLine hrest)
  | @case2 i line hblank unread htake =>
      rcases takeLine_of_blank h (List.isEmpty_iff.mp hblank) with
        ⟨htrim, hnone⟩ | ⟨rest, hrest, htrim, hsome⟩
      · obtain ⟨-, rfl⟩ := Prod.mk.inj (hnone.symm.trans htake)
        rw [htrim]
        exact .nothing (.unread [])
      · simp [hsome] at htake
  | @case3 i line hblank failure unread htake =>
      rcases takeLine_of_blank h (List.isEmpty_iff.mp hblank) with
        ⟨-, hnone⟩ | ⟨rest, hrest, htrim, hsome⟩
      · simp [hnone] at htake
      · simp [hsome] at htake
  | @case4 i line hfound =>
      cases h with
      | unread cs => exact absurd rfl hfound
      | @pending full rest hne hline =>
          have hpending : line = trimStart full := by rw [← String.toList_ofList (l := full)]
          rw [hpending, List.isEmpty_iff] at hfound
          have htrim : trimStart (full ++ rest) = trimStart full ++ rest := by
            rw [trimStart_append, if_neg (mt List.isEmpty_iff.mp hfound)]
          have hsplit : splitLine (full.takeWhile isBlank ++ (trimStart full ++ rest)) =
              (full.takeWhile isBlank ++ trimStart full, rest) := by
            rw [← List.append_assoc, trimStart, List.takeWhile_append_dropWhile, hline]
          rw [htrim, hpending]
          exact .found hfound (splitLine_of_append hsplit hfound)

theorem buffers_takeInteger (h : i.Buffers cs) :
    i.takeInteger.1 = (Plain.takeInteger cs).1 ∧
      i.takeInteger.2.Buffers (Plain.takeInteger cs).2 := by
  have hskipped := skipped_skipBlanks h
  rw [takeInteger]
  generalize htext : trimStart cs = text at hskipped
  generalize i.skipBlanks = result at hskipped ⊢
  cases hskipped with
  | nothing hrest =>
      rw [Plain.takeInteger_of_blank htext]
      exact ⟨rfl, hrest⟩
  | @found line rest hne hline =>
      have htoken := takeWhile_splitLine (line ++ rest)
      have hbehind := dropWhile_splitLine (line ++ rest)
      rw [hline] at htoken hbehind
      rw [Plain.takeInteger_of_ne_nil (by simp [htext, hne]), htext, htoken, hbehind]
      dsimp only
      cases integer? (line.takeWhile fun c => !isBlank c) with
      | some value =>
          have hsplit : splitLine ((line.takeWhile fun c => !isBlank c) ++
              ((line.dropWhile fun c => !isBlank c) ++ rest)) =
              ((line.takeWhile fun c => !isBlank c) ++ line.dropWhile fun c => !isBlank c,
                rest) := by
            rw [← List.append_assoc, List.takeWhile_append_dropWhile, hline]
          exact ⟨rfl, buffers_of_append hsplit⟩
      | none => exact ⟨rfl, .pending hne hline⟩

theorem withoutEnd_ofList (line : List Char) :
    ∃ text ending, line = text ++ ending ∧
      withoutEnd (String.ofList line) = String.ofList text ∧
      (∀ c ∈ ending, isLineEnd c = true) ∧
      ∀ c ∈ text.getLast?, isLineEnd c = false := by
  refine ⟨(line.reverse.dropWhile isLineEnd).reverse,
    (line.reverse.takeWhile isLineEnd).reverse, ?_, ?_, ?_, ?_⟩
  · rw [← List.reverse_append, List.takeWhile_append_dropWhile, List.reverse_reverse]
  · rw [withoutEnd, String.toList_ofList]
  · intro c hc
    exact List.mem_takeWhile_imp (List.mem_reverse.mp hc)
  · intro c hc
    rw [List.getLast?_reverse] at hc
    exact not_of_mem_head?_dropWhile hc

/-- A call is answered as by the plain reader, and what is left is what it leaves. -/
theorem buffers_ask (h : i.Buffers cs) (request : Request) :
    (i.ask request).1 = (Plain.ask cs request).1 ∧
      (i.ask request).2.Buffers (Plain.ask cs request).2 := by
  cases request with
  | integer =>
      obtain ⟨hresult, hrest⟩ := buffers_takeInteger h
      exact ⟨congrArg Answer.integer hresult, hrest⟩
  | line =>
      obtain ⟨hresult, hrest⟩ := buffers_takeLine h
      exact ⟨congrArg Answer.line hresult, hrest⟩

theorem buffers_askAll (h : i.Buffers cs) (requests : List Request) :
    (askAll ask i requests).1 = (askAll Plain.ask cs requests).1 ∧
      (askAll ask i requests).2.Buffers (askAll Plain.ask cs requests).2 := by
  induction requests generalizing i cs with
  | nil => exact ⟨rfl, h⟩
  | cons request requests ih =>
      obtain ⟨hanswer, hrest⟩ := buffers_ask h request
      obtain ⟨hanswers, hleft⟩ := ih hrest
      exact ⟨congrArg₂ List.cons hanswer hanswers, hleft⟩

end Input

/-! ## What becomes of the characters -/

/-- `Accounts request answer piece rest`: of the text `piece ++ rest`, the call takes
`piece` away and leaves `rest`. -/
inductive Accounts : Request → Answer → List Char → List Char → Prop
  /-- Blanks and a word that is a number go. -/
  | integer {blanks token rest : List Char} {value : Word}
      (hblanks : ∀ c ∈ blanks, isBlank c = true) (htoken : ∀ c ∈ token, isBlank c = false)
      (hrest : ∀ c ∈ rest.head?, isBlank c = true) (hvalue : Decimal token value.toInt) :
      Accounts .integer (.integer (.ok value)) (blanks ++ token) rest
  /-- Of blanks and a word that is no number, the word is left. -/
  | notInteger {blanks token rest : List Char}
      (hblanks : ∀ c ∈ blanks, isBlank c = true) (htoken : ∀ c ∈ token, isBlank c = false)
      (hne : token ≠ []) (hrest : ∀ c ∈ rest.head?, isBlank c = true)
      (hvalue : ∀ value : Word, ¬Decimal token value.toInt) :
      Accounts .integer (.integer (.error (.invalidInput (String.ofList token)))) blanks
        (token ++ rest)
  /-- There are blanks and no word behind them. -/
  | noInteger {blanks : List Char} (hblanks : ∀ c ∈ blanks, isBlank c = true) :
      Accounts .integer (.integer (.error .endOfInput)) blanks []
  /-- The first line goes, and is given up to the characters at its end. -/
  | line {text ending rest : List Char} (hne : text ++ ending ≠ [])
      (hline : splitLine (text ++ ending ++ rest) = (text ++ ending, rest))
      (hending : ∀ c ∈ ending, Input.isLineEnd c = true)
      (hlast : ∀ c ∈ text.getLast?, Input.isLineEnd c = false) :
      Accounts .line (.line (.ok (String.ofList text))) (text ++ ending) rest
  | noLine : Accounts .line (.line (.error .endOfInput)) [] []

/-- The answers account for the text up to what is left, piece by piece and in order. -/
inductive Accounted : List Request → List Answer → List Char → List Char → Prop
  | nil (cs : List Char) : Accounted [] [] cs cs
  | cons {request : Request} {requests : List Request} {answer : Answer} {answers : List Answer}
      {piece between rest : List Char} (hfirst : Accounts request answer piece between)
      (hmore : Accounted requests answers between rest) :
      Accounted (request :: requests) (answer :: answers) (piece ++ between) rest

namespace Plain

theorem accounts_takeInteger (cs : List Char) :
    ∃ piece, cs = piece ++ (takeInteger cs).2 ∧
      Accounts .integer (.integer (takeInteger cs).1) piece (takeInteger cs).2 := by
  have hblanks : ∀ c ∈ cs.takeWhile isBlank, isBlank c = true := fun c => List.mem_takeWhile_imp
  have hcs : cs = cs.takeWhile isBlank ++ trimStart cs := List.takeWhile_append_dropWhile.symm
  by_cases htrim : trimStart cs = []
  · rw [takeInteger_of_blank htrim]
    rw [htrim] at hcs
    exact ⟨_, hcs, .noInteger hblanks⟩
  · rw [takeInteger_of_ne_nil htrim]
    have hhead : ∀ c ∈ (trimStart cs).head?, isBlank c = false :=
      fun c => not_of_mem_head?_dropWhile
    generalize trimStart cs = text at *
    have htext : text =
        (text.takeWhile fun c => !isBlank c) ++ text.dropWhile fun c => !isBlank c :=
      List.takeWhile_append_dropWhile.symm
    have hrest : ∀ c ∈ (text.dropWhile fun c => !isBlank c).head?, isBlank c = true := by
      intro c hc
      simpa using not_of_mem_head?_dropWhile hc
    have htoken : ∀ c ∈ text.takeWhile fun c => !isBlank c, isBlank c = false := by
      intro c hc
      simpa using List.mem_takeWhile_imp hc
    cases hvalue : integer? (text.takeWhile fun c => !isBlank c) with
    | some value =>
        refine ⟨_, ?_, .integer hblanks htoken hrest (integer?_eq_some.mp hvalue)⟩
        rw [List.append_assoc, ← htext, ← hcs]
    | none =>
        have hne : (text.takeWhile fun c => !isBlank c) ≠ [] := by
          obtain ⟨c, tail, rfl⟩ := List.exists_cons_of_ne_nil htrim
          simp [hhead c rfl]
        have hnot : ∀ value : Word,
            ¬Decimal (text.takeWhile fun c => !isBlank c) value.toInt := by
          intro value hdecimal
          simp [integer?_eq_some.mpr hdecimal] at hvalue
        have hleft := Accounts.notInteger hblanks htoken hne hrest hnot
        rw [← htext] at hleft
        exact ⟨_, hcs, hleft⟩

theorem accounts_takeLine (cs : List Char) :
    ∃ piece, cs = piece ++ (takeLine cs).2 ∧
      Accounts .line (.line (takeLine cs).1) piece (takeLine cs).2 := by
  by_cases hcs : cs = []
  · subst hcs
    exact ⟨[], rfl, .noLine⟩
  · rw [takeLine_of_ne_nil hcs]
    have hne := splitLine_fst_ne_nil hcs
    have happend := splitLine_append cs
    generalize hsplit : splitLine cs = split at hne happend ⊢
    obtain ⟨line, rest⟩ := split
    obtain ⟨text, ending, rfl, htext, hending, hlast⟩ := Input.withoutEnd_ofList line
    rw [htext]
    exact ⟨_, happend.symm, .line hne (by rwa [happend]) hending hlast⟩

theorem accounts_ask (cs : List Char) : ∀ request : Request,
    ∃ piece, cs = piece ++ (ask cs request).2 ∧
      Accounts request (ask cs request).1 piece (ask cs request).2
  | .integer => accounts_takeInteger cs
  | .line => accounts_takeLine cs

theorem accounted_askAll (cs : List Char) (requests : List Request) :
    Accounted requests (askAll ask cs requests).1 cs (askAll ask cs requests).2 := by
  induction requests generalizing cs with
  | nil => exact .nil cs
  | cons request requests ih =>
      obtain ⟨piece, htext, hfirst⟩ := accounts_ask cs request
      have hmore := Accounted.cons hfirst (ih _)
      rwa [← htext] at hmore

end Plain

/-- That input is buffered by lines cannot be noticed: calls of either kind, in any order,
are answered as by a reader whose state is the text that is left; what the buffer holds is
that text; and the answers account for every character up to it, once and in order. -/
theorem askAll_input_eq_plain (text : String) (requests : List Request) :
    let buffered := askAll Input.ask { unread := Stream.ofString text } requests
    let plain := askAll Plain.ask text.toList requests
    buffered.1 = plain.1 ∧ buffered.2.Buffers plain.2 ∧
      Accounted requests buffered.1 text.toList plain.2 := by
  have hstart : Input.Buffers { unread := Stream.ofString text } text.toList := by
    have := Input.Buffers.unread text.toList
    rwa [String.ofList_toList] at this
  obtain ⟨hanswers, hleft⟩ := Input.buffers_askAll hstart requests
  refine ⟨hanswers, hleft, ?_⟩
  rw [hanswers]
  exact Plain.accounted_askAll text.toList requests

/-- Integers and lines in turn, over an empty line, a word that is no number and a last line
without an end. -/
theorem askAll_input_mixed :
    (askAll Input.ask { unread := Stream.ofString "\n 7 x\r\n 12y\n-5 " }
      [.integer, .line, .integer, .line, .integer, .line, .line]).1 =
      [.integer (.ok 7), .line (.ok " x"), .integer (.error (.invalidInput "12y")),
        .line (.ok "12y"), .integer (.ok (-5)), .line (.ok " "), .line (.error .endOfInput)] := by
  rw [(askAll_input_eq_plain _ _).1]
  rfl

end Console

end MipsText
