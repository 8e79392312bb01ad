/-
# `MipsText.Stream` — bytes to read line by line

A stream is the bytes that are left, and what happens when they run out: an end
of file, or a failure.  Lines end with a line feed and are decoded one at a time,
so that one line that is not UTF-8 does not spoil the others.
-/
import MipsText.Failure.Stream
import MipsText.Text.Split

namespace MipsText

/-- Bytes that are left to read. -/
structure Stream where
  bytes : List UInt8
  /-- What stands in place of the end of file. -/
  failure : Option StreamFailure := none
deriving DecidableEq

namespace Stream

def ofString (s : String) : Stream :=
  { bytes := s.toUTF8.data.toList }

def isLineFeed (b : UInt8) : Bool :=
  b == 10

def decode? (bytes : List UInt8) : Option String :=
  String.fromUTF8? ⟨bytes.toArray⟩

def decodeLine (bytes : List UInt8) : Except StreamFailure (Option String) :=
  match decode? bytes with
  | some text => .ok (some text)
  | none => .error .notUtf8

/-- Takes the next line, with its line feed; `none` at the end of file.  A line
that cannot be decoded is taken too. -/
def takeLine (s : Stream) : Except StreamFailure (Option String) × Stream :=
  let line := s.bytes.takeWhile fun b => !isLineFeed b
  match s.bytes.dropWhile fun b => !isLineFeed b with
  | feed :: rest => (decodeLine (line ++ [feed]), { s with bytes := rest })
  | [] =>
      let rest := { s with bytes := [] }
      match s.failure with
      | some failure => (.error failure, rest)
      | none => if line.isEmpty then (.ok none, rest) else (decodeLine line, rest)

/-- What was read of a line before the stream failed in it; bytes that are not UTF-8 are lost. -/
def unfinished (s : Stream) : String :=
  if s.failure.isSome ∧ s.bytes.any isLineFeed = false then (decode? s.bytes).getD "" else ""

/-- The lines of the whole stream without their line feeds, `none` for one that
is not UTF-8.  An unfinished last line counts unless the stream fails. -/
def lines (s : Stream) : List (Option String) :=
  let pieces := Text.pieces isLineFeed s.bytes
  let whole :=
    if s.failure.isSome || (pieces.getLast?.getD []).isEmpty then pieces.dropLast else pieces
  whole.map decode?

theorem length_takeLine_lt {s rest : Stream} {text : String}
    (h : s.takeLine = (.ok (some text), rest)) : rest.bytes.length < s.bytes.length := by
  unfold takeLine at h
  have total := congrArg List.length
    (List.takeWhile_append_dropWhile (p := fun b => !isLineFeed b) (l := s.bytes))
  rw [List.length_append] at total
  dsimp only at h
  split at h
  · next feed tail found =>
      rw [found, List.length_cons] at total
      obtain ⟨-, rfl⟩ := Prod.mk.injEq .. ▸ h
      simp only
      omega
  · next found =>
      split at h
      · simp at h
      · split at h
        · simp at h
        · next nonempty =>
            obtain ⟨-, rfl⟩ := Prod.mk.injEq .. ▸ h
            have : 0 < (s.bytes.takeWhile fun b => !isLineFeed b).length := by
              rw [List.length_pos_iff]
              simpa using nonempty
            simp only [List.length_nil]
            omega

end Stream

end MipsText
