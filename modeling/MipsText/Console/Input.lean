/-
# `MipsText.Console.Input` — what a program reads

A program reads integers and lines from one stream.  The stream is taken a line at
a time; the part of a line behind an integer stays pending, so that a line read
after an integer gives the rest of that line.  What was read of a line that the
stream failed in stays pending too.
-/
import MipsText.Failure.Fault
import MipsText.Stream
import MipsText.Text.Blank

namespace MipsText.Console

/-- What is left to read. -/
structure Input where
  /-- The rest of the line that was taken last. -/
  pending : String := ""
  unread : Stream := { bytes := [] }
deriving DecidableEq

namespace Input

/-- Takes lines until something other than blanks is pending, and gives it without
the blanks before it. -/
def skipBlanks (i : Input) : Except Fault (List Char) × Input :=
  let cs := Text.trimStart i.pending.toList
  if cs.isEmpty then
    match _h : i.unread.takeLine with
    | (.ok (some text), rest) => skipBlanks { pending := text, unread := rest }
    | (.ok none, rest) => (.error .endOfInput, { pending := "", unread := rest })
    | (.error failure, rest) =>
        (.error (.stream failure), { pending := i.unread.unfinished, unread := rest })
  else (.ok cs, { i with pending := String.ofList cs })
termination_by i.unread.bytes.length
decreasing_by exact Stream.length_takeLine_lt ‹_›

/-- Reads an integer.  What is not one stays pending. -/
def takeInteger (i : Input) : Except Fault Word × Input :=
  match i.skipBlanks with
  | (.error fault, rest) => (.error fault, rest)
  | (.ok cs, rest) =>
      let token := cs.takeWhile fun c => !Text.isBlank c
      match Text.integer? token with
      | some value =>
          (.ok value, { rest with pending := String.ofList (cs.dropWhile fun c => !Text.isBlank c) })
      | none => (.error (.invalidInput (String.ofList token)), rest)

def isLineEnd (c : Char) : Bool :=
  c == '\n' || c == '\r'

def withoutEnd (line : String) : String :=
  String.ofList (line.toList.reverse.dropWhile isLineEnd).reverse

/-- Reads the rest of the pending line, or the next line. -/
def takeLine (i : Input) : Except Fault String × Input :=
  if i.pending.isEmpty then
    match i.unread.takeLine with
    | (.ok (some text), rest) => (.ok (withoutEnd text), { pending := "", unread := rest })
    | (.ok none, rest) => (.error .endOfInput, { pending := "", unread := rest })
    | (.error failure, rest) =>
        (.error (.stream failure), { pending := i.unread.unfinished, unread := rest })
  else (.ok (withoutEnd i.pending), { i with pending := "" })

end Input

end MipsText.Console
