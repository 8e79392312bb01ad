/-
# `MipsText.Failure.Stream` — what can go wrong on a stream

Reading and writing can fail for a few reasons.  Each has a plain text and a
diagnostic, which names the cause in a fixed form; system errors carry their
number in both.
-/
import MipsText.Text.Quoted

namespace MipsText

/-- Why reading or writing failed. -/
inductive StreamFailure where
  /-- The bytes are not UTF-8. -/
  | notUtf8
  /-- The source of the bytes broke off. -/
  | sourceFailed
  /-- There is no room for what was written. -/
  | sinkFull
  | noSuchFile
  | notADirectory
  | isADirectory
deriving DecidableEq

namespace StreamFailure

/-- What the operating system calls a failure: number, kind and text. -/
def system? : StreamFailure → Option (Nat × String × String)
  | .noSuchFile => some (2, "NotFound", "No such file or directory")
  | .notADirectory => some (20, "NotADirectory", "Not a directory")
  | .isADirectory => some (21, "IsADirectory", "Is a directory")
  | _ => none

def plain : StreamFailure → String
  | .notUtf8 => "stream did not contain valid UTF-8"
  | .sourceFailed => "source failed"
  | .sinkFull => "sink full"
  | _ => ""

def message (e : StreamFailure) : String :=
  match e.system? with
  | some (code, _, text) => text ++ " (os error " ++ code.repr ++ ")"
  | none => e.plain

def diagnostic (e : StreamFailure) : String :=
  match e.system? with
  | some (code, kind, text) =>
      Text.record "Os" [("code", code.repr), ("kind", kind), ("message", Text.quote text)]
  | none =>
      match e with
      | .notUtf8 => Text.record "Error" [("kind", "InvalidData"), ("message", Text.quote e.plain)]
      | _ => Text.record "Custom" [("kind", "Other"), ("error", Text.quote e.plain)]

end StreamFailure

end MipsText
