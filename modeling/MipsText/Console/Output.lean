/-
# `MipsText.Console.Output` — what a program has written

A text is written to a sink and then flushed, and the sink may refuse either.  What
it has then is up to the sink: a text that is refused may have been written in part,
and one that cannot be flushed has been written.
-/
import MipsText.Failure.Stream

namespace MipsText.Console

/-- Where output goes. -/
structure Sink where
  /-- Why a text is refused behind what the sink has already, and what the sink has then. -/
  refusal? : (taken text : String) → Option (StreamFailure × String) := fun _ _ => none
  /-- Why the sink cannot be flushed. -/
  flushFailure? : (taken : String) → Option StreamFailure := fun _ => none

/-- A sink with room for some number of bytes.  A text that does not fit is not written at all,
and there is nothing to flush. -/
def Sink.limited (limit : Option Nat) : Sink where
  refusal? taken text :=
    match limit with
    | none => none
    | some limit =>
        if taken.utf8ByteSize + text.utf8ByteSize ≤ limit then none else some (.sinkFull, taken)

/-- What was written, and where to. -/
structure Output where
  text : String := ""
  sink : Sink := {}

namespace Output

def size (o : Output) : Nat :=
  o.text.utf8ByteSize

def append (o : Output) (text : String) : Output :=
  { o with text := o.text ++ text }

def write (o : Output) (text : String) : Except StreamFailure Unit × Output :=
  match o.sink.refusal? o.text text with
  | none => (.ok (), o.append text)
  | some (failure, taken) => (.error failure, { o with text := taken })

def flush (o : Output) : Except StreamFailure Unit × Output :=
  match o.sink.flushFailure? o.text with
  | none => (.ok (), o)
  | some failure => (.error failure, o)

end Output

end MipsText.Console
