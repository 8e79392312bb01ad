/-
# `MipsText.Transcript` — what goes to standard error

Log lines and what a front end says itself go to the same place, in order.  Log
lines are left out unless the verbosity asks for them.
-/
import MipsText.Debugger

namespace MipsText

/-- What went to standard error so far. -/
structure Transcript where
  verbosity : Log.Verbosity
  text : String := ""

namespace Transcript

def write (t : Transcript) (text : String) : Transcript :=
  { t with text := t.text ++ text }

def log (t : Transcript) (line : Log.Line) : Transcript :=
  if t.verbosity.shows line.level then t.write (line.render ++ "\n") else t

def logNotice (t : Transcript) (n : Source.Notice) : Transcript :=
  t.log n.log

def logEvent (t : Transcript) (e : Event) : Transcript :=
  if t.verbosity.shows e.level then t.write (e.log.render ++ "\n") else t

def remark (t : Transcript) : Remark → Transcript
  | .said text => t.write text
  | .logged event => t.logEvent event

def error (t : Transcript) (diagnostic : String) : Transcript :=
  t.write ("Error: " ++ diagnostic ++ "\n")

end Transcript

end MipsText
