/-
# `MipsText.Log` — log lines and their levels

What the assembler and the machine note about their work goes to a log.  A log
line has a level; how verbose the log is decides which levels are kept.
-/

namespace MipsText.Log

/-- How much a log line matters, the most important first. -/
inductive Level where
  | error
  | warn
  | info
  | debug
  | trace
deriving DecidableEq

namespace Level

def text : Level → String
  | .error => "ERROR"
  | .warn => "WARN"
  | .info => "INFO"
  | .debug => "DEBUG"
  | .trace => "TRACE"

/-- The position of the level in the order of importance, from one. -/
def rank : Level → Nat
  | .error => 1
  | .warn => 2
  | .info => 3
  | .debug => 4
  | .trace => 5

end Level

/-- Which log lines are kept: none, or those up to a level. -/
inductive Verbosity where
  | off
  | upTo (level : Level)
deriving DecidableEq

namespace Verbosity

def shows : Verbosity → Level → Bool
  | .off, _ => false
  | .upTo most, level => level.rank ≤ most.rank

/-- Warnings and errors, unless asked otherwise. -/
def usual : Verbosity := .upTo .warn

def ofName? : String → Option Verbosity
  | "off" => some .off
  | "error" => some (.upTo .error)
  | "warn" => some (.upTo .warn)
  | "info" => some (.upTo .info)
  | "debug" => some (.upTo .debug)
  | "trace" => some (.upTo .trace)
  | _ => none

end Verbosity

structure Line where
  level : Level
  text : String
deriving DecidableEq

def Line.render (l : Line) : String :=
  "[" ++ l.level.text ++ "] " ++ l.text

/-- What is printed of some lines. -/
def render (verbosity : Verbosity) (lines : List Line) : List String :=
  (lines.filter fun l => verbosity.shows l.level).map Line.render

end MipsText.Log
