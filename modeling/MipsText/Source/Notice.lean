/-
# `MipsText.Source.Notice` — what the assembler has to say

Nothing in a source stops the assembler; it notes what it had to skip, with the
number of the line, counted from zero.
-/
import MipsText.Log
import MipsText.Source.Directive

namespace MipsText.Source

/-- Something worth noting about a source. -/
inductive Notice where
  /-- A line that is not UTF-8. -/
  | undecodable (line : Nat)
  /-- A labelled line whose directive defines nothing. -/
  | badDirective (line : Nat) (name : String) (error : DirectiveError)
  /-- How much was assembled: lines, and labels of each table. -/
  | assembled (lines text words strings : Nat)
deriving DecidableEq

namespace Notice

def directiveText (name : String) : DirectiveError → String
  | .badString e => "bad .asciiz for " ++ name ++ ": " ++ e.message
  | .badSpace size => "bad .space size `" ++ size ++ "` for " ++ name
  | .spaceTooLarge bytes =>
      ".space size " ++ bytes.repr ++ " for " ++ name ++ " is over the " ++ spaceLimit.repr ++
        " byte limit"
  | .badWords => "bad .word values for " ++ name
  | .unsupported text => "unsupported data directive `" ++ text ++ "`"

def line? : Notice → Option Nat
  | .undecodable line => some line
  | .badDirective line _ _ => some line
  | .assembled .. => none

def log : Notice → Log.Line
  | .undecodable line =>
      ⟨.warn, "Couldn't read line " ++ line.repr ++ ": " ++ StreamFailure.notUtf8.message⟩
  | .badDirective line name error =>
      ⟨.warn, "Line " ++ line.repr ++ ": " ++ directiveText name error⟩
  | .assembled lines text words strings =>
      ⟨.info, "Loaded " ++ lines.repr ++ " lines, " ++ text.repr ++ " text labels, " ++
        words.repr ++ " word arrays, " ++ strings.repr ++ " strings"⟩

end Notice

end MipsText.Source
