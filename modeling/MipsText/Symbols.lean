/-
# `MipsText.Symbols` — what the labels of a program stand for

A label may stand for a line of the program, for an array of words and for a
string, each in a table of its own, so one name can be in several of them.

  * `load` and `store` follow a byte offset into an array.  Offsets count
    four bytes a word and round toward zero; a store right behind the last word
    makes the array longer.
  * `turnIntoString` turns an array into a string for good.
  * `describe` shows what a cell stands for: a number, the line of a label, its
    words, or its string, in that order of preference.
-/
import Std.Data.ExtTreeMap
import MipsText.Cell
import MipsText.Failure.Fault

namespace MipsText

/-- The tables of labels. -/
structure Symbols where
  /-- Labels of program lines. -/
  lines : Std.ExtTreeMap String Nat := ∅
  /-- Labels of word arrays. -/
  words : Std.ExtTreeMap String (Array Word) := ∅
  /-- Labels of strings. -/
  strings : Std.ExtTreeMap String String := ∅

namespace Symbols

def line? (s : Symbols) (label : String) : Option Nat :=
  s.lines[label]?

/-! ## Word arrays -/

def array (s : Symbols) (label : String) : Except Fault (Array Word) :=
  match s.words[label]? with
  | some words => .ok words
  | none => .error (.unknownStorage label)

/-- The place of a word, from its offset in bytes. -/
def place (offset : Word) : Int :=
  offset.toInt.tdiv 4

/-- The place as an index below `bound`, for an array of the given length. -/
def index (label : String) (length bound : Nat) (offset : Word) : Except Fault Nat :=
  let i := place offset
  if 0 ≤ i ∧ i < bound then .ok i.toNat else .error (.outOfBounds label i length)

def load (s : Symbols) (label : String) (offset : Word) : Except Fault Word := do
  let words ← s.array label
  let i ← index label words.size words.size offset
  return words.getD i 0

/-- Where a store at an offset goes: a word of the array, or right behind the last. -/
def storeIndex (s : Symbols) (label : String) (offset : Word) : Except Fault Nat := do
  let words ← s.array label
  index label words.size (words.size + 1) offset

/-- Replaces the word at an index, or adds one at the end. -/
def putWord (words : Array Word) (i : Nat) (value : Word) : Array Word :=
  if i < words.size then words.setIfInBounds i value else words.push value

def setWord (s : Symbols) (label : String) (i : Nat) (value : Word) : Symbols :=
  { s with words := s.words.modify label fun words => putWord words i value }

def store (s : Symbols) (label : String) (offset value : Word) : Except Fault Symbols := do
  let i ← s.storeIndex label offset
  return s.setWord label i value

/-- Adds words to the array of a label, which is empty at first. -/
def appendWords (s : Symbols) (label : String) (more : Array Word) : Symbols :=
  { s with words := s.words.alter label fun words => some (words.getD #[] ++ more) }

/-! ## Lines and strings -/

/-- Lets a label stand for a line, whatever line it stood for before. -/
def setLine (s : Symbols) (label : String) (line : Nat) : Symbols :=
  { s with lines := s.lines.insert label line }

def setString (s : Symbols) (label text : String) : Symbols :=
  { s with strings := s.strings.insert label text }

/-- Replaces the array of a label by a string. -/
def turnIntoString (s : Symbols) (label text : String) : Symbols :=
  { s.setString label text with words := s.words.erase label }

/-! ## Showing -/

/-- Words between brackets. -/
def bracketed (words : Array Word) : String :=
  "[" ++ ", ".intercalate (words.toList.map Word.text) ++ "]"

def describe (s : Symbols) : Cell → Except Fault String
  | .int value => .ok (Word.text value)
  | .ref label =>
      match s.lines[label]? with
      | some line => .ok line.repr
      | none =>
          match s.words[label]? with
          | some words => .ok (bracketed words)
          | none =>
              match s.strings[label]? with
              | some text => .ok text
              | none => .error (.unknownStorage label)

end Symbols

end MipsText
