/-
# `MipsText.Text.Blank` — blanks, trimming and words

Blanks are the characters with the Unicode property White_Space.  Every place
that trims a text, finds the end of a mnemonic or splits a command into words
uses this one class.
-/
import MipsText.Text.Split

namespace MipsText.Text

/-- The characters with the Unicode property White_Space. -/
def isBlank (c : Char) : Bool :=
  let n := c.toNat
  (0x09 ≤ n && n ≤ 0x0D) || n == 0x20 || n == 0x85 || n == 0xA0 || n == 0x1680 ||
    (0x2000 ≤ n && n ≤ 0x200A) || n == 0x2028 || n == 0x2029 || n == 0x202F ||
    n == 0x205F || n == 0x3000

def trimStart (cs : List Char) : List Char :=
  cs.dropWhile isBlank

def trimEnd (cs : List Char) : List Char :=
  (cs.reverse.dropWhile isBlank).reverse

def trim (cs : List Char) : List Char :=
  trimEnd (trimStart cs)

/-- The maximal stretches without blanks, in order. -/
def words (cs : List Char) : List (List Char) :=
  (pieces isBlank cs).filter (fun w => !w.isEmpty)

def startsWith (cs : List Char) (head : String) : Bool :=
  head.toList.isPrefixOf cs

/-- What follows the given beginning, if the text has it. -/
def after? (cs : List Char) (head : String) : Option (List Char) :=
  if startsWith cs head then some (cs.drop head.length) else none

end MipsText.Text
