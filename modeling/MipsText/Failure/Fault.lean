/-
# `MipsText.Failure.Fault` — faults of a running program

A fault stops the program and is reported, unlike a malformed line.  `Stop` is
either of the two.
-/
import MipsText.Failure.Defect
import MipsText.Failure.Stream
import MipsText.Text.Numeral

namespace MipsText

/-- What a running program can do wrong. -/
inductive Fault where
  | outOfBounds (label : String) (index : Int) (length : Nat)
  | unknownStorage (label : String)
  | referenceNotInteger (register : Register)
  | notReference (register : Register)
  | divisionByZero
  | invalidJumpTarget (address : Word)
  | invalidCharacter (code : Word)
  | invalidInput (token : String)
  | endOfInput
  | stream (failure : StreamFailure)
deriving DecidableEq

namespace Fault

def kind : Fault → String
  | .outOfBounds .. => "OutOfBounds"
  | .unknownStorage _ => "UnknownStorage"
  | .referenceNotInteger _ => "ReferenceNotInteger"
  | .notReference _ => "NotReference"
  | .divisionByZero => "DivisionByZero"
  | .invalidJumpTarget _ => "InvalidJumpTarget"
  | .invalidCharacter _ => "InvalidCharacter"
  | .invalidInput _ => "InvalidInput"
  | .endOfInput => "EndOfInput"
  | .stream _ => "Io"

def message : Fault → String
  | .outOfBounds label index length =>
      "out-of-bounds access: " ++ label ++ "[" ++ Text.decimal index ++ "] (length " ++
        length.repr ++ ")"
  | .unknownStorage label => "no storage named `" ++ label ++ "`"
  | .referenceNotInteger register =>
      "register " ++ register.name ++ " holds a reference where an integer is required"
  | .notReference register => "register " ++ register.name ++ " does not hold a reference"
  | .divisionByZero => "division by zero"
  | .invalidJumpTarget address => "invalid return address " ++ Word.text address
  | .invalidCharacter code => "invalid character code " ++ Word.text code
  | .invalidInput token => "input `" ++ token ++ "` is not an integer"
  | .endOfInput => "unexpected end of input"
  | .stream failure => "I/O error: " ++ failure.message

def diagnostic (f : Fault) : String :=
  match f with
  | .outOfBounds label index length =>
      Text.record f.kind
        [("label", Text.quote label), ("index", Text.decimal index), ("length", length.repr)]
  | .unknownStorage label => Text.tuple f.kind [Text.quote label]
  | .referenceNotInteger register | .notReference register =>
      Text.tuple f.kind [Text.quote register.name]
  | .divisionByZero | .endOfInput => f.kind
  | .invalidJumpTarget value | .invalidCharacter value => Text.tuple f.kind [Word.text value]
  | .invalidInput token => Text.tuple f.kind [Text.quote token]
  | .stream failure => Text.tuple f.kind [failure.diagnostic]

end Fault

/-- Why a line stops the program: quietly, or with a fault. -/
inductive Stop where
  | halt (reason : Defect)
  | fault (fault : Fault)
deriving DecidableEq

/-- A halt is one way to stop. -/
instance : MonadLift (Except Defect) (Except Stop) where
  monadLift x := x.mapError .halt

/-- A fault is one way to stop. -/
instance : MonadLift (Except Fault) (Except Stop) where
  monadLift x := x.mapError .fault

end MipsText
