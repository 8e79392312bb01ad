/-
# `MipsText.Source.Directive` — data directives

A labelled line of the data section defines data: `.asciiz` a string, `.space` a
number of zero bytes, `.word` a list of words.  A directive is taken as a whole or
not at all: one bad value spoils the line.
-/
import MipsText.Source.Literal
import MipsText.Symbols
import MipsText.Text.Numeral

namespace MipsText.Source

/-- Data for a label. -/
inductive Directive where
  | string (text : String)
  | space (bytes : Nat)
  | words (values : List Word)
deriving DecidableEq

/-- Why a directive defines no data. -/
inductive DirectiveError where
  | badString (e : LiteralError)
  | badSpace (size : String)
  | spaceTooLarge (bytes : Nat)
  | badWords
  | unsupported (text : String)
deriving DecidableEq

/-- The most bytes that one directive may reserve. -/
def spaceLimit : Nat := 16777216

/-- Reads a size in bytes: an optional plus sign, and digits whose value fits 64 bits. -/
def size? (cs : List Char) : Option Nat :=
  Text.natural64? <| match cs with
    | '+' :: rest => rest
    | _ => cs

def reservation (cs : List Char) : Except DirectiveError Directive :=
  let size := Text.trim cs
  match size? size with
  | some bytes => if bytes ≤ spaceLimit then .ok (.space bytes) else .error (.spaceTooLarge bytes)
  | none => .error (.badSpace (String.ofList size))

def wordList (cs : List Char) : Except DirectiveError Directive :=
  match (Text.pieces (· == ',') cs).mapM fun piece => Text.immediate? (Text.trim piece) with
  | some values => .ok (.words values)
  | none => .error .badWords

def Directive.ofChars (cs : List Char) : Except DirectiveError Directive :=
  match Text.after? cs ".asciiz" with
  | some rest =>
      match literal rest with
      | .ok text => .ok (.string text)
      | .error e => .error (.badString e)
  | none =>
      match Text.after? cs ".space" with
      | some rest => reservation rest
      | none =>
          match Text.after? cs ".word" with
          | some rest => wordList rest
          | none => .error (.unsupported (String.ofList cs))

def zeros (bytes : Nat) : Array Word :=
  Array.replicate ((bytes + 3) / 4) 0

/-- Adds the data of a directive to a label. -/
def Directive.define (symbols : Symbols) (name : String) : Directive → Symbols
  | .string text => symbols.setString name text
  | .space bytes => symbols.appendWords name (zeros bytes)
  | .words values => symbols.appendWords name values.toArray

end MipsText.Source
