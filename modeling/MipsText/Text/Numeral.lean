/-
# `MipsText.Text.Numeral` — reading and writing numbers

Three readers share one notion of digits:

  * `natural?` reads an unsigned numeral in a base up to sixteen;
  * `integer?` reads a signed decimal numeral that fits a 32-bit word;
  * `immediate?` reads what an instruction may carry: a signed decimal numeral,
    or a hexadecimal one after `0x`, whose bits are taken as they are.

`decimal` and `hexadecimal` write numbers back; a word is shown as a signed
decimal number.
-/
import MipsText.Word

namespace MipsText

namespace Text

/-- The value of a digit in the given base; letters of either case count from ten. -/
def digit? (base : Nat) (c : Char) : Option Nat :=
  let value :=
    if '0' ≤ c ∧ c ≤ '9' then some (c.toNat - '0'.toNat)
    else if 'a' ≤ c ∧ c ≤ 'f' then some (c.toNat - 'a'.toNat + 10)
    else if 'A' ≤ c ∧ c ≤ 'F' then some (c.toNat - 'A'.toNat + 10)
    else none
  value.filter (fun d => decide (d < base))

/-- The value of `cs` written after digits that are worth `n`. -/
def digitsFrom? (base : Nat) (n : Nat) : List Char → Option Nat
  | [] => some n
  | c :: cs => (digit? base c).bind fun d => digitsFrom? base (n * base + d) cs

def natural? (base : Nat) : List Char → Option Nat
  | [] => none
  | cs => digitsFrom? base 0 cs

def isDigit (c : Char) : Bool :=
  (digit? 10 c).isSome

/-- The value of one or more decimal digits, if it fits 64 bits. -/
def natural64? (cs : List Char) : Option Nat :=
  (natural? 10 cs).filter fun n => decide (n < 0x10000000000000000)

/-- Splits a leading sign off: is the number negative, and what is left? -/
def splitSign : List Char → Bool × List Char
  | '-' :: cs => (true, cs)
  | '+' :: cs => (false, cs)
  | cs => (false, cs)

def withSign (negative : Bool) (n : Nat) : Int :=
  if negative then -(n : Int) else n

/-- A signed integer as a word, if it fits. -/
def wordOfInt? (i : Int) : Option Word :=
  if -0x80000000 ≤ i ∧ i < 0x80000000 then some (BitVec.ofInt 32 i) else none

/-- Reads an optional sign and decimal digits whose value fits a word. -/
def integer? (cs : List Char) : Option Word :=
  let (negative, digits) := splitSign cs
  (natural? 10 digits).bind fun n => wordOfInt? (withSign negative n)

/-- The digits after a hexadecimal mark, if there is one. -/
def hexDigits? : List Char → Option (List Char)
  | '0' :: 'x' :: cs => some cs
  | '0' :: 'X' :: cs => some cs
  | _ => none

/-- Reads hexadecimal digits as the bits of a word. -/
def bits? (cs : List Char) : Option Word :=
  (natural? 16 cs).bind fun n => if n < 0x100000000 then some (BitVec.ofNat 32 n) else none

/-- Reads a signed decimal number, or the bits of a signed hexadecimal one. -/
def immediate? (cs : List Char) : Option Word :=
  let (negative, body) := splitSign cs
  match hexDigits? body with
  | some digits => (bits? digits).map fun w => if negative then -w else w
  | none => integer? cs

/-- The decimal digits of a number, after a minus sign if it is negative. -/
def decimal (i : Int) : String :=
  match i with
  | .ofNat n => n.repr
  | .negSucc n => "-" ++ (n + 1).repr

def hexadecimal (n : Nat) : String :=
  String.ofList (Nat.toDigits 16 n)

end Text

def Word.text (w : Word) : String :=
  Text.decimal w.toInt

end MipsText
