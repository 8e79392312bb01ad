/-
# `MipsText.Text.Quoted` — texts inside a diagnostic

A text inside a diagnostic stands between double quotes.  Quotes, backslashes
and the usual controls are written with a backslash, every other character that
cannot be shown by its code point, as in `\u{200b}`.
-/
import MipsText.Text.Numeral
import MipsText.Text.Printable

namespace MipsText.Text

def quoteChar (c : Char) : String :=
  match c with
  | '"' => "\\\""
  | '\\' => "\\\\"
  | '\t' => "\\t"
  | '\r' => "\\r"
  | '\n' => "\\n"
  | '\x00' => "\\0"
  | c => if isPrintable c then c.toString else "\\u\x7b" ++ hexadecimal c.toNat ++ "\x7d"

def quote (s : String) : String :=
  "\"" ++ String.join (s.toList.map quoteChar) ++ "\""

/-- A diagnostic with unnamed parts: `Name(a, b)`, or just `Name` without any. -/
def tuple (name : String) (parts : List String) : String :=
  if parts.isEmpty then name else name ++ "(" ++ ", ".intercalate parts ++ ")"

/-- A diagnostic with named parts: `Name { a: 1, b: 2 }`. -/
def record (name : String) (fields : List (String × String)) : String :=
  let shown := fields.map fun (key, value) => key ++ ": " ++ value
  name ++ " \x7b " ++ ", ".intercalate shown ++ " \x7d"

end MipsText.Text
