/-
# `MipsText.Source.Literal` — string literals

A string literal stands between double quotes.  Its end is the first quote that
no backslash escapes; what follows it is ignored.  Between the quotes, a backslash
and one of `n r t 0 \ ' "` stand for one character, and any other escape is an
error.
-/
import MipsText.Text.Blank

namespace MipsText.Source

/-- What can be wrong with the escapes of a text. -/
inductive EscapeError where
  | trailingBackslash
  | unknownEscape (c : Char)
deriving DecidableEq

def EscapeError.message : EscapeError → String
  | .trailingBackslash => "trailing backslash"
  | .unknownEscape c => "unknown escape `\\" ++ c.toString ++ "`"

/-- The character that a backslash and `c` stand for. -/
def escape? : Char → Option Char
  | 'n' => some '\n'
  | 'r' => some '\r'
  | 't' => some '\t'
  | '0' => some '\x00'
  | '\\' => some '\\'
  | '\'' => some '\''
  | '"' => some '"'
  | _ => none

def unescape : List Char → Except EscapeError (List Char)
  | [] => .ok []
  | ['\\'] => .error .trailingBackslash
  | '\\' :: c :: cs =>
      match escape? c with
      | some d => (unescape cs).map (d :: ·)
      | none => .error (.unknownEscape c)
  | c :: cs => (unescape cs).map (c :: ·)

/-- What can be wrong with a literal. -/
inductive LiteralError where
  | notQuoted
  | unterminated
  | escape (e : EscapeError)
deriving DecidableEq

def LiteralError.message : LiteralError → String
  | .notQuoted => "expected a quoted string"
  | .unterminated => "unterminated string"
  | .escape e => e.message

/-- What stands before the first quote that is not escaped. -/
def beforeQuote? (escaped : Bool) : List Char → Option (List Char)
  | [] => none
  | c :: cs =>
      if c = '"' ∧ escaped = false then some []
      else (beforeQuote? (c = '\\' && !escaped) cs).map (c :: ·)

def literal (cs : List Char) : Except LiteralError String :=
  match Text.trim cs with
  | '"' :: body =>
      match beforeQuote? false body with
      | none => .error .unterminated
      | some inner =>
          match unescape inner with
          | .ok text => .ok (String.ofList text)
          | .error e => .error (.escape e)
  | _ => .error .notQuoted

end MipsText.Source
