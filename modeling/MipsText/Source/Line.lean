/-
# `MipsText.Source.Line` — the shape of a source line

A source line loses its comment and the blanks around it.  What is left switches
the section, or carries a label, or is a plain statement.  `Line.residue` is what
remains of it to be executed.
-/
import MipsText.Text.Blank

namespace MipsText.Source

/-- The two sections of a source. -/
inductive Section where
  | data
  | text
deriving DecidableEq

/-! ## Comments -/

/-- Where a scan for comments stands relative to double quotes. -/
inductive Quoting where
  | outside
  | inside
  /-- Inside quotes, right after a backslash. -/
  | escaped
deriving DecidableEq

def Quoting.next : Quoting → Char → Quoting
  | .outside, c => if c = '"' then .inside else .outside
  | .inside, c => if c = '\\' then .escaped else if c = '"' then .outside else .inside
  | .escaped, _ => .inside

/-- Drops everything from the first `#` outside quotes. -/
def withoutCommentFrom (q : Quoting) : List Char → List Char
  | [] => []
  | c :: cs => if q = .outside ∧ c = '#' then [] else c :: withoutCommentFrom (q.next c) cs

def withoutComment (cs : List Char) : List Char :=
  withoutCommentFrom .outside cs

/-! ## Labels -/

def isLabelName (cs : List Char) : Bool :=
  !cs.isEmpty && !cs.any fun c => Text.isBlank c || c == '"'

/-- Splits `name: rest` at its first colon. -/
def labelled? (cs : List Char) : Option (List Char × List Char) :=
  match Text.cut? (· == ':') cs with
  | some (before, rest) =>
      let name := Text.trim before
      if isLabelName name then some (name, Text.trim rest) else none
  | none => none

/-! ## Lines -/

/-- A source line, without its comment. -/
inductive Line where
  /-- The start of a section. -/
  | enter (s : Section)
  /-- A statement with a label; the statement may be empty. -/
  | labelled (name rest : String)
  /-- A statement without a label; it may be empty. -/
  | plain (text : String)
deriving DecidableEq

namespace Line

/-- The shape of a line whose comment and outer blanks are gone. -/
def ofStripped (cs : List Char) : Line :=
  if Text.startsWith cs ".data" then .enter .data
  else if Text.startsWith cs ".text" then .enter .text
  else
    match labelled? cs with
    | some (name, rest) => .labelled (String.ofList name) (String.ofList rest)
    | none => .plain (String.ofList cs)

def ofText (text : String) : Line :=
  ofStripped (Text.trim (withoutComment (Text.trim text.toList)))

/-- A statement as it is executed: directives are not, save for `.syscall`. -/
def executable (statement : String) : String :=
  let cs := statement.toList
  if Text.startsWith cs "." && !Text.startsWith cs ".syscall" then "" else statement

/-- What remains of a line to be executed. -/
def residue : Line → String
  | .enter _ => ""
  | .labelled _ rest => executable rest
  | .plain text => executable text

end Line

end MipsText.Source
