/-
# `MipsText.Program` — assembling a source

A program keeps one line for every source line, so that line numbers mean the
same in both; lines that only define something are kept empty.  Assembling goes
through the source line by line and never stops at a bad line; only a source that
cannot be read at all has no program.
-/
import MipsText.Source.Line
import MipsText.Source.Notice
import MipsText.Stream

namespace MipsText

/-- An assembled source. -/
structure Program where
  /-- What is executed at each line. -/
  lines : Array String := #[]
  /-- The line that execution starts at. -/
  entry : Nat := 0
  symbols : Symbols := {}

/-- Why a source has no program. -/
inductive AssemblyError where
  | cannotOpen (path : String) (failure : StreamFailure)
  | cannotRead (line : Nat) (failure : StreamFailure)
deriving DecidableEq

namespace AssemblyError

def kind : AssemblyError → String
  | .cannotOpen .. => "Open"
  | .cannotRead .. => "Read"

def message : AssemblyError → String
  | .cannotOpen path failure => "couldn't read " ++ path ++ ": " ++ failure.message
  | .cannotRead line failure => "couldn't read line " ++ line.repr ++ ": " ++ failure.message

def diagnostic (e : AssemblyError) : String :=
  match e with
  | .cannotOpen path failure =>
      Text.record e.kind [("path", Text.quote path), ("source", failure.diagnostic)]
  | .cannotRead line failure =>
      Text.record e.kind [("line", line.repr), ("source", failure.diagnostic)]

end AssemblyError

/-- A source that is assembled up to some line. -/
structure Assembly where
  program : Program := {}
  /-- The section that the next line is in. -/
  within : Source.Section := .data
  notices : Array Source.Notice := #[]

namespace Assembly

open Source

def lineNumber (a : Assembly) : Nat :=
  a.program.lines.size

def keep (a : Assembly) (line : String) : Assembly :=
  { a with program := { a.program with lines := a.program.lines.push line } }

def note (a : Assembly) (n : Notice) : Assembly :=
  { a with notices := a.notices.push n }

def updateSymbols (a : Assembly) (f : Symbols → Symbols) : Assembly :=
  { a with program := { a.program with symbols := f a.program.symbols } }

/-- Starts a section at the current line; execution starts behind the last `.text`. -/
def enter (a : Assembly) : Section → Assembly
  | .data => { a with within := .data }
  | .text =>
      { a with within := .text, program := { a.program with entry := a.lineNumber + 1 } }

def addData (a : Assembly) (name rest : String) : Assembly :=
  if rest.isEmpty then a
  else
    match Directive.ofChars rest.toList with
    | .ok directive => a.updateSymbols fun symbols => directive.define symbols name
    | .error e => a.note (.badDirective a.lineNumber name e)

def defineLabel (a : Assembly) (name rest : String) : Assembly :=
  match a.within with
  | .text => a.updateSymbols fun symbols => symbols.setLine name a.lineNumber
  | .data => a.addData name rest

/-- What a line defines, apart from what it leaves to be executed. -/
def define (a : Assembly) : Line → Assembly
  | .enter s => a.enter s
  | .labelled name rest => a.defineLabel name rest
  | .plain _ => a

/-- Assembles one more line; `none` is a line that is not UTF-8. -/
def feed (a : Assembly) : Option String → Assembly
  | some text => (a.define (Line.ofText text)).keep (Line.ofText text).residue
  | none => (a.note (.undecodable a.lineNumber)).keep ""

def ofLines (lines : List (Option String)) : Assembly :=
  lines.foldl feed {}

end Assembly

namespace Program

/-- What is said of a finished program. -/
def summary (p : Program) : Source.Notice :=
  .assembled p.lines.size p.symbols.lines.size p.symbols.words.size p.symbols.strings.size

/-- Assembles a source, with what there is to say about it. -/
def assemble (source : Stream) : Except AssemblyError Program × List Source.Notice :=
  let a := Assembly.ofLines source.lines
  match source.failure with
  | some failure => (.error (.cannotRead a.lineNumber failure), a.notices.toList)
  | none => (.ok a.program, a.notices.toList ++ [a.program.summary])

/-- Assembles the contents of a file, if it could be opened. -/
def assembleFile (path : String) (contents : Except StreamFailure Stream) :
    Except AssemblyError Program × List Source.Notice :=
  match contents with
  | .ok source => assemble source
  | .error failure => (.error (.cannotOpen path failure), [])

end Program

end MipsText
