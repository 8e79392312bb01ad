/-
# `MipsText.Main` — the command line

    [--debug] [--coerce-references] [--log LEVEL] FILE

runs the program in FILE, or steps through it with `--debug`.  All decisions are
those of `MipsText.Session`; here its ticks are given the lines of standard input
as they are needed, and what it writes is passed on at once.
-/
import MipsText.Session

namespace MipsText

/-- What the command line asks for. -/
structure Options where
  frontEnd : FrontEnd := .interpreter
  policy : ReferencePolicy := .strict
  verbosity : Log.Verbosity := .usual
  path : Option String := none

/-- Reads the arguments; exactly one of them names a file. -/
def Options.ofArguments (o : Options) : List String → Option Options
  | [] => if o.path.isSome then some o else none
  | "--debug" :: rest => { o with frontEnd := .debugger }.ofArguments rest
  | "--coerce-references" :: rest => { o with policy := .zero }.ofArguments rest
  | "--log" :: level :: rest =>
      match Log.Verbosity.ofName? level with
      | some verbosity => { o with verbosity := verbosity }.ofArguments rest
      | none => none
  | path :: rest => if o.path.isSome then none else { o with path := some path }.ofArguments rest

/-- What the operating system says about a file, as a failure of its stream. -/
def StreamFailure.ofError : IO.Error → StreamFailure
  | .noFileOrDirectory .. => .noSuchFile
  | .inappropriateType _ code _ => if code = 21 then .isADirectory else .notADirectory
  | _ => .sourceFailed

/-- Opens a file; a directory opens, but cannot be read. -/
def openFile (path : String) : IO (Except StreamFailure Stream) := do
  try
    let contents ← IO.FS.readBinFile path
    return .ok { bytes := contents.data.toList }
  catch e =>
    match StreamFailure.ofError e with
    | .isADirectory => return .ok { bytes := [], failure := some .isADirectory }
    | failure => return .error failure

/-- The next line of a stream, or nothing at its end. -/
partial def nextLine (input : IO.FS.Stream) (line : ByteArray) : IO ByteArray := do
  let byte ← input.read 1
  if byte.isEmpty then return line
  let line := line ++ byte
  if byte.data.any Stream.isLineFeed then return line else nextLine input line

def deliver (s : Session) : IO Unit := do
  unless s.outputText.isEmpty do
    let output ← IO.getStdout
    output.putStr s.outputText
    output.flush
  unless s.transcript.text.isEmpty do
    let errors ← IO.getStderr
    errors.putStr s.transcript.text
    errors.flush

/-- Ticks until the session has ended.  A tick that lacks input is taken back and
repeated once there is another line. -/
partial def converse (input : IO.FS.Stream) (s : Session) : IO Nat := do
  let next := s.tick
  if next.starved then
    let line ← nextLine input .empty
    unless line.isEmpty do
      return ← converse input (s.feed line.data.toList)
  deliver next
  match next.code? with
  | some code => return code
  | none => converse input next.delivered

def runFile (o : Options) (path : String) : IO Nat := do
  let contents ← openFile path
  let s := Session.start o.frontEnd o.verbosity o.policy path contents { bytes := [] }
  match s.code? with
  | some code =>
      deliver s
      return code
  | none =>
      let input ← IO.getStdin
      converse input s

end MipsText

open MipsText in
def main (arguments : List String) : IO UInt32 := do
  let options := Options.ofArguments {} arguments
  match options, options.bind Options.path with
  | some o, some path => return (← runFile o path).toUInt32
  | _, _ =>
      IO.eprintln "usage: [--debug] [--coerce-references] [--log LEVEL] FILE"
      return 2
