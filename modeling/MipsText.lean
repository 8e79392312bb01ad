import MipsText.Cell
import MipsText.Console.Input
import MipsText.Console.Output
import MipsText.Debugger
import MipsText.Failure.Defect
import MipsText.Failure.Fault
import MipsText.Failure.Stream
import MipsText.Instruction.Intent
import MipsText.Instruction.Mnemonic
import MipsText.Instruction.Operands
import MipsText.Instruction.Statement
import MipsText.Instruction.Token
import MipsText.Log
import MipsText.Machine.Basic
import MipsText.Machine.Execute
import MipsText.Machine.Execution
import MipsText.Machine.Event
import MipsText.Machine.Run
import MipsText.Machine.Service
import MipsText.Machine.Step
import MipsText.Main
import MipsText.Program
import MipsText.Register
import MipsText.RegisterFile
import MipsText.Session
import MipsText.Source.Directive
import MipsText.Source.Line
import MipsText.Source.Literal
import MipsText.Source.Notice
import MipsText.Stream
import MipsText.Symbols
import MipsText.Text.Blank
import MipsText.Text.Column
import MipsText.Text.Numeral
import MipsText.Text.Printable
import MipsText.Text.Quoted
import MipsText.Text.Split
import MipsText.Transcript
import MipsText.Word
import MipsText.Proofs.Checked
import MipsText.Proofs.Instruction.Resolution
import MipsText.Proofs.Instruction.Spelling
import MipsText.Proofs.Relaxation
import MipsText.Proofs.Instruction.Comparison
import MipsText.Proofs.Machine.Action
import MipsText.Proofs.Machine.Change
import MipsText.Proofs.Machine.Execution
import MipsText.Proofs.Machine.Transition
import MipsText.Proofs.Machine.Atomicity
import MipsText.Proofs.Symbols
import MipsText.Proofs.Text.Splitting
import MipsText.Proofs.Source.Assembling
import MipsText.Proofs.Source.Alignment
import MipsText.Proofs.Source.Data
import MipsText.Proofs.Machine.Control
import MipsText.Proofs.Machine.Policy
import MipsText.Proofs.Debugger
import MipsText.Proofs.Source.Literal
import MipsText.Proofs.Machine.Destination
import MipsText.Proofs.Machine.Footprint
import MipsText.Proofs.Machine.Provenance
import MipsText.Proofs.Machine.Calling
import MipsText.Proofs.Machine.Storage
import MipsText.Proofs.Source.Encoding
import MipsText.Proofs.Source.Transparency
import MipsText.Proofs.Machine.Layout
import MipsText.Proofs.Machine.Forward
import MipsText.Proofs.Machine.Insertion
import MipsText.Proofs.Machine.Locality
import MipsText.Proofs.Machine.Safety
import MipsText.Proofs.Arrays
import MipsText.Proofs.Machine.Straight
import MipsText.Proofs.Machine.Arithmetic
import MipsText.Proofs.Machine.Division
import MipsText.Proofs.Session
import MipsText.Proofs.Console.Buffering
import MipsText.Proofs.Machine.Branching
import MipsText.Proofs.Machine.Frame
import MipsText.Proofs.Machine.Reading
import MipsText.Proofs.Text.Immediate
import MipsText.Proofs.Machine.Access
import MipsText.Proofs.Machine.Unresolved
import MipsText.Proofs.Source.Loss
import MipsText.Proofs.Instruction.Naming
import MipsText.Proofs.Instruction.Location
import MipsText.Proofs.Machine.Constants
import MipsText.Proofs.Machine.WordArrays
import MipsText.Proofs.Machine.Execution
