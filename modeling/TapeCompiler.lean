import TapeCompiler.Assembly.Block
import TapeCompiler.Assembly.Frame
import TapeCompiler.Assembly.Line
import TapeCompiler.Assembly.Listing
import TapeCompiler.Assembly.Name
import TapeCompiler.Cli.Arguments
import TapeCompiler.Cli.Command
import TapeCompiler.Cli.Setting
import TapeCompiler.Cli.Usage
import TapeCompiler.Compiler.Compilation
import TapeCompiler.Compiler.Error
import TapeCompiler.Compiler.Generator
import TapeCompiler.Compiler.Session
import TapeCompiler.Machine.Fault
import TapeCompiler.Machine.Operation
import TapeCompiler.Machine.Procedure
import TapeCompiler.Machine.Run
import TapeCompiler.Machine.State
import TapeCompiler.Machine.Tape
import TapeCompiler.Machine.Value
import TapeCompiler.Main
import TapeCompiler.Numeral.Literal
import TapeCompiler.Numeral.Word
import TapeCompiler.Proofs.Acceptance
import TapeCompiler.Proofs.Ascii
import TapeCompiler.Proofs.Assembling
import TapeCompiler.Proofs.BigStep
import TapeCompiler.Proofs.Blocks
import TapeCompiler.Proofs.Bounds
import TapeCompiler.Proofs.Building
import TapeCompiler.Proofs.Bytes
import TapeCompiler.Proofs.Concatenation
import TapeCompiler.Proofs.Cost
import TapeCompiler.Proofs.Culprits
import TapeCompiler.Proofs.Cutoff
import TapeCompiler.Proofs.Effects
import TapeCompiler.Proofs.Encodings
import TapeCompiler.Proofs.Excerpts
import TapeCompiler.Proofs.Execution
import TapeCompiler.Proofs.Frames
import TapeCompiler.Proofs.Framing
import TapeCompiler.Proofs.Fusion
import TapeCompiler.Proofs.Generation
import TapeCompiler.Proofs.Grid
import TapeCompiler.Proofs.History
import TapeCompiler.Proofs.Joining
import TapeCompiler.Proofs.Labels
import TapeCompiler.Proofs.Launching
import TapeCompiler.Proofs.Layout
import TapeCompiler.Proofs.Lines
import TapeCompiler.Proofs.Literals
import TapeCompiler.Proofs.Locations
import TapeCompiler.Proofs.MaximalRuns
import TapeCompiler.Proofs.Nesting
import TapeCompiler.Proofs.Outline
import TapeCompiler.Proofs.Positions
import TapeCompiler.Proofs.Printing
import TapeCompiler.Proofs.Progress
import TapeCompiler.Proofs.Quoting
import TapeCompiler.Proofs.Reading
import TapeCompiler.Proofs.Recovery
import TapeCompiler.Proofs.Reference
import TapeCompiler.Proofs.Resources
import TapeCompiler.Proofs.RunMode
import TapeCompiler.Proofs.Safety
import TapeCompiler.Proofs.Seam
import TapeCompiler.Proofs.Segments
import TapeCompiler.Proofs.Simulation
import TapeCompiler.Proofs.Tasks
import TapeCompiler.Proofs.Transitions
import TapeCompiler.Proofs.Verifier
import TapeCompiler.Proofs.Wiring
import TapeCompiler.Source.Brackets
import TapeCompiler.Source.Command
import TapeCompiler.Source.Diagnostic
import TapeCompiler.Source.Excerpt
import TapeCompiler.Source.Position
import TapeCompiler.Source.Run
import TapeCompiler.Table
import TapeCompiler.Text.Blank
import TapeCompiler.Text.Digit
import TapeCompiler.Text.Encoding
import TapeCompiler.Text.Printable
import TapeCompiler.Text.Quoted
import TapeCompiler.Text.Split
import TapeCompiler.Text.Utf8
import TapeCompiler.Workspace.Assemble
import TapeCompiler.Workspace.Build
import TapeCompiler.Workspace.Failure
import TapeCompiler.Workspace.Interpreter
import TapeCompiler.Workspace.Launch
import TapeCompiler.Workspace.Path
import TapeCompiler.Workspace.Store
import TapeCompiler.Workspace.SystemError
import TapeCompiler.Workspace.Task
