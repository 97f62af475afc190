import TapeCompiler.Cli.Arguments
import TapeCompiler.Machine.Run
import TapeCompiler.Workspace.Build

/-!
# The command

One call of the command line: from arguments, files and standard input to an
exit status, the text on the two output channels, and the files afterwards.
-/

namespace TapeCompiler
namespace Cli

open Workspace

/-- What a call leaves behind, apart from files. -/
structure Report where
  status : Nat
  stdout : String := ""
  stderr : String := ""
deriving DecidableEq, Repr

/-- Why a call that was understood did not succeed. -/
inductive CommandError where
  /-- Work on files failed. -/
  | work (failure : Failure)
  /-- There is no tape of the chosen size. -/
  | noTape (error : Machine.TapeSizeError)
  /-- The tape size was given without a value. -/
  | noTapeSize
  /-- The program that was run met a fault. -/
  | fault (fault : Machine.Fault)
deriving DecidableEq, Repr

namespace CommandError

/-- The error in words. -/
def message : CommandError → String
  | work failure => failure.message
  | noTape error => error.message
  | noTapeSize => "\x27<=\x27 not supported between instances of \x27list\x27 and \x27int\x27"
  | fault cause => cause.message

/-- The line that is printed for an error.  Refused brackets are told apart. -/
def report : CommandError → String
  | work (.compile (.refused diagnostic)) => s!"Syntax error: {diagnostic.message}\n"
  | error => s!"Error: {error.message}\n"

end CommandError

/-- The options of a build, for a tape size. -/
def Choices.options (choices : Choices) (tapeSize : Int) : BuildOptions :=
  { strict := choices.strict
    tapeSize
    assembler := choices.assembler
    keepAssembly := choices.keepAssembly }

/-- The text of written code points. -/
def outputText (codePoints : Array Nat) : String :=
  String.ofList (codePoints.toList.map Char.ofNat)

/-- Runs a compiled program on an input and gives its output. -/
def simulate (body : String) (tapeSize : Int) (input : String) : Except CommandError String :=
  match Machine.State.new tapeSize with
  | .error error => .error (.noTape error)
  | .ok state =>
      let outcome := state.run Machine.defaultStepLimit body input
      match outcome.fault with
      | some (cause, _) => .error (.fault cause)
      | none => .ok (outputText outcome.state.output)

/-- Does what a command line asks for, with a tape size, and gives the text to
print. -/
def perform (source : Path) (choices : Choices) (tapeSize : Int) (input : String) :
    StateM Workbench (Except CommandError String) := do
  let options := choices.options tapeSize
  if choices.emit then
    match ← (compileFile source options.toOptions defaultEncoding).run with
    | .ok compilation => return .ok compilation.assembly
    | .error failure => return .error (.work failure)
  else if choices.run then
    match ← (compileFile source options.toOptions defaultEncoding).run with
    | .ok compilation => return simulate compilation.body tapeSize input
    | .error failure => return .error (.work failure)
  else
    match ← (buildExecutable source options).run with
    | .ok _ => return .ok "Done\n"
    | .error failure => return .error (.work failure)

/-- What comes of a command line whose tape size has no value: the source is
compiled, and then the size is missed. -/
def performWithoutSize (source : Path) (choices : Choices) :
    StateM Workbench (Except CommandError String) := do
  let options := choices.options Assembly.defaultTapeSize
  match ← (compileFile source options.toOptions defaultEncoding).run with
  | .ok _ => return .error .noTapeSize
  | .error failure => return .error (.work failure)

/-- The line printed before a build. -/
def banner : String := "Brainfuck compiler\n"

/-- The log as it is shown. -/
def logText (log : List LogRecord) : String :=
  String.join (log.map fun entry => entry.text ++ "\n")

/-- Carries a command line out. -/
def carryOut (arguments : Arguments) (input : String) : StateM Workbench Report := do
  modify fun bench => { bench with log := [] }
  let choices := arguments.choices
  let source := Path.ofString arguments.source
  let result ←
    match choices.tapeSize with
    | some size => perform source choices size input
    | none => performWithoutSize source choices
  let opening := if choices.emit || choices.run then "" else banner
  let log := (← get).log
  let stderr := if choices.verbose then logText log else ""
  match result with
  | .ok text => return { status := 0, stdout := opening ++ text, stderr }
  | .error error => return { status := 1, stdout := opening ++ error.report, stderr }

/-- One call of the command line. -/
def command (arguments : List String) (input : String) : StateM Workbench Report :=
  match Arguments.read arguments with
  | .error .help => return { status := 0, stdout := helpText }
  | .error (.wrong error) => return { status := 2, stderr := error.report }
  | .ok understood => carryOut understood input

end Cli
end TapeCompiler
