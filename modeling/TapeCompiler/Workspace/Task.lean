import TapeCompiler.Compiler.Session
import TapeCompiler.Workspace.Failure
import TapeCompiler.Workspace.Launch

/-!
# Tasks

A task works on files.  It may fail, and what it has done to the files before
stays done.  On its way it writes a log.
-/

namespace TapeCompiler
namespace Workspace

/-- A record of the log. -/
inductive LogRecord where
  /-- Progress of a compile. -/
  | compiler (progress : Compiler.Progress)
  /-- A command is being run. -/
  | running (command : List String)
  /-- What the assembler wrote to its regular output. -/
  | assemblerOutput (text : String)
deriving DecidableEq, Repr

/-- The text of a log record, which names the part that it comes from. -/
def LogRecord.text : LogRecord → String
  | .compiler (.scanned program runs) => s!"bfcil.compiler: {program}: {runs} tokens"
  | .compiler (.generated program loops) =>
      s!"bfcil.compiler: {program}: {loops} loops emitted"
  | .running command => "bfcil.toolchain: Running " ++ " ".intercalate command
  | .assemblerOutput text => s!"bfcil.toolchain: ilasm output:\n{text}"

/-- What a task works on. -/
structure Workbench where
  store : Store := {}
  environment : Environment := {}
  log : List LogRecord := []
deriving DecidableEq, Repr

/-- A task with a result. -/
abbrev Task := ExceptT Failure (StateM Workbench)

namespace Task

/-- Adds records to the log. -/
def record (records : List LogRecord) : Task Unit :=
  modify fun bench => { bench with log := bench.log ++ records }

/-- Replaces the store. -/
def setStore (store : Store) : Task Unit :=
  modify fun bench => { bench with store }

/-- Asks the store about a path. -/
def ask (path : String) (question : Store → Except SystemError α) : Task α := do
  match question (← get).store with
  | .ok answer => return answer
  | .error error => throw (.system error path)

/-- Refuses a path that cannot be passed to the operating system. -/
def requireNamable (path : String) : Task Unit :=
  if Store.isNamable path then return else throw .nulInPath

/-- Carries a task out and gives its outcome, success or failure, as the
result. -/
def attempt (task : Task α) : Task (Except Failure α) :=
  ExceptT.mk do return .ok (← task.run)

/-- The result of an outcome. -/
def conclude (outcome : Except Failure α) : Task α :=
  ExceptT.mk (pure outcome)

end Task
end Workspace
end TapeCompiler
