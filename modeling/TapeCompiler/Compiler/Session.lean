import TapeCompiler.Assembly.Frame
import TapeCompiler.Compiler.Generator

/-!
# Compiler sessions

One compiler, used for any number of sources in turn.  A session remembers the
code of the last source, so that the program around it can be asked for
afterwards.  A compile starts from nothing and, when it fails, leaves nothing
behind.
-/

namespace TapeCompiler
namespace Compiler

open Assembly Source

/-- A compiler with its settings and what it holds of the last source. -/
structure Session where
  generator : Generator
  strict : Bool := false
  tapeSize : Int := defaultTapeSize
  /-- The runs of the last source. -/
  runs : List Run := []
  /-- Whether the last compile succeeded. -/
  compiled : Bool := false
deriving DecidableEq, Repr

/-- What a compile has to say about its progress. -/
inductive Progress where
  /-- The source has been split into runs. -/
  | scanned (program : String) (runs : Nat)
  /-- All code has been generated. -/
  | generated (program : String) (loops : Nat)
deriving DecidableEq, Repr

/-- Checks and scans a source. -/
def scan (strict : Bool) (source : String) : Except CompileError (List Run) :=
  match checkBrackets strict source.toList with
  | .error fault => .error (.refused (fault.diagnostic source.toList))
  | .ok () => .ok (runs source.toList)

/-- The outcome of a compile: the session after it, the body or the error, and
the progress that was made. -/
structure Compiled where
  session : Session
  result : Except CompileError String
  progress : List Progress := []

namespace Session

/-- A new compiler. -/
def new (program : String) (strict : Bool) (tapeSize : Int) : Session :=
  { generator := { program }, strict, tapeSize }

/-- The session with its settings only. -/
def cleared (session : Session) : Session :=
  { session with generator := session.generator.reset, runs := [], compiled := false }

/-- Compiles a source. -/
def compile (session : Session) (source : String) : Compiled :=
  let fresh := session.cleared
  let program := session.generator.program
  match scan session.strict source with
  | .error error => { session := fresh, result := .error error }
  | .ok runs =>
      match fresh.generator.emitRuns runs with
      | .error error =>
          { session := fresh
            result := .error error
            progress := [.scanned program runs.length] }
      | .ok generator =>
          if generator.openLoops.isEmpty then
            { session := { fresh with generator, runs, compiled := true }
              result := .ok generator.body
              progress :=
                [.scanned program runs.length, .generated program generator.loopCount] }
          else
            { session := fresh
              result := .error (.loopsLeftOpen generator.openLoops.reverse)
              progress := [.scanned program runs.length] }

/-- The program around the code of the last source. -/
def assembly (session : Session) : Except CompileError String :=
  if session.compiled then
    match frame? session.generator.body session.generator.program session.tapeSize with
    | some text => .ok text
    | none => .error (.tapeSizeNotPositive session.tapeSize)
  else
    .error .nothingCompiled

end Session
end Compiler
end TapeCompiler
