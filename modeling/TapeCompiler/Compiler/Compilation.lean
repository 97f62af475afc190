import TapeCompiler.Compiler.Session

/-!
# Compiling a source text

From a source text and options to a complete assembly program in one call.
-/

namespace TapeCompiler
namespace Compiler

open Assembly Source

/-- The choices that a compile depends on. -/
structure Options where
  /-- The program's name; the caller's choice of a default when absent. -/
  program : Option String := none
  strict : Bool := false
  tapeSize : Int := defaultTapeSize
deriving DecidableEq, Repr

/-- The name of the compiled program: an empty name counts as none. -/
def Options.programName (options : Options) : String :=
  match options.program with
  | none => defaultName
  | some name => if name = "" then defaultName else name

/-- A compiled source. -/
structure Compilation where
  assembly : String
  body : String
  program : String
  runs : List Run
  loopCount : Nat
deriving DecidableEq, Repr

/-- Compiles a source text; the progress is reported also when it fails. -/
def compileSource (options : Options) (source : String) :
    Except CompileError Compilation × List Progress :=
  let program := options.programName
  let done := (Session.new program options.strict options.tapeSize).compile source
  let result := do
    let body ← done.result
    let assembly ← done.session.assembly
    return {
      assembly
      body
      program
      runs := done.session.runs
      loopCount := done.session.generator.loopCount }
  (result, done.progress)

end Compiler
end TapeCompiler
