import TapeCompiler.Assembly.Block
import TapeCompiler.Source.Diagnostic

/-!
# Compile errors
-/

namespace TapeCompiler
namespace Compiler

open Assembly Source

/-- Why a program was not compiled. -/
inductive CompileError where
  /-- The bracket check refused the source. -/
  | refused (diagnostic : Diagnostic)
  /-- A loop end was to be generated with no loop open. -/
  | noOpenLoop
  /-- Loops, outermost first, that were still open when all code was generated. -/
  | loopsLeftOpen (numbers : List Nat)
  /-- A program was asked for and none has been compiled. -/
  | nothingCompiled
  /-- The tape would hold no cell. -/
  | tapeSizeNotPositive (size : Int)
deriving DecidableEq, Repr

/-- The report on a compile error. -/
def CompileError.message : CompileError → String
  | .refused diagnostic => diagnostic.message
  | .noOpenLoop => "Loop end without an open loop (label stack is empty)."
  | .loopsLeftOpen numbers =>
      "Loops left open after generation: " ++ ", ".intercalate (numbers.map loopName)
  | .nothingCompiled => "No successfully compiled program to wrap; call compile() first."
  | .tapeSizeNotPositive size => s!"memory_size must be positive, got {size}"

end Compiler
end TapeCompiler
