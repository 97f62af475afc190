import TapeCompiler.Assembly.Block
import TapeCompiler.Compiler.Error
import TapeCompiler.Source.Run

/-!
# The code generator

A generator collects blocks of instruction text.  Loops are numbered in the
order in which they are opened, and a number is not used again when its loop
is closed.  Moves and cell changes take a whole run of commands as one block;
the other commands have one block for each occurrence.
-/

namespace TapeCompiler
namespace Compiler

open Assembly Source

/-- The state of code generation. -/
structure Generator where
  program : String
  /-- The blocks emitted so far. -/
  blocks : Array String := #[]
  /-- The numbers of the open loops, innermost first. -/
  openLoops : List Nat := []
  /-- How many loop numbers have been given out. -/
  loopCount : Nat := 0
deriving DecidableEq, Repr

namespace Generator

/-- The instruction body: all blocks in order. -/
def body (generator : Generator) : String :=
  String.join generator.blocks.toList

/-- A generator with nothing emitted and all loop numbers free. -/
def reset (generator : Generator) : Generator :=
  { program := generator.program }

/-- Emits a block of text lines. -/
def emit (generator : Generator) (lines : List String) : Generator :=
  { generator with blocks := generator.blocks.push (blockText lines) }

/-- A block goes to the end of the body. -/
theorem body_emit (generator : Generator) (lines : List String) :
    (generator.emit lines).body = generator.body ++ blockText lines := by
  simp [body, emit, String.join_append]

/-- Emits a block of instructions. -/
def emitLines (generator : Generator) (lines : List Line) : Generator :=
  generator.emit (lines.map Line.render)

/-- Gives out the next loop number without opening the loop. -/
def nextLoop (generator : Generator) : Nat × Generator :=
  (generator.loopCount, { generator with loopCount := generator.loopCount + 1 })

/-- Moves the cursor by any number of cells. -/
def move (generator : Generator) (direction : Direction) (count : Int) : Generator :=
  generator.emitLines (moveBlock generator.program direction count)

/-- Changes the cell under the cursor by any number. -/
def change (generator : Generator) (direction : Direction) (count : Int) : Generator :=
  generator.emitLines (changeBlock generator.program direction count)

/-- Writes the cell under the cursor. -/
def write (generator : Generator) : Generator :=
  generator.emitLines (writeBlock generator.program)

/-- Reads a character into the cell under the cursor. -/
def read (generator : Generator) : Generator :=
  generator.emitLines (readBlock generator.program)

/-- Opens a loop. -/
def openLoop (generator : Generator) : Generator :=
  let (number, generator) := generator.nextLoop
  { generator with openLoops := number :: generator.openLoops }.emitLines
    (loopStartBlock generator.program number)

/-- Closes the innermost open loop. -/
def closeLoop (generator : Generator) : Except CompileError Generator :=
  match generator.openLoops with
  | [] => .error .noOpenLoop
  | number :: outer =>
      .ok ({ generator with openLoops := outer }.emitLines (loopEndBlock number))

/-- Closes a number of loops. -/
def closeLoops (generator : Generator) : Nat → Except CompileError Generator
  | 0 => .ok generator
  | count + 1 => do (← generator.closeLoop).closeLoops count

/-- Emits the code of a run. -/
def emitRun (generator : Generator) (run : Run) : Except CompileError Generator :=
  match run.command with
  | .right => .ok (generator.move .up run.count)
  | .left => .ok (generator.move .down run.count)
  | .increment => .ok (generator.change .up run.count)
  | .decrement => .ok (generator.change .down run.count)
  | .write => .ok (run.count.repeat write generator)
  | .read => .ok (run.count.repeat read generator)
  | .loopStart => .ok (run.count.repeat openLoop generator)
  | .loopEnd => generator.closeLoops run.count

/-- Emits the code of runs in order. -/
def emitRuns (generator : Generator) (runs : List Run) : Except CompileError Generator :=
  runs.foldlM emitRun generator

end Generator
end Compiler
end TapeCompiler
