import TapeCompiler.Assembly.Line
import TapeCompiler.Assembly.Name

/-!
# Instruction blocks of the commands

Each command has a fixed block of instructions over two static fields of the
program: `Memory`, the tape, and `Counter`, the cursor.  The number in a move
or a cell change is written as it is; it may be any integer.  A loop is a pair
of labels made from its number.
-/

namespace TapeCompiler
namespace Assembly

/-- The name of the loop with the given number. -/
def loopName (number : Nat) : String :=
  s!"Branch{number}"

/-- The label at the start of a loop. -/
def startLabel (number : Nat) : String :=
  "BranchStart" ++ loopName number

/-- The label behind the end of a loop. -/
def endLabel (number : Nat) : String :=
  "BranchEnd" ++ loopName number

/-- The reference to the tape of a program. -/
def memoryField (program : String) : String :=
  s!"uint8[] {quoteName program}.Program::Memory"

/-- The reference to the cursor of a program. -/
def counterField (program : String) : String :=
  s!"int32 {quoteName program}.Program::Counter"

/-- Whether a number is added or taken away. -/
inductive Direction where
  | up
  | down
deriving DecidableEq, Repr

/-- The opcode of an addition or a subtraction. -/
def Direction.opcode : Direction → String
  | .up => "add"
  | .down => "sub"

/-- Pushes the tape and the cursor. -/
def loadCell (program : String) : List Line :=
  [.aligned "ldsfld" (memoryField program), .aligned "ldsfld" (counterField program)]

/-- Moves the cursor by a number of cells. -/
def moveBlock (program : String) (direction : Direction) (count : Int) : List Line :=
  [.aligned "ldsfld" (counterField program),
    .close "ldc.i4" (toString count),
    .bare direction.opcode,
    .close "stsfld" (counterField program)]

/-- Changes the cell under the cursor by a number. -/
def changeBlock (program : String) (direction : Direction) (count : Int) : List Line :=
  loadCell program ++
    [.aligned "ldelema" "[mscorlib]System.Byte",
      .bare "dup",
      .bare "ldind.u1",
      .close "ldc.i4" (toString count),
      .bare direction.opcode,
      .bare "conv.u1",
      .bare "stind.i1"]

/-- Brings the cell under the cursor to the top of the stack by way of the
scratch variable. -/
def fetchCell (program : String) : List Line :=
  loadCell program ++ [.bare "ldelem.u1", .bare "stloc.0", .bare "ldloc.0"]

/-- Writes the cell under the cursor. -/
def writeBlock (program : String) : List Line :=
  fetchCell program ++ [.aligned "call" "void [mscorlib]System.Console::Write(char)"]

/-- Reads a character into the cell under the cursor. -/
def readBlock (program : String) : List Line :=
  [.aligned "call" "int32 [mscorlib]System.Console::Read()", .bare "stloc.0"] ++
    loadCell program ++ [.bare "ldloc.0", .bare "conv.u1", .bare "stelem.i1"]

/-- Enters a loop, or leaves it when the cell under the cursor is zero. -/
def loopStartBlock (program : String) (number : Nat) : List Line :=
  .marked (startLabel number) "nop" ::
    fetchCell program ++ [.close "brfalse" (endLabel number)]

/-- Goes back to the start of a loop. -/
def loopEndBlock (number : Nat) : List Line :=
  [.close "br" (startLabel number), .marked (endLabel number) "nop"]

end Assembly
end TapeCompiler
