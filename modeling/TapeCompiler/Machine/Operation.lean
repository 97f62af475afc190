import TapeCompiler.Assembly.Listing
import TapeCompiler.Numeral.Literal
import TapeCompiler.Numeral.Word

/-!
# Operations

An instruction is text; an operation is what the machine makes of it, with
literals read and labels resolved.  Decoding never fails: an instruction that
the machine cannot execute decodes to an operation that faults when, and only
when, it is reached.
-/

namespace TapeCompiler
namespace Machine

open Assembly

/-- What an instruction means to the machine. -/
inductive Operation where
  /-- `nop` -/
  | skip
  /-- `ret` -/
  | halt
  /-- `ldsfld` of the tape -/
  | loadTape
  /-- `ldsfld` of the cursor -/
  | loadCounter
  /-- `stsfld` of the tape -/
  | storeTape
  /-- `stsfld` of the cursor -/
  | storeCounter
  /-- `ldsfld` or `stsfld` of anything else -/
  | accessField (operand : String)
  /-- `ldc.i4` -/
  | push (literal : Except Numeral.LiteralError Int)
  /-- `add` -/
  | add
  /-- `sub` -/
  | subtract
  /-- `conv.u1` -/
  | toByte
  /-- `dup` -/
  | duplicate
  /-- `ldelema` -/
  | loadAddress
  /-- `ldind.u1` -/
  | loadIndirect
  /-- `stind.i1` -/
  | storeIndirect
  /-- `ldelem.u1` -/
  | loadElement
  /-- `stelem.i1` -/
  | storeElement
  /-- `stloc.0` -/
  | storeScratch
  /-- `ldloc.0` -/
  | loadScratch
  /-- `call` of the character writer -/
  | writeChar
  /-- `call` of the character reader -/
  | readChar
  /-- `call` of anything else -/
  | callMethod (operand : String)
  /-- `brfalse` -/
  | jumpIfZero (label : String) (target : Option Nat)
  /-- `br` -/
  | jump (label : String) (target : Option Nat)
  /-- any other opcode -/
  | unknown (opcode : String)

/-- The fields that the machine has. -/
inductive Field where
  | tape
  | counter
deriving DecidableEq, Repr

/-- The field that an operand names, by its ending. -/
def Field.ofOperand? (operand : String) : Option Field :=
  if "::Memory".toList.isSuffixOf operand.toList then some .tape
  else if "::Counter".toList.isSuffixOf operand.toList then some .counter
  else none

namespace Operation

/-- The operation of a load from a field. -/
def loadField (operand : String) : Operation :=
  match Field.ofOperand? operand with
  | some .tape => loadTape
  | some .counter => loadCounter
  | none => accessField operand

/-- The operation of a store to a field. -/
def storeField (operand : String) : Operation :=
  match Field.ofOperand? operand with
  | some .tape => storeTape
  | some .counter => storeCounter
  | none => accessField operand

/-- The operation of a call, by the ending of its operand. -/
def call (operand : String) : Operation :=
  if "Console::Write(char)".toList.isSuffixOf operand.toList then writeChar
  else if "Console::Read()".toList.isSuffixOf operand.toList then readChar
  else callMethod operand

/-- The operation of an instruction among the labels of its listing. -/
def decode (labels : Labels) (instruction : Instruction) : Operation :=
  let operand := instruction.operand
  match instruction.opcode with
  | "nop" => skip
  | "ret" => halt
  | "ldsfld" => loadField operand
  | "stsfld" => storeField operand
  | "ldc.i4" => push ((Numeral.readLiteral .marked operand).map Numeral.wrap)
  | "add" => add
  | "sub" => subtract
  | "conv.u1" => toByte
  | "dup" => duplicate
  | "ldelema" => loadAddress
  | "ldind.u1" => loadIndirect
  | "stind.i1" => storeIndirect
  | "ldelem.u1" => loadElement
  | "stelem.i1" => storeElement
  | "stloc.0" => storeScratch
  | "ldloc.0" => loadScratch
  | "call" => call operand
  | "brfalse" => jumpIfZero operand (labels.get? operand)
  | "br" => jump operand (labels.get? operand)
  | opcode => unknown opcode

/-- The operations of a listing. -/
def ofListing (listing : Listing) : Array Operation :=
  listing.program.map (decode listing.labels)

end Operation
end Machine
end TapeCompiler
