import TapeCompiler.Numeral.Literal
import TapeCompiler.Text.Quoted

/-!
# Machine faults

The causes that stop a run before its end.
-/

namespace TapeCompiler
namespace Machine

open Text

/-- Why an instruction could not be executed. -/
inductive Fault where
  /-- The run has used up its steps. -/
  | stepLimit (limit : Int)
  /-- The stack holds too few values. -/
  | stackUnderflow
  /-- A value other than a word where a number is needed. -/
  | notAWord
  /-- A value other than a cell address where one is needed. -/
  | notAnAddress
  /-- An index outside the tape. -/
  | indexOutOfRange (index : Int)
  /-- A number that is the code point of no character. -/
  | notACharacter
  /-- The operand of `ldc.i4` is no integer literal. -/
  | badLiteral (error : Numeral.LiteralError)
  /-- A field that is neither the tape nor the cursor. -/
  | unknownField (operand : String)
  /-- The tape itself cannot be assigned. -/
  | readOnlyField
  /-- A method that is neither `Write` nor `Read`. -/
  | unknownCall (operand : String)
  /-- A jump to a label that is not defined. -/
  | unknownLabel (label : String)
  /-- An opcode that the machine does not have. -/
  | unknownInstruction (opcode : String)
deriving DecidableEq, Repr

/-- The report on a fault.  A value of the wrong kind is reported without a text
of its own. -/
def Fault.message : Fault → String
  | .stepLimit limit => s!"Step limit of {limit} exceeded"
  | .stackUnderflow => "Evaluation stack underflow"
  | .notAWord => ""
  | .notAnAddress => ""
  | .indexOutOfRange index => s!"Memory index {index} out of range"
  | .notACharacter => "chr() arg not in range(0x110000)"
  | .badLiteral error => error.message
  | .unknownField operand => s!"Unknown field {quoted operand}"
  | .readOnlyField => "Memory field is read-only"
  | .unknownCall operand => s!"Unsupported call {quoted operand}"
  | .unknownLabel label => s!"Unknown label {quoted label}"
  | .unknownInstruction opcode => s!"Unsupported instruction {quoted opcode}"

end Machine
end TapeCompiler
