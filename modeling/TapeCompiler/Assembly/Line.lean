/-!
# Lines of assembly text

Code is generated as assembly text of the Common Intermediate Language.  An
instruction is an opcode with an operand, which may be empty.  A line holds
one instruction, may carry a label in front, and fixes how many spaces stand
between opcode and operand.  A block is the text of several lines followed by
an empty one.
-/

namespace TapeCompiler
namespace Assembly

/-- An instruction as text. -/
structure Instruction where
  opcode : String
  operand : String := ""
deriving DecidableEq, Repr

/-- A line of assembly text. -/
structure Line where
  label : Option String := none
  opcode : String
  gap : Nat := 0
  operand : String := ""
deriving DecidableEq, Repr

namespace Line

/-- The instruction on a line. -/
def instruction (line : Line) : Instruction :=
  { opcode := line.opcode, operand := line.operand }

/-- The text of a line. -/
def render (line : Line) : String :=
  (match line.label with
    | some label => label ++ ": "
    | none => "") ++
  line.opcode ++ String.ofList (List.replicate line.gap ' ') ++ line.operand

/-- A line with an opcode only. -/
def bare (opcode : String) : Line :=
  { opcode }

/-- A line whose operand is one space behind the opcode. -/
def close (opcode operand : String) : Line :=
  { opcode, gap := 1, operand }

/-- A line whose operand starts in the twelfth column. -/
def aligned (opcode operand : String) : Line :=
  { opcode, gap := 11 - opcode.length, operand }

/-- A labelled line with an opcode only. -/
def marked (label opcode : String) : Line :=
  { label := some label, opcode }

end Line

/-- A block of text lines: the lines, then an empty line. -/
def blockText (lines : List String) : String :=
  "\n".intercalate lines ++ "\n\n"

end Assembly
end TapeCompiler
