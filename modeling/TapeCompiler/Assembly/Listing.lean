import TapeCompiler.Assembly.Line
import TapeCompiler.Table
import TapeCompiler.Text.Blank
import TapeCompiler.Text.Split

/-!
# Reading instruction text

Instruction text is read line by line.  Blanks around a line do not count and
blank lines hold nothing.  If the first word of a line ends in a colon it is a
label; what follows, if anything, is an instruction: its first word is the
opcode and the rest the operand.  A label stands for the index of the next
instruction; of two definitions of one label the later counts.
-/

namespace TapeCompiler
namespace Assembly

open Text

/-- What one line of text holds. -/
structure Entry where
  label : Option String := none
  instruction : Option Instruction := none
deriving DecidableEq, Repr

namespace Entry

/-- Reads a trimmed text as an instruction; the empty text holds none. -/
def readInstruction (text : List Char) : Option Instruction :=
  if text.isEmpty then
    none
  else
    some
      { opcode := String.ofList (firstWord text)
        operand := String.ofList (afterFirstWord text) }

/-- Reads a trimmed line. -/
def readTrimmed (line : List Char) : Entry :=
  let word := firstWord line
  if word.getLast? = some ':' then
    { label := some (String.ofList word.dropLast)
      instruction := readInstruction (afterFirstWord line) }
  else
    { instruction := readInstruction line }

/-- Reads a line. -/
def read (line : List Char) : Entry :=
  readTrimmed (trim line)

end Entry

/-- The label table: the instruction index of each label. -/
abbrev Labels := Table String Nat

/-- Instruction text as read: the instructions and where the labels stand. -/
structure Listing where
  program : Array Instruction := #[]
  labels : Labels := []
deriving DecidableEq, Repr

namespace Listing

/-- Sets the label of an entry at the end of the program so far. -/
def addLabel (listing : Listing) : Option String → Listing
  | none => listing
  | some name => { listing with labels := listing.labels.define name listing.program.size }

/-- Appends the instruction of an entry. -/
def addInstruction (listing : Listing) : Option Instruction → Listing
  | none => listing
  | some instruction => { listing with program := listing.program.push instruction }

/-- Appends an entry. -/
def add (listing : Listing) (entry : Entry) : Listing :=
  (listing.addLabel entry.label).addInstruction entry.instruction

/-- The listing of a sequence of entries. -/
def ofEntries (entries : List Entry) : Listing :=
  entries.foldl add {}

/-- Reads instruction text. -/
def read (text : String) : Listing :=
  ofEntries ((lines text.toList).map Entry.read)

/-- The index that a label stands for. -/
def index? (listing : Listing) (label : String) : Option Nat :=
  listing.labels.get? label

end Listing
end Assembly
end TapeCompiler
