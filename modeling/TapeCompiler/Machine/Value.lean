/-!
# Stack values

The evaluation stack holds words, references to the tape, and addresses of
tape cells.
-/

namespace TapeCompiler
namespace Machine

/-- A value on the evaluation stack. -/
inductive Value where
  /-- A signed 32-bit word. -/
  | word (n : Int)
  /-- The tape as a whole. -/
  | tape
  /-- The address of a cell. -/
  | address (index : Nat)
deriving DecidableEq, Repr

/-- An evaluation stack, top first. -/
abbrev Stack := List Value

end Machine
end TapeCompiler
