import TapeCompiler.Machine.Tape
import TapeCompiler.Machine.Value
import TapeCompiler.Numeral.Word

/-!
# Machine states

What a machine holds.  The tape, the cursor, the scratch variable, the step
count and the output outlive a run; the input belongs to one run, and so do
the program counter and the evaluation stack of a configuration.
-/

namespace TapeCompiler
namespace Machine

/-- What a machine holds between two instructions, apart from its place in the
program and its stack. -/
structure State where
  tape : Tape
  counter : Int := 0
  scratch : Nat := 0
  steps : Nat := 0
  /-- The code points written so far. -/
  output : Array Nat := #[]
  /-- The characters of the input that have not been read. -/
  unread : List Char := []
  /-- How many characters of the input have been read. -/
  consumed : Nat := 0
deriving DecidableEq, Repr

/-- A state together with the place in the program and the stack. -/
structure Config where
  pc : Nat := 0
  stack : Stack := []
  state : State
deriving DecidableEq, Repr

/-- Why a tape of a given size cannot be had. -/
inductive TapeSizeError where
  /-- The size is no double word. -/
  | overflow
  /-- The size is negative. -/
  | negative
deriving DecidableEq, Repr

/-- The report on a refused tape size. -/
def TapeSizeError.message : TapeSizeError → String
  | .overflow => "cannot fit \x27int\x27 into an index-sized integer"
  | .negative => "negative count"

namespace State

/-- A new machine with a tape of the given size. -/
def new (size : Int) : Except TapeSizeError State :=
  if !Numeral.isDoubleWord size then .error .overflow
  else if size < 0 then .error .negative
  else .ok { tape := { size := size.toNat } }

/-- The machine with fresh input. -/
def feed (state : State) (input : List Char) : State :=
  { state with unread := input, consumed := 0 }

/-- The machine with one more step counted. -/
def tick (state : State) : State :=
  { state with steps := state.steps + 1 }

end State
end Machine
end TapeCompiler
