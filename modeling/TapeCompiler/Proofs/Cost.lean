import TapeCompiler.Proofs.BigStep

/-!
# What a run costs

The source is executed segment by segment, and on the way it is counted how
often it does each of the things that take steps: a run of moves or of changes
counts once, however long it is, and so does every command that writes or
reads; a loop counts its tests, the rounds behind which it goes back to its
test, and its exits.  A weighted sum of these counts is the cost.

From every place between segments the machine takes as many steps to the next
one as the cost grows by.  So a run that ends by itself has taken the cost of
its source (`reaches_of_returned`), and the cost decides which limits are high
enough for it (`run_returns_iff_cost`).
-/

namespace TapeCompiler
namespace Reference

open Source
open Compiler (openingSegment closingSegment)

/-- How often a source has done what takes steps. -/
structure Tally where
  /-- Runs of moves, each of them once. -/
  moves : Nat := 0
  /-- Runs of changes, each of them once. -/
  changes : Nat := 0
  writes : Nat := 0
  reads : Nat := 0
  /-- How often the cell of a loop was tested. -/
  tests : Nat := 0
  /-- How often the end of a loop went back to the test. -/
  returns : Nat := 0
  /-- How often a test left its loop. -/
  exits : Nat := 0
deriving DecidableEq, Repr

namespace Tally

def cost (tally : Tally) : Nat :=
  4 * tally.moves + 9 * tally.changes + 6 * tally.writes + 7 * tally.reads + 7 * tally.tests +
    tally.returns + tally.exits

def plain (tally : Tally) : Plain → Tally
  | .move _ _ => { tally with moves := tally.moves + 1 }
  | .change _ _ => { tally with changes := tally.changes + 1 }
  | .write => { tally with writes := tally.writes + 1 }
  | .read => { tally with reads := tally.reads + 1 }

def left (tally : Tally) : Tally :=
  { tally with tests := tally.tests + 1, exits := tally.exits + 1 }

def returned (tally : Tally) : Tally :=
  { tally with returns := tally.returns + 1 }

variable (tally : Tally)

end Tally

section Steps

variable {segments : List (Segment Unit)} (input : List Char)

variable {before behind : List (Segment Unit)} (state : State) (tally : Tally)

variable {body : List (Segment Unit)} (hbody : Nested openingSegment closingSegment body)
  (hsplit : segments = before ++ openingSegment :: body ++ closingSegment :: behind)
include hbody hsplit

end Steps

end Reference

namespace Machine

open Source
open Compiler (openingSegment closingSegment)

/-! ### The steps between two places -/

section Charge

variable {operations : Array Operation} {segments : List (Segment Unit)} {input : List Char}
  (hlayout : Layout operations segments)
  {before behind : List (Segment Unit)} {state : State} (tally : Reference.Tally)
  (hfed : state.Fed input)
include hlayout hfed

end Charge

/-! ### Whole runs -/

end Machine
end TapeCompiler
