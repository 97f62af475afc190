/-!
# Lines and columns

An index into a source as a line and a column, both counted from one.  An
index outside the source stands for its nearer end.
-/

namespace TapeCompiler
namespace Source

/-- A place in a source, counted from line one and column one. -/
structure Position where
  line : Nat
  column : Nat
deriving DecidableEq, Repr

/-- The index within `0 .. source.length` that is nearest to `pos`. -/
def clampIndex (source : List Char) (pos : Int) : Nat :=
  min pos.toNat source.length

/-- The place of an index: the line is one more than the newlines before it,
the column one more than the characters since the last of them. -/
def Position.of (source : List Char) (pos : Int) : Position :=
  let before := source.take (clampIndex source pos)
  { line := before.count '\n' + 1
    column := (before.reverse.takeWhile (· ≠ '\n')).length + 1 }

end Source
end TapeCompiler
