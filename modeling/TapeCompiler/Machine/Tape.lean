/-!
# The tape

A tape has a fixed number of byte cells, all zero at first.  Only the part
that has been written to is held; `cell` reads zero beyond it.  A tape of
millions of cells therefore costs nothing until it is used, and enlarging a
tape does not touch its contents.
-/

namespace TapeCompiler
namespace Machine

/-- A tape of `size` cells, of which the first `cells.size` are held. -/
structure Tape where
  size : Nat
  cells : Array UInt8 := #[]
deriving DecidableEq, Repr

namespace Tape

/-- The value of a cell. -/
def cell (tape : Tape) (index : Nat) : UInt8 :=
  tape.cells.getD index 0

/-- Sets a cell.  The held part grows up to it where needed. -/
def write (tape : Tape) (index : Nat) (value : UInt8) : Tape :=
  match tape with
  | ⟨size, cells⟩ =>
      let reaching :=
        if index < cells.size then cells
        else cells ++ Array.replicate (index + 1 - cells.size) 0
      ⟨size, reaching.setIfInBounds index value⟩

@[simp] theorem size_write (tape : Tape) (index : Nat) (value : UInt8) :
    (tape.write index value).size = tape.size := rfl

/-- A written cell reads as written, and every other cell as before. -/
theorem cell_write (tape : Tape) (index other : Nat) (value : UInt8) :
    (tape.write index value).cell other =
      if index = other then value else tape.cell other := by
  obtain ⟨size, cells⟩ := tape
  simp only [write, cell, Array.getD_eq_getD_getElem?, Array.getElem?_setIfInBounds]
  by_cases hsame : index = other
  · subst hsame
    have hreach : index <
        (if index < cells.size then cells
          else cells ++ Array.replicate (index + 1 - cells.size) 0).size := by
      split
      · assumption
      · simp
        omega
    simp [hreach]
  · simp only [hsame, if_false]
    split
    · rfl
    · rw [Array.getElem?_append]
      split
      · rfl
      · rename_i hbeyond
        rw [Array.getElem?_replicate, Array.getElem?_eq_none (Nat.le_of_not_lt hbeyond)]
        split <;> rfl

/-- The cells that are not zero, with their indices, in order. -/
def nonzero (tape : Tape) : List (Nat × UInt8) :=
  tape.cells.toList.zipIdx.filterMap fun (value, index) =>
    if value = 0 then none else some (index, value)

end Tape
end Machine
end TapeCompiler
