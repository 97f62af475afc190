import TapeCompiler.Numeral.Word

/-!
# Source excerpts

The lines around a place, numbered, with the line itself marked by `>` and a
caret below the column.  The place may lie outside the lines; the excerpt then
holds what there is of its neighbourhood, and the caret only if the marked
line exists.  A caret that is to be set needs a column within the bounds of a
width; without a caret the column does not matter.
-/

namespace TapeCompiler
namespace Source

/-- How many lines an excerpt shows before and after the marked one. -/
def defaultContext : Int := 2

/-- A number right-aligned in a field of the given width. -/
def rightAligned (width n : Nat) : String :=
  let digits := toString n
  String.ofList (List.replicate (width - digits.length) ' ') ++ digits

/-- A numbered source line. -/
def numberedLine (marked : Bool) (number : Nat) (line : String) : String :=
  (if marked then ">" else " ") ++ " " ++ rightAligned 4 number ++ " | " ++ line

/-- The line with the caret.  Columns up to one have it at the margin. -/
def caretLine (column : Int) : String :=
  "       | " ++ String.ofList (List.replicate (column - 1).toNat ' ') ++ "^"

/-- The lines of an excerpt around line `line`, which counts from one; smaller
numbers stand for the first line. -/
def excerptLines (lines : List String) (line column context : Int) : List String :=
  let marked := max 1 line
  lines.zipIdx.flatMap fun (text, index) =>
    let number : Int := index + 1
    if marked - context ≤ number ∧ number ≤ marked + context then
      if number = marked then
        [numberedLine true (index + 1) text, caretLine column]
      else
        [numberedLine false (index + 1) text]
    else
      []

/-- The excerpt as one text. -/
def excerpt (lines : List String) (line column context : Int) : String :=
  "\n".intercalate (excerptLines lines line column context)

/-- Whether an excerpt holds the marked line. -/
def showsMarked (lines : List String) (line context : Int) : Bool :=
  0 ≤ context && max 1 line ≤ lines.length

/-- The excerpt for a column that may be any number.  There is none if a caret
is to be set and the width of the space before it, which is negative for a
column below one, is no double word. -/
def excerpt? (lines : List String) (line column context : Int) : Option String :=
  if showsMarked lines line context && !Numeral.isDoubleWord (column - 1) then none
  else some (excerpt lines line column context)

end Source
end TapeCompiler
