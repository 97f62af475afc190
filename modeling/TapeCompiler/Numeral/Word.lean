/-!
# Machine words

Words of the evaluation stack are integers in the signed 32-bit range.  Every
arithmetic result is brought back into that range by `wrap`; a value stored in
a cell keeps its lowest eight bits, a value stored in the scratch variable its
lowest sixteen.  Sizes and widths are double words, in the signed 64-bit range.
-/

namespace TapeCompiler
namespace Numeral

/-- The signed 32-bit word congruent to `n`. -/
def wrap (n : Int) : Int :=
  Int.bmod n 0x100000000

/-- A wrapped number is not below the least word. -/
theorem wrap_lower (n : Int) : -0x80000000 ≤ wrap n := by
  have h := Int.le_bmod (x := n) (m := 0x100000000) (by decide)
  simpa [wrap] using h

/-- A wrapped number is not above the greatest word. -/
theorem wrap_upper (n : Int) : wrap n < 0x80000000 := by
  have h := Int.bmod_lt (x := n) (m := 0x100000000) (by decide)
  simpa [wrap] using h

/-- A word is its own wrapping. -/
theorem wrap_of_range {n : Int} (hlow : -0x80000000 ≤ n) (hhigh : n < 0x80000000) :
    wrap n = n := by
  unfold wrap
  rw [Int.bmod_eq_of_le_mul_two] <;> omega

/-- Whether `n` lies in the signed 64-bit range. -/
def isDoubleWord (n : Int) : Bool :=
  -0x8000000000000000 ≤ n && n < 0x8000000000000000

/-- The lowest eight bits of `n`. -/
def lowByte (n : Int) : UInt8 :=
  UInt8.ofNat (n % 256).toNat

/-- The lowest sixteen bits of `n`. -/
def lowSixteen (n : Int) : Nat :=
  (n % 65536).toNat

/-- The scratch variable holds sixteen bits. -/
theorem lowSixteen_lt (n : Int) : lowSixteen n < 65536 := by
  unfold lowSixteen
  omega

end Numeral
end TapeCompiler
