/-!
# Finite tables

A table holds values by key, each key at most once when it is built with
`define` and `erase`.  The view of a table is `get?`; the two lemmas say what
the operations do to it.
-/

namespace TapeCompiler

/-- Values by key. -/
abbrev Table (κ ν : Type) := List (κ × ν)

namespace Table

variable {κ ν : Type} [DecidableEq κ]

/-- The value of a key. -/
def get? (table : Table κ ν) (key : κ) : Option ν :=
  table.lookup key

/-- Removes the value of a key. -/
def erase (table : Table κ ν) (key : κ) : Table κ ν :=
  table.filter fun entry => entry.1 != key

/-- Sets the value of a key, in place of an earlier one. -/
def define (table : Table κ ν) (key : κ) (value : ν) : Table κ ν :=
  (key, value) :: table.erase key

/-- An erased key has no value, and every other key the one it had. -/
theorem get?_erase (table : Table κ ν) (key other : κ) :
    (table.erase key).get? other = if other = key then none else table.get? other := by
  induction table with
  | nil => simp [erase, get?]
  | cons entry rest ih =>
      obtain ⟨found, value⟩ := entry
      unfold erase get? at ih ⊢
      by_cases hfound : found = key
      · subst hfound
        rw [List.filter_cons_of_neg (by simp), ih]
        by_cases hother : other = found
        · simp [hother]
        · have hne : (other == found) = false := beq_eq_false_iff_ne.mpr hother
          simp [hother, List.lookup_cons, hne]
      · rw [List.filter_cons_of_pos (by simpa using hfound), List.lookup_cons, List.lookup_cons]
        by_cases hother : other = found
        · subst hother
          simp [hfound]
        · have hne : (other == found) = false := beq_eq_false_iff_ne.mpr hother
          simp [hne, ih]

/-- A defined key has the given value, and every other key the one it had. -/
theorem get?_define (table : Table κ ν) (key other : κ) (value : ν) :
    (table.define key value).get? other =
      if other = key then some value else table.get? other := by
  have herase := get?_erase table key other
  unfold define get? at *
  rw [List.lookup_cons, herase]
  by_cases hother : other = key
  · simp [hother]
  · have hne : (other == key) = false := beq_eq_false_iff_ne.mpr hother
    simp [hne, hother]

end Table
end TapeCompiler
