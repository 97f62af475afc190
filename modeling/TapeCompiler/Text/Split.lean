/-!
# Splitting at a separator

One separator character cuts a text into pieces: lines at a newline, path
components at a slash, search directories at a colon.  There is always one
piece more than there are separators, so empty pieces are kept.
-/

namespace TapeCompiler
namespace Text

/-- One more character in front of a text that is already split. -/
def prependTo (separator c : Char) (pieces : List (List Char)) : List (List Char) :=
  if c = separator then
    [] :: pieces
  else
    match pieces with
    | [] => [[c]]
    | piece :: rest => (c :: piece) :: rest

/-- The pieces of a text between the separators. -/
def splitAt (separator : Char) (text : List Char) : List (List Char) :=
  text.foldr (prependTo separator) [[]]

@[simp] theorem splitAt_nil (separator : Char) : splitAt separator [] = [[]] := rfl

@[simp] theorem splitAt_cons (separator c : Char) (text : List Char) :
    splitAt separator (c :: text) = prependTo separator c (splitAt separator text) := rfl

/-- The library splits lists in the same way. -/
theorem splitAt_eq_splitOn (separator : Char) (text : List Char) :
    splitAt separator text = text.splitOn separator := by
  induction text with
  | nil => rfl
  | cons c rest ih =>
      rw [splitAt_cons, List.splitOn_cons_eq_if_modifyHead, ih]
      unfold prependTo
      simp only [beq_iff_eq]
      split
      · rfl
      · cases hpieces : rest.splitOn separator with
        | nil => exact absurd hpieces (List.splitOn_ne_nil separator rest)
        | cons piece pieces => rfl

/-- There is always a piece. -/
theorem splitAt_ne_nil (separator : Char) (text : List Char) :
    splitAt separator text ≠ [] := by
  cases text with
  | nil => simp
  | cons c rest =>
      rw [splitAt_cons]
      unfold prependTo
      split
      · simp
      · split <;> simp

/-- There is one piece more than there are separators. -/
theorem length_splitAt (separator : Char) (text : List Char) :
    (splitAt separator text).length = text.count separator + 1 := by
  induction text with
  | nil => rfl
  | cons c rest ih =>
      rw [splitAt_cons]
      unfold prependTo
      split
      · rename_i hsep
        simp [hsep, ih]
      · rename_i hother
        cases hpieces : splitAt separator rest with
        | nil => exact absurd hpieces (splitAt_ne_nil separator rest)
        | cons piece pieces =>
            rw [hpieces] at ih
            simpa [List.count_cons, hother] using ih

/-- No piece holds a separator. -/
theorem not_mem_of_mem_splitAt {separator : Char} {text piece : List Char}
    (hpiece : piece ∈ splitAt separator text) : separator ∉ piece := by
  induction text generalizing piece with
  | nil =>
      rw [List.mem_singleton.mp hpiece]
      exact List.not_mem_nil
  | cons c rest ih =>
      rw [splitAt_cons] at hpiece
      unfold prependTo at hpiece
      split at hpiece
      · rcases List.mem_cons.mp hpiece with rfl | hpiece
        · exact List.not_mem_nil
        · exact ih hpiece
      · rename_i hother
        split at hpiece
        · rw [List.mem_singleton.mp hpiece]
          simpa using fun h => hother h.symm
        · rename_i first pieces hsplit
          rw [hsplit] at ih
          rcases List.mem_cons.mp hpiece with rfl | hpiece
          · rw [List.mem_cons, not_or]
            exact ⟨fun h => hother h.symm, ih List.mem_cons_self⟩
          · exact ih (List.mem_cons_of_mem _ hpiece)

/-- The lines of a text.  Only the newline character ends a line. -/
def lines (text : List Char) : List (List Char) :=
  splitAt '\n' text

/-- A carriage return, alone or before a newline, becomes a newline. -/
def normalizeNewlines : List Char → List Char
  | [] => []
  | '\r' :: '\n' :: rest => '\n' :: normalizeNewlines rest
  | '\r' :: rest => '\n' :: normalizeNewlines rest
  | c :: rest => c :: normalizeNewlines rest

/-- Whether a word occurs in a text as a contiguous part. -/
def occursIn (word : List Char) : List Char → Bool
  | [] => word.isEmpty
  | c :: rest => word.isPrefixOf (c :: rest) || occursIn word rest

end Text
end TapeCompiler
