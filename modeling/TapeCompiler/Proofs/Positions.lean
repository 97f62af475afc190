import TapeCompiler.Proofs.Nesting
import TapeCompiler.Proofs.Reading
import TapeCompiler.Source.Diagnostic

/-!
# Places and lines

The place of an index is found by counting: newlines before it, and characters
since the last of them.  The lines of a source are found by cutting it.  The two
agree: the line with the number of a place is what stands before the index since
the last newline, followed by what stands behind it up to the next one
(`getElem?_lines_append`), so the character at an index stands in its line at its
column (`Position.of_points_at`).  The column is also the distance from the index
of the last newline (`Position.of_eq_counts`).
-/

namespace TapeCompiler
namespace Source

open Text

/-- What a text has behind its last newline. -/
def lastLine (text : List Char) : List Char :=
  (text.reverse.takeWhile (· ≠ '\n')).reverse

/-- What a text has before its first newline. -/
def firstLine (text : List Char) : List Char :=
  text.takeWhile (· ≠ '\n')

theorem newline_not_mem_lastLine (text : List Char) : '\n' ∉ lastLine text := by
  intro hmem
  have hother := List.mem_takeWhile_imp (List.mem_reverse.mp hmem)
  simp at hother

theorem eq_lastLine (text : List Char) :
    text = lastLine text ∨ ∃ earlier, text = earlier ++ '\n' :: lastLine text := by
  have hsplit : text = (text.reverse.dropWhile (· ≠ '\n')).reverse ++ lastLine text := by
    rw [lastLine, ← List.reverse_append, List.takeWhile_append_dropWhile, List.reverse_reverse]
  cases hearlier : text.reverse.dropWhile (· ≠ '\n') with
  | nil =>
      left
      rwa [hearlier] at hsplit
  | cons c rest =>
      right
      have hnewline : c = '\n' := by
        have hstop := List.head?_dropWhile_not (· ≠ '\n') text.reverse
        rw [hearlier] at hstop
        simpa using hstop
      refine ⟨rest.reverse, ?_⟩
      rw [hearlier, List.reverse_cons, hnewline, List.append_assoc] at hsplit
      exact hsplit

theorem lastLine_of_not_mem {line : List Char} (hline : '\n' ∉ line) : lastLine line = line := by
  rcases eq_lastLine line with hself | ⟨earlier, hearlier⟩
  · exact hself.symm
  · refine absurd ?_ hline
    rw [hearlier]
    simp

theorem lastLine_append_newline (earlier : List Char) {line : List Char} (hline : '\n' ∉ line) :
    lastLine (earlier ++ '\n' :: line) = line := by
  have hreverse : (earlier ++ '\n' :: line).reverse = line.reverse ++ '\n' :: earlier.reverse := by
    simp
  rw [lastLine, hreverse, List.takeWhile_append_of_pos, List.takeWhile_cons_of_neg (by simp),
    List.append_nil, List.reverse_reverse]
  intro c hc
  have hother : c ≠ '\n' := fun hnewline => hline (hnewline ▸ List.mem_reverse.mp hc)
  simpa using hother

theorem lastLine_append_other (earlier : List Char) {c : Char} (hc : c ≠ '\n') :
    lastLine (earlier ++ [c]) = lastLine earlier ++ [c] := by
  rw [lastLine, List.reverse_append, List.reverse_singleton, List.singleton_append,
    List.takeWhile_cons_of_pos (by simpa using hc), List.reverse_cons, lastLine]

theorem firstLine_newline (rest : List Char) : firstLine ('\n' :: rest) = [] :=
  List.takeWhile_cons_of_neg (by simp)

theorem firstLine_cons {c : Char} (hc : c ≠ '\n') (rest : List Char) :
    firstLine (c :: rest) = c :: firstLine rest :=
  List.takeWhile_cons_of_pos (by simpa using hc)

theorem exists_lines_eq (text : List Char) : ∃ later, lines text = firstLine text :: later := by
  induction text with
  | nil => exact ⟨[], rfl⟩
  | cons c rest ih =>
      obtain ⟨later, hlater⟩ := ih
      rw [lines] at hlater
      rw [lines, splitAt_cons, hlater]
      unfold prependTo
      by_cases hc : c = '\n'
      · subst hc
        rw [if_pos rfl, firstLine_newline]
        exact ⟨_, rfl⟩
      · rw [if_neg hc, firstLine_cons hc]
        exact ⟨later, rfl⟩

/-- Characters other than newlines go in front of the first line. -/
theorem lines_append_of_not_mem {front : List Char} (hfront : '\n' ∉ front) (rest : List Char) :
    ∃ later, lines (front ++ rest) = (front ++ firstLine rest) :: later := by
  obtain ⟨later, hlater⟩ := exists_lines_eq (front ++ rest)
  refine ⟨later, ?_⟩
  rw [hlater, firstLine, List.takeWhile_append_of_pos]
  · rfl
  · intro c hc
    have hother : c ≠ '\n' := fun hnewline => hfront (hnewline ▸ hc)
    simpa using hother

/-- The line in which one text ends and another begins. -/
theorem getElem?_lines_append (before behind : List Char) :
    (lines (before ++ behind))[before.count '\n']? =
      some (lastLine before ++ firstLine behind) := by
  obtain ⟨later, hlater⟩ := lines_append_of_not_mem (newline_not_mem_lastLine before) behind
  have hnone : (lastLine before).count '\n' = 0 :=
    List.count_eq_zero.mpr (newline_not_mem_lastLine before)
  rcases eq_lastLine before with hbefore | ⟨earlier, hbefore⟩
  · rw [← hbefore] at hlater hnone ⊢
    rw [hnone, hlater]
    rfl
  · -- The lines before the last newline are as many as the newlines up to it.
    have hcount : before.count '\n' = (lines earlier).length := by
      rw [hbefore, List.count_append, List.count_cons_self, hnone, lines, length_splitAt]
    have hlines : lines (before ++ behind) =
        lines earlier ++ (lastLine before ++ firstLine behind) :: later := by
      rw [← hlater]
      conv_lhs => rw [hbefore]
      rw [List.append_assoc, List.cons_append, lines_joined]
    rw [hlines, hcount, List.getElem?_append_right (Nat.le_refl _), Nat.sub_self]
    rfl

/-- The place of the index behind a text. -/
theorem Position.of_append (before behind : List Char) :
    Position.of (before ++ behind) before.length =
      { line := before.count '\n' + 1, column := (lastLine before).length + 1 } := by
  have hclamp : clampIndex (before ++ behind) before.length = before.length := by
    rw [clampIndex, Int.toNat_natCast, List.length_append]
    omega
  rw [Position.of, hclamp, List.take_left, lastLine, List.length_reverse]

/-- The line of a place is one of the lines of the source. -/
theorem Position.line_bounds (source : List Char) (pos : Int) :
    1 ≤ (Position.of source pos).line ∧ (Position.of source pos).line ≤ (lines source).length := by
  have hcount := (List.take_sublist (clampIndex source pos) source).count_le '\n'
  rw [lines, length_splitAt]
  exact ⟨Nat.le_add_left 1 _, Nat.add_le_add_right hcount 1⟩

/-- The index of the last newline before an index, or one less than all indices. -/
def newlineBefore (source : List Char) : Nat → Int
  | 0 => -1
  | index + 1 => if source[index]? = some '\n' then index else newlineBefore source index

/-- What stands before an index since the last newline fills the indices between
them. -/
theorem length_lastLine_take (source : List Char) {index : Nat} (hindex : index ≤ source.length) :
    ((lastLine (source.take index)).length : Int) = index - (newlineBefore source index + 1) := by
  induction index with
  | zero => rfl
  | succ index ih =>
      have hlength := ih (Nat.le_of_succ_le hindex)
      have hget : source[index]? = some (source.get ⟨index, hindex⟩) := by simp
      rw [List.take_add_one, hget, Option.toList_some, newlineBefore, hget]
      by_cases hnewline : source.get ⟨index, hindex⟩ = '\n'
      · rw [hnewline, lastLine_append_newline _ List.not_mem_nil, if_pos rfl]
        simp
      · rw [lastLine_append_other _ hnewline, if_neg (by simpa using hnewline),
          List.length_append, List.length_singleton]
        omega

/-- The line of an index counts the newlines before it, and the column counts
from the last of them. -/
theorem Position.of_eq_counts (source : List Char) (pos : Int) :
    let index := max 0 (min pos source.length)
    (Position.of source pos).line = (source.take index.toNat).count '\n' + 1 ∧
      ((Position.of source pos).column : Int) =
        index - (newlineBefore source index.toNat + 1) + 1 := by
  intro index
  have hindex : (index.toNat : Int) = index := Int.toNat_of_nonneg (Int.le_max_left _ _)
  have hclamp : clampIndex source pos = index.toNat := by
    rw [clampIndex]
    omega
  have hlength := length_lastLine_take source (show index.toNat ≤ source.length by omega)
  rw [lastLine, List.length_reverse, hindex] at hlength
  rw [Position.of, hclamp, ← hlength]
  exact ⟨rfl, rfl⟩

/-- A place points at a character: its line is the line of the index, its column
counts what stands before the index in that line, and the line has the character
there. -/
structure Position.PointsAt (source : List Char) (pos : Nat) (c : Char) (place : Position) :
    Prop where
  line : place.line = (source.take pos).count '\n' + 1
  column : place.column = (lastLine (source.take pos)).length + 1
  character : ∃ text, (lines source)[place.line - 1]? = some text ∧
    place.column ≤ text.length ∧ text[place.column - 1]? = some c

section Index

variable {source : List Char} {pos : Nat} {c : Char} (hpos : source[pos]? = some c)
include hpos

theorem Position.of_index :
    Position.of source pos =
      { line := (source.take pos).count '\n' + 1
        column := (lastLine (source.take pos)).length + 1 } := by
  obtain ⟨before, behind, rfl, rfl⟩ := split_at hpos
  rw [Position.of_append, List.take_left]

/-- The line of a character other than a newline: what stands before it since the
last newline, the character, and what stands behind it up to the next one. -/
theorem getElem?_lines_index (hc : c ≠ '\n') :
    (lines source)[(source.take pos).count '\n']? =
      some (lastLine (source.take pos) ++ c :: firstLine (source.drop (pos + 1))) := by
  obtain ⟨before, behind, rfl, rfl⟩ := split_at hpos
  have hbehind : (before ++ c :: behind).drop (before.length + 1) = behind := by
    rw [List.append_cons, List.drop_left' (by simp)]
  rw [List.take_left, getElem?_lines_append, firstLine_cons hc, hbehind]

/-- The place of a character other than a newline points at it. -/
theorem Position.of_points_at (hc : c ≠ '\n') :
    (Position.of source pos).PointsAt source pos c := by
  rw [Position.of_index hpos]
  refine ⟨rfl, rfl, _, getElem?_lines_index hpos hc, ?_, ?_⟩
  · dsimp only
    rw [List.length_append, List.length_cons]
    omega
  · rw [Nat.add_sub_cancel, List.getElem?_append_right (Nat.le_refl _), Nat.sub_self]
    rfl

end Index

end Source
end TapeCompiler
