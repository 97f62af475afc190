import Mathlib.Algebra.GroupWithZero.Nat
import Mathlib.Algebra.Ring.Int.Defs
import Mathlib.Data.Int.ConditionallyCompleteOrder
import Mathlib.Data.Int.SuccPred
import Mathlib.Data.Prod.Lex
import Mathlib.Order.Interval.Set.OrdConnected
import Mathlib.Order.SuccPred.Archimedean
import TapeCompiler.Proofs.Positions

/-!
# The grid of places

A source has an index for each of its characters and one for its end.  Their places
form a grid with rows of unequal length: a line has a column for each of its
characters, and one more for the newline that ends it or, in the last line, for the
end of the source.

The index behind a character has the next column, or behind a newline the start of
the next line (`Position.of_succ`), so places grow with their indices.  Back from a
place leads the number of characters before it: those of the earlier lines with
their newlines, and those before its column (`Position.InGrid.of_offset`).

Main statement: `Position.of_enumerates_grid`.
-/

namespace TapeCompiler
namespace Source

open Text

/-! ### Lines put together -/

/-- Lines with a newline behind each. -/
def ended (texts : List (List Char)) : List Char :=
  texts.flatMap (· ++ ['\n'])

theorem length_ended (texts : List (List Char)) :
    (ended texts).length = (texts.map (·.length + 1)).sum := by
  simp [ended, List.length_flatMap]

theorem count_ended {texts : List (List Char)} (htexts : ∀ text ∈ texts, '\n' ∉ text) :
    (ended texts).count '\n' = texts.length := by
  induction texts with
  | nil => rfl
  | cons text texts ih =>
      obtain ⟨htext, htexts⟩ := List.forall_mem_cons.mp htexts
      have hnone : text.count '\n' = 0 := List.count_eq_zero.mpr htext
      have hrest := ih htexts
      rw [ended] at hrest ⊢
      rw [List.flatMap_cons, List.count_append, List.count_append, hnone, hrest,
        List.count_singleton_self, List.length_cons]
      omega

theorem lastLine_ended_append (texts : List (List Char)) {line : List Char} (hline : '\n' ∉ line) :
    lastLine (ended texts ++ line) = line := by
  rcases texts.eq_nil_or_concat with rfl | ⟨earlier, text, rfl⟩
  · exact lastLine_of_not_mem hline
  · have hsplit :
        ended (earlier.concat text) ++ line = (ended earlier ++ text) ++ '\n' :: line := by
      simp [ended]
    rw [hsplit, lastLine_append_newline _ hline]

theorem intercalate_append_cons (front back : List (List Char)) (text : List Char) :
    ['\n'].intercalate (front ++ text :: back) =
      ended front ++ ['\n'].intercalate (text :: back) := by
  induction front with
  | nil => rfl
  | cons first front ih =>
      rw [List.cons_append, List.intercalate_cons_of_ne_nil (by simp), ih, ended, ended,
        List.flatMap_cons, List.append_assoc (first ++ _)]

/-- A text starts with its first lines, ended, and the one behind them. -/
theorem exists_eq_ended_append {source text : List Char} {front back : List (List Char)}
    (hlines : lines source = front ++ text :: back) :
    ∃ behind, source = ended front ++ (text ++ behind) := by
  have hjoined : source = ended front ++ ['\n'].intercalate (text :: back) := by
    rw [← intercalate_append_cons, ← hlines, lines, splitAt_eq_splitOn, List.intercalate_splitOn]
  cases back with
  | nil => exact ⟨[], by rw [hjoined, List.intercalate_singleton, List.append_nil]⟩
  | cons next back =>
      exact ⟨_, by rw [hjoined, List.intercalate_cons_cons, List.append_assoc text]⟩

namespace Position

/-! ### The grid of a source -/

/-- A place as a pair.  Pairs are compared by their lines, and by their columns where
the lines are the same. -/
def key (place : Position) : ℕ ×ₗ ℕ :=
  toLex (place.line, place.column)

/-- The line of a place is one of the lines of a source, and its column is that of a
character of the line or the one behind them. -/
structure InGrid (source : List Char) (place : Position) : Prop where
  line_pos : 1 ≤ place.line
  line_le : place.line ≤ (lines source).length
  column_pos : 1 ≤ place.column
  column_le : place.column ≤ ((lines source).get ⟨place.line - 1, by omega⟩).length + 1

/-- The number of characters before a place: the earlier lines with their newlines,
and the columns before its own. -/
def offset (source : List Char) (place : Position) : ℕ :=
  (((lines source).take (place.line - 1)).map (·.length + 1)).sum + (place.column - 1)

variable {source : List Char} {place : Position}

theorem inGrid_iff :
    place.InGrid source ↔
      1 ≤ place.line ∧ 1 ≤ place.column ∧
        ∃ text ∈ (lines source)[place.line - 1]?, place.column ≤ text.length + 1 := by
  constructor
  · rintro ⟨hfirst, hlast, hcolumn, hwidth⟩
    exact ⟨hfirst, hcolumn, _, List.getElem?_eq_getElem (by omega), hwidth⟩
  · rintro ⟨hfirst, hcolumn, text, htext, hwidth⟩
    obtain ⟨hlast, rfl⟩ := List.getElem?_eq_some_iff.mp htext
    exact ⟨hfirst, by omega, hcolumn, hwidth⟩

instance : Decidable (place.InGrid source) :=
  decidable_of_iff _ inGrid_iff.symm

/-- A source is cut at a place of the grid: what stands before it has as many
characters as its offset, and the newlines and the last line that the place tells. -/
theorem InGrid.exists_cut (hplace : place.InGrid source) :
    ∃ before behind, source = before ++ behind ∧ before.length = place.offset source ∧
      place.line = before.count '\n' + 1 ∧ place.column = (lastLine before).length + 1 := by
  obtain ⟨hfirst, hcolumn, text, htext, hwidth⟩ := inGrid_iff.mp hplace
  obtain ⟨front, back, hlines, hfront⟩ := split_at htext
  obtain ⟨behind, hsource⟩ := exists_eq_ended_append hlines
  have hbare (other : List Char) (hother : other ∈ front ++ text :: back) : '\n' ∉ other := by
    rw [← hlines] at hother
    exact not_mem_of_mem_splitAt hother
  -- The part of the own line has no newline, so those before the place end the earlier lines.
  have hleft : '\n' ∉ text.take (place.column - 1) := fun hmem =>
    hbare text (by simp) (List.mem_of_mem_take hmem)
  have hcount := count_ended fun other hother => hbare other (List.mem_append_left _ hother)
  have htake : (lines source).take (place.line - 1) = front := by
    rw [hlines, ← hfront, List.take_left]
  refine ⟨ended front ++ text.take (place.column - 1), text.drop (place.column - 1) ++ behind,
    ?_, ?_, ?_, ?_⟩
  · rw [hsource, List.append_assoc, ← List.append_assoc (text.take _), List.take_append_drop]
  · rw [offset, htake, List.length_append, length_ended, List.length_take]
    omega
  · rw [List.count_append, hcount, List.count_eq_zero.mpr hleft]
    omega
  · rw [lastLine_ended_append front hleft, List.length_take]
    omega

theorem InGrid.offset_mem (hplace : place.InGrid source) :
    (place.offset source : ℤ) ∈ Set.Icc 0 (source.length : ℤ) := by
  obtain ⟨before, behind, hsource, hoffset, -⟩ := hplace.exists_cut
  rw [← hoffset, hsource, List.length_append, Set.mem_Icc]
  omega

/-- A place of the grid is the place of its offset. -/
theorem InGrid.of_offset (hplace : place.InGrid source) :
    Position.of source (place.offset source) = place := by
  obtain ⟨before, behind, hsource, hoffset, hline, hcolumn⟩ := hplace.exists_cut
  rw [← hoffset, hsource, Position.of_append, ← hline, ← hcolumn]

/-! ### The places of the indices -/

theorem of_congr {first second : ℤ} (h : clampIndex source first = clampIndex source second) :
    Position.of source first = Position.of source second := by
  rw [Position.of, Position.of, h]

theorem of_inGrid (source : List Char) (pos : ℤ) : (Position.of source pos).InGrid source := by
  obtain ⟨before, behind, hsource, hplace⟩ : ∃ before behind, source = before ++ behind ∧
      Position.of source pos =
        { line := before.count '\n' + 1, column := (lastLine before).length + 1 } := by
    refine ⟨_, _, (List.take_append_drop (clampIndex source pos) source).symm, ?_⟩
    rw [Position.of, lastLine, List.length_reverse]
  rw [inGrid_iff, hplace, hsource]
  refine ⟨Nat.le_add_left 1 _, Nat.le_add_left 1 _, _, getElem?_lines_append before behind, ?_⟩
  rw [List.length_append]
  dsimp only
  omega

/-- The next index: a newline ends the line, and any other character takes up one
column. -/
theorem of_succ {pos : ℕ} {c : Char} (hpos : source[pos]? = some c) :
    Position.of source (pos + 1) =
      if c = '\n' then { line := (Position.of source pos).line + 1, column := 1 }
      else { line := (Position.of source pos).line
             column := (Position.of source pos).column + 1 } := by
  obtain ⟨before, behind, rfl, rfl⟩ := split_at hpos
  have hnext := Position.of_append (before ++ [c]) behind
  rw [List.append_assoc, List.singleton_append, List.length_append, List.length_singleton,
    Nat.cast_add, Nat.cast_one] at hnext
  rw [hnext, Position.of_append]
  split_ifs with hc
  · rw [hc, lastLine_append_newline before List.not_mem_nil, List.count_append,
      List.count_singleton_self]
    rfl
  · rw [lastLine_append_other before hc, List.count_append, List.length_append,
      List.count_singleton, beq_eq_false_iff_ne.mpr hc]
    rfl

theorem key_of_lt_succ {pos : ℕ} (hpos : pos < source.length) :
    (Position.of source pos).key < (Position.of source (pos + 1)).key := by
  rw [key, key, of_succ (List.getElem?_eq_getElem hpos), Prod.Lex.toLex_lt_toLex]
  split
  · exact .inl (Nat.lt_succ_self _)
  · exact .inr ⟨rfl, Nat.lt_succ_self _⟩

/-- Places grow with their indices. -/
theorem strictMonoOn_key_of (source : List Char) :
    StrictMonoOn (fun pos => (Position.of source pos).key) (Set.Icc 0 (source.length : ℤ)) := by
  refine strictMonoOn_of_lt_succ Set.ordConnected_Icc ?_
  intro pos _ hpos hnext
  obtain ⟨index, rfl⟩ := Int.eq_ofNat_of_zero_le hpos.1
  rw [Order.succ_eq_add_one] at hnext ⊢
  have hindex : index < source.length := by
    have hbound := hnext.2
    omega
  exact key_of_lt_succ hindex

/-- An index is found again from its place. -/
theorem offset_of {pos : ℤ} (hpos : pos ∈ Set.Icc 0 (source.length : ℤ)) :
    ((Position.of source pos).offset source : ℤ) = pos := by
  have hgrid := of_inGrid source pos
  -- The index and the offset have the same place, and places that grow do not repeat.
  have hplaces := congrArg key hgrid.of_offset
  exact (strictMonoOn_key_of source).injOn hgrid.offset_mem hpos hplaces

/-- The places of the indices from zero up to the length of a source grow in lines
and columns and are exactly those of the grid, and the offset of a place in the grid
is its index.  An index outside has the place of the end that it is nearer to. -/
theorem of_enumerates_grid (source : List Char) :
    StrictMonoOn (fun pos => (Position.of source pos).key) (Set.Icc 0 (source.length : ℤ)) ∧
    Set.BijOn (Position.of source) (Set.Icc 0 (source.length : ℤ)) {place | place.InGrid source} ∧
    Set.InvOn (fun place => (place.offset source : ℤ)) (Position.of source)
      (Set.Icc 0 (source.length : ℤ)) {place | place.InGrid source} ∧
    (∀ pos < (0 : ℤ), Position.of source pos = Position.of source 0) ∧
    ∀ pos > (source.length : ℤ), Position.of source pos = Position.of source source.length := by
  have hinverse : Set.InvOn (fun place => (place.offset source : ℤ)) (Position.of source)
      (Set.Icc 0 (source.length : ℤ)) {place | place.InGrid source} :=
    ⟨fun _ hpos => offset_of hpos, fun _ hplace => hplace.of_offset⟩
  refine ⟨strictMonoOn_key_of source, ?_, hinverse, ?_, ?_⟩
  · exact hinverse.bijOn (fun pos _ => of_inGrid source pos) fun _ hplace => hplace.offset_mem
  · intro pos hpos
    apply of_congr
    simp only [clampIndex]
    omega
  · intro pos hpos
    apply of_congr
    simp only [clampIndex]
    omega

/-- A source with a blank line and a newline at its end.  The newlines of the first
two lines have places of their own, the blank line has no second column, and the
end of the source starts a fourth line. -/
theorem of_enumerates_grid_blank_line :
    let source := "ab\n\nc\n".toList
    let indices := Set.Icc 0 (source.length : ℤ)
    2 ∈ indices ∧ 3 ∈ indices ∧ (Position.of source 2).key < (Position.of source 3).key ∧
    (mk 4 1).InGrid source ∧ (∃ pos ∈ indices, Position.of source pos = mk 4 1) ∧
    ((mk 4 1).offset source : ℤ) = 6 ∧ Position.of source 6 = mk 4 1 ∧
    ¬ (mk 2 2).InGrid source ∧ (¬ ∃ pos ∈ indices, Position.of source pos = mk 2 2) ∧
    Position.of source (-1) = Position.of source 0 ∧
    Position.of source 9 = Position.of source 6 := by
  intro source indices
  obtain ⟨hgrow, hbijective, hinverse, hbelow, habove⟩ := of_enumerates_grid source
  have hfirst : 2 ∈ indices := ⟨by decide, by decide⟩
  have hsecond : 3 ∈ indices := ⟨by decide, by decide⟩
  have hend : (mk 4 1).InGrid source := by decide
  have hblank : ¬ (mk 2 2).InGrid source := by decide
  refine ⟨hfirst, hsecond, hgrow hfirst hsecond (by decide), hend, hbijective.surjOn hend, rfl,
    hinverse.2 hend, hblank, ?_, hbelow (-1) (by decide), habove 9 (by decide)⟩
  rintro ⟨pos, hpos, hplace⟩
  have hgrid := hbijective.mapsTo hpos
  rw [hplace] at hgrid
  exact hblank hgrid

end Position

end Source
end TapeCompiler
