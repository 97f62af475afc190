import TapeCompiler.Proofs.Segments

/-!
# The segments of two texts put together

Where a text is continued by another, a run of moves or of changes may go on
across the seam.  Then the last segment of the first text and the first segment
of the second become one; all the other segments stay what they are, wherever
their brackets stand.  Main statement: `seam_bareSegments`.
-/

namespace TapeCompiler
namespace Source

open Assembly

/-! ### Segments without marks -/

theorem Command.bare_single {command : Command} {first second : Nat} {one other : Segment Nat}
    (hone : command.single? first = some one) (hother : command.single? second = some other) :
    one.bare = other.bare := by
  cases command <;> cases hone <;> cases hother <;> rfl

/-- Where a text starts shows only in the marks of its segments. -/
theorem map_bare_segmentsFrom (first second : Nat) (source : List Char) :
    (segmentsFrom first source).map Segment.bare =
      (segmentsFrom second source).map Segment.bare := by
  induction source generalizing first second with
  | nil => rfl
  | cons c rest ih =>
      have hrest := ih (first + 1) (second + 1)
      cases hc : Command.ofChar? c with
      | none => rw [segmentsFrom_comment hc, segmentsFrom_comment hc, hrest]
      | some command =>
          rcases command.fused_or_single with ⟨fuse, hfuse⟩ | hsingle
          · -- Whether the run goes on is seen in the text, so both sides agree on it.
            rcases segmentsFrom_fused hc hfuse first rest with
              ⟨hjoins, count, behind, hbehind, hwhole⟩ | ⟨hstarts, hwhole⟩
            · rcases segmentsFrom_fused hc hfuse second rest with
                ⟨-, count', behind', hbehind', hwhole'⟩ | ⟨hstarts, -⟩
              · rw [hbehind, hbehind', List.map_cons, List.map_cons] at hrest
                obtain ⟨hsame, hmap⟩ := List.cons.inj hrest
                obtain rfl := Nat.succ.inj
                  (Command.fused?_injective hfuse (Segment.plain.inj hsame))
                rw [hwhole, hwhole', List.map_cons, List.map_cons, hmap]
              · exact absurd hjoins hstarts
            · rcases segmentsFrom_fused hc hfuse second rest with ⟨hjoins, -⟩ | ⟨-, hwhole'⟩
              · exact absurd hjoins hstarts
              · rw [hwhole, hwhole', List.map_cons, List.map_cons, hrest]
          · obtain ⟨one, hone⟩ := hsingle first
            obtain ⟨other, hother⟩ := hsingle second
            rw [segmentsFrom_single hc hone, segmentsFrom_single hc hother, List.map_cons,
              List.map_cons, Command.bare_single hone hother, hrest]

section Bare

variable {c : Char} (rest : List Char)

theorem bareSegments_comment (hc : Command.ofChar? c = none) :
    bareSegments (c :: rest) = bareSegments rest := by
  rw [bareSegments, ← segmentsFrom_zero, segmentsFrom_comment hc, map_bare_segmentsFrom _ 0]
  rfl

variable {command : Command} (hc : Command.ofChar? c = some command)
include hc

theorem bareSegments_single {segment : Segment Nat} (hsingle : command.single? 0 = some segment) :
    bareSegments (c :: rest) = segment.bare :: bareSegments rest := by
  rw [bareSegments, ← segmentsFrom_zero, segmentsFrom_single hc hsingle, List.map_cons,
    map_bare_segmentsFrom _ 0]
  rfl

theorem bareSegments_fused {fuse : Nat → Plain} (hfuse : command.fused? = some fuse) :
    (rest.head? = some c ∧ ∃ count behind,
      bareSegments rest = .plain (fuse (count + 1)) :: behind ∧
      bareSegments (c :: rest) = .plain (fuse (count + 2)) :: behind) ∨
    (rest.head? ≠ some c ∧ bareSegments (c :: rest) = .plain (fuse 1) :: bareSegments rest) := by
  have hrest : bareSegments rest = (segmentsFrom 1 rest).map Segment.bare :=
    map_bare_segmentsFrom 0 1 rest
  rw [hrest, bareSegments, ← segmentsFrom_zero]
  rcases segmentsFrom_fused hc hfuse 0 rest with
    ⟨hjoins, count, behind, hbehind, hwhole⟩ | ⟨hstarts, hwhole⟩
  · left
    refine ⟨hjoins, count, behind.map Segment.bare, ?_, ?_⟩
    · rw [hbehind]
      rfl
    · rw [hwhole]
      rfl
  · right
    refine ⟨hstarts, ?_⟩
    rw [hwhole]
    rfl

end Bare

/-! ### The seam -/

/-- What becomes of the segments right at a seam. -/
inductive Joins :
    List (Segment Unit) → List (Segment Unit) → List (Segment Unit) → Prop
  | apart : Joins [] [] []
  | fused {command : Command} {fuse : Nat → Plain} (hfuse : command.fused? = some fuse)
      (first second : Nat) :
      Joins [.plain (fuse first)] [.plain (fuse second)] [.plain (fuse (first + second))]

/-- The segments of two texts and of the two put together. -/
inductive Seam :
    List (Segment Unit) → List (Segment Unit) → List (Segment Unit) → Prop
  | intro (before behind : List (Segment Unit)) {left right middle : List (Segment Unit)}
      (hjoins : Joins left right middle) :
      Seam (before ++ left) (right ++ behind) (before ++ middle ++ behind)

theorem Command.fused?_eq {first second : Command} {fuse other : Nat → Plain}
    (hfuse : first.fused? = some fuse) (hother : second.fused? = some other) {count count' : Nat}
    (hsame : fuse count = other count') : fuse = other ∧ count = count' := by
  cases first <;> cases hfuse <;> cases second <;> cases hother <;> cases hsame <;> exact ⟨rfl, rfl⟩

section Seam

variable {first second whole : List (Segment Unit)}

theorem Seam.cons (segment : Segment Unit) (hseam : Seam first second whole) :
    Seam (segment :: first) second (segment :: whole) := by
  cases hseam with
  | intro before behind hjoins => exact .intro (segment :: before) behind hjoins

/-- The first segment may get longer, whether it is at the seam or not. -/
theorem Seam.lengthen {command : Command} {fuse : Nat → Plain} (hfuse : command.fused? = some fuse)
    {count total : Nat}
    (hseam : Seam (.plain (fuse count) :: first) second (.plain (fuse total) :: whole)) :
    Seam (.plain (fuse (count + 1)) :: first) second (.plain (fuse (total + 1)) :: whole) := by
  generalize hone : Segment.plain (fuse count) :: first = one at hseam
  generalize hall : Segment.plain (fuse total) :: whole = all at hseam
  cases hseam with
  | @intro before behind left right middle hjoins =>
      cases before with
      | nil =>
          -- The segment is at the seam itself.
          cases hjoins with
          | apart => cases hone
          | fused hother start more =>
              obtain ⟨hleft, rfl⟩ := List.cons.inj hone
              obtain ⟨hmiddle, rfl⟩ := List.cons.inj hall
              obtain ⟨rfl, rfl⟩ := Command.fused?_eq hfuse hother (Segment.plain.inj hleft)
              obtain rfl := Command.fused?_injective hfuse (Segment.plain.inj hmiddle)
              rw [Nat.add_right_comm]
              exact .intro [] _ (.fused hfuse (count + 1) more)
      | cons segment before =>
          obtain ⟨rfl, rfl⟩ := List.cons.inj hone
          obtain ⟨hsame, rfl⟩ := List.cons.inj hall
          obtain rfl := Command.fused?_injective hfuse (Segment.plain.inj hsame)
          exact .intro (.plain (fuse (total + 1)) :: before) behind hjoins

end Seam

/-- The segments of two texts put together are those of the first and those of
the second, with the runs at the seam made one if they are of the same kind and
nothing stands between them. -/
theorem seam_bareSegments (first second : List Char) :
    Seam (bareSegments first) (bareSegments second) (bareSegments (first ++ second)) := by
  induction first with
  | nil => exact .intro [] (bareSegments second) .apart
  | cons c rest ih =>
      rw [List.cons_append]
      cases hc : Command.ofChar? c with
      | none =>
          rw [bareSegments_comment rest hc, bareSegments_comment (rest ++ second) hc]
          exact ih
      | some command =>
          rcases command.fused_or_single with ⟨fuse, hfuse⟩ | hsingle
          · rcases bareSegments_fused rest hc hfuse with
              ⟨hjoins, count, tail, htail, hfirst⟩ | ⟨hstarts, hfirst⟩
            · rcases bareSegments_fused (rest ++ second) hc hfuse with
                ⟨-, total, behind, hbehind, hwhole⟩ | ⟨hapart, -⟩
              · rw [htail, hbehind] at ih
                rw [hfirst, hwhole]
                exact ih.lengthen hfuse
              · rw [List.head?_append, hjoins] at hapart
                exact absurd rfl hapart
            · rcases bareSegments_fused (rest ++ second) hc hfuse with
                ⟨hjoins, total, behind, hbehind, hwhole⟩ | ⟨-, hwhole⟩
              · -- The run goes on although the first text does not: it is at the seam.
                obtain rfl : rest = [] := by
                  cases rest with
                  | nil => rfl
                  | cons next rest => exact absurd hjoins hstarts
                rw [List.nil_append] at hbehind hwhole
                have hcount : total + 2 = 1 + (total + 1) := by omega
                rw [hfirst, List.nil_append, hbehind, hwhole, hcount]
                exact .intro [] behind (.fused hfuse 1 (total + 1))
              · rw [hfirst, hwhole]
                exact ih.cons _
          · obtain ⟨segment, hsegment⟩ := hsingle 0
            rw [bareSegments_single rest hc hsegment,
              bareSegments_single (rest ++ second) hc hsegment]
            exact ih.cons segment.bare

end Source
end TapeCompiler
