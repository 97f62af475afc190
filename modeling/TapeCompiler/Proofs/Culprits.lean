import TapeCompiler.Proofs.Acceptance
import TapeCompiler.Proofs.Positions

/-!
# The bracket that an error names

The strict check keeps the indices of the open brackets.  What these are can be
said by cutting the text that has been scanned: behind each open bracket there is
nested text up to the next one (`Opened`).  So the check stops at the first `]`
with nested text before it, and the index that is left on top at the end is that
of the last `[` without a match.  The report points at that very bracket.
-/

namespace TapeCompiler
namespace Source

/-- The `]` at an index ends the shortest prefix that closes more than it
opens. -/
structure FirstUnmatched (source : List Char) (pos : Nat) : Prop where
  bracket : source[pos]? = some ']'
  exceeds : (source.take (pos + 1)).count '[' < (source.take (pos + 1)).count ']'
  shortest : ∀ front, front <+: source → front.count '[' < front.count ']' →
    pos + 1 ≤ front.length

/-- The `[` at an index is the last one that has no match. -/
structure LastUnclosed (source : List Char) (pos : Nat) : Prop where
  bracket : source[pos]? = some '['
  unmatched : ∀ last, ¬ Matching '[' ']' source pos last
  largest : ∀ other, source[other]? = some '[' →
    (∀ last, ¬ Matching '[' ']' source other last) → other ≤ pos

/-! ### The open brackets -/

/-- The open brackets of a text by their indices, innermost first. -/
inductive Opened : List Char → List Nat → Prop
  | none {text : List Char} (hnested : Nested '[' ']' text) : Opened text []
  | some {before body : List Char} {outer : List Nat} (houter : Opened before outer)
      (hbody : Nested '[' ']' body) : Opened (before ++ '[' :: body) (before.length :: outer)

namespace Opened

variable {text : List Char} {opened : List Nat}

theorem opening (hopened : Opened text opened) : Opened (text ++ ['[']) (text.length :: opened) :=
  .some hopened ((nested_iff_descend bracket_ne).mpr rfl)

theorem append_nested (hopened : Opened text opened) {further : List Char}
    (hfurther : Nested '[' ']' further) : Opened (text ++ further) opened := by
  cases hopened with
  | none hnested => exact .none ((hnested.append_iff_right bracket_ne).mpr hfurther)
  | some houter hbody =>
      rw [List.append_assoc, List.cons_append]
      exact .some houter ((hbody.append_iff_right bracket_ne).mpr hfurther)

/-- A closing bracket closes the innermost open one. -/
theorem closing {pos : Nat} {outer : List Nat} (hopened : Opened text (pos :: outer)) :
    Opened (text ++ [']']) outer := by
  cases hopened with
  | @some before body _ houter hbody =>
      have hloop : Nested '[' ']' ('[' :: body ++ [']']) := by
        rw [nested_iff_descend bracket_ne, List.cons_append, descend_opening, descend_append,
          hbody.descend_eq bracket_ne]
        rfl
      rw [List.append_assoc]
      exact houter.append_nested hloop

theorem other (hopened : Opened text opened) {c : Char} (hopening : c ≠ '[') (hclosing : c ≠ ']') :
    Opened (text ++ [c]) opened := by
  refine hopened.append_nested ((nested_iff_descend bracket_ne).mpr ?_)
  rw [descend_other hopening hclosing, descend_nil]

/-- There are as many open brackets as the text is deep. -/
theorem descend_eq (hopened : Opened text opened) :
    descend '[' ']' 0 text = Option.some opened.length := by
  induction hopened with
  | none hnested => exact (nested_iff_descend bracket_ne).mp hnested
  | some houter hbody ih =>
      rw [descend_append, ih, Option.bind_some, descend_opening, hbody.descend_eq bracket_ne]
      rfl

end Opened

/-! ### The two errors -/

/-- The strict check fails at a `]` with nested text before it, or at the end with
a bracket open. -/
theorem checkNestingFrom_eq_error {front rest : List Char} {opened : List Nat}
    (hopened : Opened front opened) {fault : BracketFault}
    (hcheck : checkNestingFrom (rest.zipIdx front.length) opened = .error fault) :
    (∃ before behind, fault = .unmatchedEnd before.length ∧
      front ++ rest = before ++ ']' :: behind ∧ Nested '[' ']' before) ∨
    ∃ pos outer, fault = .unclosedStart pos ∧ Opened (front ++ rest) (pos :: outer) := by
  -- Along the characters: what has been scanned moves from the rest to the front.
  induction rest generalizing front opened with
  | nil =>
      cases opened with
      | nil => cases hcheck
      | cons pos outer =>
          cases hcheck
          rw [List.append_nil]
          exact .inr ⟨pos, outer, rfl, hopened⟩
  | cons c rest ih =>
      have hlength : front.length + 1 = (front ++ [c]).length := by
        rw [List.length_append, List.length_singleton]
      rw [List.zipIdx_cons, hlength, checkNestingFrom.eq_def] at hcheck
      dsimp only at hcheck
      rw [List.append_cons]
      by_cases hopening : c = '['
      · rw [if_pos hopening] at hcheck
        subst hopening
        exact ih hopened.opening hcheck
      rw [if_neg hopening] at hcheck
      by_cases hclosing : c = ']'
      · rw [if_pos hclosing] at hcheck
        subst hclosing
        cases opened with
        | nil =>
            cases hcheck
            cases hopened with
            | none hnested =>
                exact .inl ⟨front, rest, rfl, (List.append_cons front ']' rest).symm, hnested⟩
        | cons pos outer => exact ih hopened.closing hcheck
      · rw [if_neg hclosing] at hcheck
        exact ih (hopened.other hopening hclosing) hcheck

/-- A `]` with nested text before it is the first that closes nothing. -/
theorem firstUnmatched_of_nested {before behind : List Char} (hnested : Nested '[' ']' before) :
    FirstUnmatched (before ++ ']' :: behind) before.length := by
  refine ⟨?_, ?_, ?_⟩
  · rw [List.getElem?_append_right (Nat.le_refl _), Nat.sub_self]
    rfl
  · have htake : (before ++ ']' :: behind).take (before.length + 1) = before ++ [']'] := by
      rw [List.append_cons, List.take_left' (by simp)]
    have hequal := hnested.2
    rw [htake, List.count_append, List.count_append, List.count_singleton_self,
      List.count_singleton, if_neg (by decide)]
    omega
  · intro front hfront hexceeds
    -- A prefix that is no longer is a prefix of the nested text.
    by_contra hshort
    have hinside : front <+: before :=
      List.prefix_of_prefix_length_le hfront (List.prefix_append before _) (by omega)
    exact absurd (hnested.1 front hinside) (by omega)

theorem Matching.append_left {body : List Char} {first last : Nat}
    (hmatching : Matching '[' ']' body first last) (front : List Char) :
    Matching '[' ']' (front ++ body) (front.length + first) (front.length + last) := by
  obtain ⟨before, inner, behind, rfl, hinner, rfl, rfl⟩ := matching_iff_split.mp hmatching
  refine matching_iff_split.mpr ⟨front ++ before, inner, behind, ?_, hinner, ?_, ?_⟩
  · simp only [List.append_assoc]
  · rw [List.length_append]
  · rw [List.length_append]
    omega

/-- The innermost open bracket is the last one without a match. -/
theorem Opened.lastUnclosed {source : List Char} {pos : Nat} {outer : List Nat}
    (hopened : Opened source (pos :: outer)) : LastUnclosed source pos := by
  cases hopened with
  | @some before body _ houter hbody =>
      refine ⟨?_, ?_, ?_⟩
      · rw [List.getElem?_append_right (Nat.le_refl _), Nat.sub_self]
        rfl
      · intro last hmatching
        obtain ⟨before', inner, behind, hsource, hinner, hlength, -⟩ :=
          matching_iff_split.mp hmatching
        rw [List.append_assoc] at hsource
        obtain ⟨-, htail⟩ := List.append_inj hsource hlength.symm
        have hbodyEq : body = inner ++ ']' :: behind := (List.cons.inj htail).2
        refine hinner.not_append_closing bracket_ne hbody ⟨behind, ?_⟩
        rw [hbodyEq, List.append_assoc]
        rfl
      · intro other hother hunmatched
        by_contra hlater
        -- A bracket behind the innermost open one is in nested text and has its match there.
        have hlength : (before ++ ['[']).length = before.length + 1 := by simp
        obtain ⟨offset, rfl⟩ : ∃ offset, other = (before ++ ['[']).length + offset :=
          ⟨other - (before.length + 1), by omega⟩
        rw [List.append_cons] at hother hunmatched
        rw [List.getElem?_append_right (Nat.le_add_right _ _), Nat.add_sub_cancel_left] at hother
        obtain ⟨last, hmatching⟩ := hbody.exists_matching_closing bracket_ne hother
        exact hunmatched _ (hmatching.append_left (before ++ ['[']))

/-- No prefix of a text with open brackets closes more than it opens. -/
theorem Opened.bounded {source : List Char} {opened : List Nat} (hopened : Opened source opened) :
    ¬ ∃ front, front <+: source ∧ front.count '[' < front.count ']' := by
  rintro ⟨front, hfront, hexceeds⟩
  have hbound := ((descend_eq_some_iff bracket_ne).mp hopened.descend_eq).1 front hfront
  omega

/-! ### The report -/

def Diagnostic.place (report : Diagnostic) : Position :=
  { line := report.line, column := report.column }

/-- A placed report starts with its message and points at its character. -/
theorem Diagnostic.placed_spec (message : String) {source : List Char} {pos : Nat} {c : Char}
    (hpos : source[pos]? = some c) (hc : c ≠ '\n') :
    message.toList <+: (Diagnostic.placed message source pos).message.toList ∧
      (Diagnostic.placed message source pos).place.PointsAt source pos c := by
  refine ⟨?_, Position.of_points_at hpos hc⟩
  simp [Diagnostic.placed, toString]

/-- A strict check of a source that is not properly nested fails and names the
culprit.  If some prefix closes more than it opens, that is the `]` at the end of
the shortest such prefix, and otherwise the last `[` without a match.  The report
says which of the two it is, and its line and column lead to the bracket. -/
theorem checkBrackets_strict_names_culprit {source : List Char} (hnested : ¬ Nested '[' ']' source) :
    ((∃ front, front <+: source ∧ front.count '[' < front.count ']') →
      ∃ pos, checkBrackets true source = .error (.unmatchedEnd pos) ∧
        FirstUnmatched source pos ∧
        let report := (BracketFault.unmatchedEnd pos).diagnostic source
        "Unmatched \"]\"".toList <+: report.message.toList ∧
          report.place.PointsAt source pos ']') ∧
    ((¬ ∃ front, front <+: source ∧ front.count '[' < front.count ']') →
      ∃ pos, checkBrackets true source = .error (.unclosedStart pos) ∧
        LastUnclosed source pos ∧
        let report := (BracketFault.unclosedStart pos).diagnostic source
        "Unclosed \"[\"".toList <+: report.message.toList ∧
          report.place.PointsAt source pos '[') := by
  obtain ⟨fault, hcheck⟩ : ∃ fault, checkNesting source = .error fault := by
    cases hcheck : checkNesting source with
    | ok => exact absurd ((checkNesting_eq_ok_iff source).mp hcheck) hnested
    | error fault => exact ⟨fault, rfl⟩
  have hempty : Opened [] [] := .none ((nested_iff_descend bracket_ne).mpr rfl)
  rcases checkNestingFrom_eq_error hempty hcheck with
    ⟨before, behind, rfl, hsource, hbefore⟩ | ⟨pos, outer, rfl, hopened⟩
  · rw [List.nil_append] at hsource
    subst hsource
    have hfirst : FirstUnmatched (before ++ ']' :: behind) before.length :=
      firstUnmatched_of_nested hbefore
    refine ⟨fun _ => ⟨before.length, hcheck, hfirst, ?_⟩, fun hbounded => ?_⟩
    · exact Diagnostic.placed_spec _ hfirst.bracket (by decide)
    · exact absurd ⟨_, List.take_prefix _ _, hfirst.exceeds⟩ hbounded
  · rw [List.nil_append] at hopened
    have hlast := hopened.lastUnclosed
    refine ⟨fun hexceeds => absurd hexceeds hopened.bounded, fun _ => ⟨pos, hcheck, hlast, ?_⟩⟩
    exact Diagnostic.placed_spec _ hlast.bracket (by decide)

/-- A `]` too many in the second line, and a loop that is never closed around one
that is. -/
theorem checkBrackets_strict_names_culprit_in_second_line :
    let stray := "[]\n +]".toList
    let unclosed := "[\n[[]".toList
    ¬ Nested '[' ']' stray ∧ ¬ Nested '[' ']' unclosed ∧
      FirstUnmatched stray 5 ∧ LastUnclosed unclosed 2 ∧
      ((BracketFault.unmatchedEnd 5).diagnostic stray).place = ⟨2, 3⟩ ∧
      ((BracketFault.unmatchedEnd 5).diagnostic stray).place.PointsAt stray 5 ']' ∧
      ((BracketFault.unclosedStart 2).diagnostic unclosed).place = ⟨2, 1⟩ ∧
      ((BracketFault.unclosedStart 2).diagnostic unclosed).place.PointsAt unclosed 2 '[' := by
  intro stray unclosed
  have hstray : ¬ Nested '[' ']' stray := by decide
  have hunclosed : ¬ Nested '[' ']' unclosed := by decide
  have hbounded : ¬ ∃ front, front <+: unclosed ∧ front.count '[' < front.count ']' := by
    rintro ⟨front, hfront, hexceeds⟩
    have hdepth : descend '[' ']' 0 unclosed = some 2 := by decide
    have hbound := ((descend_eq_some_iff bracket_ne).mp hdepth).1 front hfront
    omega
  obtain ⟨pos, hcheck, hfirst, -, hpoints⟩ := (checkBrackets_strict_names_culprit hstray).1
    ⟨stray, List.prefix_refl _, by decide⟩
  obtain ⟨other, hother, hlast, -, hotherPoints⟩ :=
    (checkBrackets_strict_names_culprit hunclosed).2 hbounded
  obtain rfl : 5 = pos := BracketFault.unmatchedEnd.inj (Except.error.inj hcheck)
  obtain rfl : 2 = other := BracketFault.unclosedStart.inj (Except.error.inj hother)
  exact ⟨hstray, hunclosed, hfirst, hlast, by decide, hpoints, by decide, hotherPoints⟩

end Source
end TapeCompiler
